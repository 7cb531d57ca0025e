import H12Tiny.Client.HappyEyeballs
import H12Tiny.Client.Request
import H12Tiny.Foundation.Plans
import H12Tiny.Foundation.Polled
import H12Tiny.Normalize.Dialling

/-! # The connector of the client

`Connector::connect`: resolving, racing the addresses, the caller's dialers, TLS and the
protocol that ALPN selects. A run is a snapshot: every future that it awaits has come to a
result or is pending, and the calls it has made so far are recorded in their order. What
the TLS library and a caller's dialer promise is a hypothesis where it is needed. The calls
of an establishment follow a plan that its URI determines, and a URI that is refused has
none.
-/
namespace H12Tiny.Connect
open Sync (Bytes IoError)
open Client (ConnectionProtocol)
open Dialling (ConnectorKind Attempt)
open Plan (Program Fits Follows)

/-- The ALPN protocol `h2`. -/
def h2 : Bytes := [104,50]

/-- The ALPN protocol `http/1.1`. -/
def http11 : Bytes := [104,116,116,112,47,49,46,49]

inductive Error (D : Type)
  | missingHost
  | unsupportedScheme (scheme : Bytes)
  | tlsDisabled
  | invalidServerName (host : Bytes)
  | unexpectedAlpn (protocol : Bytes)
  | requiredHttp2NotNegotiated
  | connect (error : IoError)
  | resolve (error : D)
  | custom (error : D)
  | timeout
  | tls (error : IoError)

variable {S D α : Type}

def Error.clientErrorKind : Error D → Client.ErrorKind
  | unsupportedScheme _ => .unsupportedScheme
  | unexpectedAlpn _ | requiredHttp2NotNegotiated => .alpn
  | invalidServerName _ | tls _ | tlsDisabled => .tls
  | missingHost | connect _ | resolve _ | custom _ | timeout => .connect

def Error.ofUri : Dialling.ConnectError → Error D
  | .missingHost => missingHost
  | .unsupportedScheme scheme => unsupportedScheme scheme
  | .tlsDisabled => tlsDisabled

structure TcpConnected (S : Type) where
  io : S
  localAddr : Option SocketAddr
  peerAddr : Option SocketAddr

structure Connected (S : Type) where
  io : S
  protocol : ConnectionProtocol
  localAddr : Option SocketAddr
  peerAddr : Option SocketAddr

inductive Call
  | dial (uri : Uri) (requireH2 : Bool)
  | tcpDial (uri : Uri)
  | resolve (host : Bytes) (port : ℕ)
  | race (addresses : List SocketAddr)
  | handshake (offers : List Bytes) (serverName : Bytes)

/-- What the futures have come to. -/
structure Network (S D : Type) where
  dial : Uri → Bool → Poll (Except D (Connected S))
  tcpDial : Uri → Poll (Except D (TcpConnected S))
  resolve : Bytes → ℕ → Poll (Except D (List SocketAddr))
  events : List SocketAddr → List (Event S)
  socketAddresses : S → Option SocketAddr × Option SocketAddr
  isServerName : Bytes → Bool
  handshake : List Bytes → Bytes → S → Poll (Except IoError (Option Bytes × S))

/-- The TLS library rejects a server that selects a protocol which was not offered. -/
def Network.SelectsOffered (network : Network S D) : Prop :=
  ∀ offers name io protocol tls, network.handshake offers name io = .ready (.ok (some protocol,tls)) →
    protocol ∈ offers

/-- A dialer that is asked for HTTP/2 declares no other protocol. -/
def Network.DialsCompatibly (network : Network S D) : Prop :=
  ∀ uri connected, network.dial uri true = .ready (.ok connected) → connected.protocol = .http2

structure Connector where
  kind : ConnectorKind
  happyEyeballsTimeout : Option ℕ
  connectTimeout : Option ℕ
  alpnProtocols : List Bytes

inductive Stop (D : Type)
  | pending
  | failed (error : Error D)

abbrev Establish (D α : Type) := Program Call (Stop D) α

/-- What has become of a future when the program stops at it or goes on. -/
def settle {E : Type} (f : E → Error D) : Poll (Except E α) → Except (Stop D) α
  | .pending => .error .pending
  | .ready (.error error) => .error (.failed (f error))
  | .ready (.ok value) => .ok value

def await {E : Type} (call : Call) (f : E → Error D) (answer : Poll (Except E α)) : Establish D α :=
  Plan.call call (settle f answer)

def fail (error : Error D) : Establish D α := throw (.failed error)

def Network.race (network : Network S D) (addresses : List SocketAddr) (happyEyeballsTimeout : Option ℕ) :
    Poll (Except IoError S) :=
  match (runActions State.step (connectResolvedAddresses addresses happyEyeballsTimeout)
      (network.events addresses)).map State.stage with
  | some (.returned result) => .ready result
  | _ => .pending

def selectProtocol (requireH2 : Bool) : Option Bytes → Except (Error D) ConnectionProtocol
  | some protocol =>
    if protocol = h2 then .ok .http2
    else if protocol = http11 ∧ !requireH2 then .ok .http1
    else .error (.unexpectedAlpn protocol)
  | none => if requireH2 then .error .requiredHttp2NotNegotiated else .ok .http1

namespace Connector

/-- A quarter of a second between the attempts, and both protocols on offer. -/
def new : Connector := ⟨.default,some 250000000,none,[h2,http11]⟩

def forceHttp1 (self : Connector) : Connector := { self with alpnProtocols := [http11] }

variable (self : Connector) (network : Network S D)

def connectTcp (host : Bytes) (port : ℕ) : Establish D (TcpConnected S) := do
  let addresses ← await (.resolve host port) .resolve (network.resolve host port)
  let stream ← await (.race addresses) .connect (network.race addresses self.happyEyeballsTimeout)
  let (localAddr,peerAddr) := network.socketAddresses stream
  return ⟨stream,localAddr,peerAddr⟩

def connectTls (host : Bytes) (requireH2 : Bool) (tcp : TcpConnected S) : Establish D (Connected S) :=
  if network.isServerName host then do
    let (alpnProtocol,tls) ← await (.handshake self.alpnProtocols host) .tls
      (network.handshake self.alpnProtocols host tcp.io)
    match selectProtocol requireH2 alpnProtocol with
    | .ok protocol => return ⟨tls,protocol,tcp.localAddr,tcp.peerAddr⟩
    | .error error => fail error
  else fail (.invalidServerName host)

def plain (requireH2 : Bool) (tcp : TcpConnected S) : Connected S :=
  ⟨tcp.io,if requireH2 then .http2 else .http1,tcp.localAddr,tcp.peerAddr⟩

def perform (requireH2 : Bool) : Attempt → Establish D (Connected S)
  | .custom uri requireH2 => await (.dial uri requireH2) .custom (network.dial uri requireH2)
  | .tcp uri serverName => do
    let tcp ← await (.tcpDial uri) .custom (network.tcpDial uri)
    match serverName with
    | some host => self.connectTls network host requireH2 tcp
    | none => return plain requireH2 tcp
  | .direct dial => do
    let tcp ← self.connectTcp network dial.peer.host dial.peer.port
    if dial.secure then self.connectTls network dial.peer.host requireH2 tcp
    else return plain requireH2 tcp

/-- `connect_without_timeout`: the URI is looked at before anything is called. -/
def connectWithoutTimeout (tls : Bool) (uri : Uri) (requireH2 : Bool) : Establish D (Connected S) :=
  match Dialling.connectWithoutTimeout self.kind tls uri requireH2 with
  | .ok attempt => self.perform network requireH2 attempt
  | .error error => fail (.ofUri error)

/-- The timer is looked at when the establishment is pending. -/
def connect (tls : Bool) (uri : Uri) (requireH2 elapsed : Bool) : Establish D (Connected S) := fun calls =>
  match self.connectWithoutTimeout network tls uri requireH2 calls with
  | .error .pending calls =>
    .error (if self.connectTimeout.isSome ∧ elapsed then .failed .timeout else .pending) calls
  | result => result

end Connector

def Negotiates (offers : List Bytes) (requireH2 : Bool) (result : Except (Error D) ConnectionProtocol) : Prop :=
  ∃ alpnProtocol : Option Bytes, (∀ protocol ∈ alpnProtocol, protocol ∈ offers) ∧
    selectProtocol requireH2 alpnProtocol = result

/-- With TLS the protocol is negotiated, without it is the one the client wants. -/
def Speaks (D : Type) (offers : List Bytes) (requireH2 secure : Bool) (protocol : ConnectionProtocol) : Prop :=
  if secure then Negotiates offers requireH2 (.ok protocol : Except (Error D) ConnectionProtocol)
  else protocol = if requireH2 then .http2 else .http1

/-- An error about the protocol comes from an answer to the offers. -/
def Refuses (offers : List Bytes) (requireH2 : Bool) : Stop D → Prop
  | .pending => True
  | .failed e => e.clientErrorKind = .alpn → Negotiates offers requireH2 (.error e)

theorem await_follows {E : Type} {offers : List Bytes} {requireH2 : Bool} {call : Call} {f : E → Error D}
    {answer : Poll (Except E α)} {P : α → Prop} (hok : ∀ a, answer = .ready (.ok a) → P a)
    (hf : ∀ e, (f e).clientErrorKind ≠ .alpn) :
    Follows id [call] P (fun _ => Refuses offers requireH2) (await call f answer) := by
  apply Plan.call_follows
  · intro a ha
    rcases answer with (e | a) | _
    · cases ha
    · cases ha
      exact hok a rfl
    · cases ha
  · intro stop hstop
    rcases answer with (e | a) | _
    · cases hstop
      exact fun hkind => absurd hkind (hf e)
    · cases hstop
    · cases hstop
      trivial

/-- The connection that an attempt ends with: that of the caller's dialer as it is, or one
with the protocol that was negotiated or wanted. -/
def Brings (network : Network S D) (offers : List Bytes) (requireH2 : Bool) (connected : Connected S) :
    Attempt → Prop
  | .custom uri requireH2 => network.dial uri requireH2 = .ready (.ok connected)
  | .tcp _ serverName => Speaks D offers requireH2 serverName.isSome connected.protocol
  | .direct dial => Speaks D offers requireH2 dial.secure connected.protocol

def Network.addresses (network : Network S D) (host : Bytes) (port : ℕ) : List SocketAddr :=
  match network.resolve host port with
  | .ready (.ok addresses) => addresses
  | _ => []

namespace Connector

def plan (self : Connector) (network : Network S D) : Attempt → List Call
  | .custom uri requireH2 => [.dial uri requireH2]
  | .tcp uri serverName => .tcpDial uri :: (serverName.map (Call.handshake self.alpnProtocols)).toList
  | .direct dial =>
    [.resolve dial.peer.host dial.peer.port,.race (network.addresses dial.peer.host dial.peer.port)] ++
      if dial.secure then [.handshake self.alpnProtocols dial.peer.host] else []

variable (self : Connector) {network : Network S D} (hnetwork : network.SelectsOffered) (requireH2 : Bool)

omit hnetwork in
theorem connectTcp_follows (host : Bytes) (port : ℕ) :
    Follows id [.resolve host port,.race (network.addresses host port)] (fun _ => True)
      (fun _ => Refuses self.alpnProtocols requireH2) (self.connectTcp network host port) := by
  have hresolve : Follows id [.resolve host port] (fun addresses => addresses = network.addresses host port)
      (fun _ => Refuses self.alpnProtocols requireH2)
      (await (.resolve host port) .resolve (network.resolve host port)) := by
    refine await_follows (fun addresses h => ?_) (fun _ hkind => by cases hkind)
    rw [Network.addresses,h]
  refine Follows.bind [Call.resolve host port] [Call.race (network.addresses host port)] hresolve ?_
  rintro _ rfl
  refine Follows.bind [_] [] (P := fun _ => True) ?_ (fun _ _ => Follows.pure trivial)
  exact await_follows (fun _ _ => trivial) (fun _ hkind => by cases hkind)

include hnetwork

theorem connectTls_follows (host : Bytes) (tcp : TcpConnected S) :
    Follows id [.handshake self.alpnProtocols host]
      (fun connected => Speaks D self.alpnProtocols requireH2 true connected.protocol)
      (fun _ => Refuses self.alpnProtocols requireH2) (self.connectTls network host requireH2 tcp) := by
  unfold connectTls
  split
  · refine Follows.bind [_] [] (P := fun answer => ∀ protocol ∈ answer.1, protocol ∈ self.alpnProtocols)
      (await_follows ?_ (fun _ hkind => by cases hkind)) ?_
    · rintro ⟨alpnProtocol,tls⟩ hready protocol hprotocol
      cases hprotocol
      exact hnetwork _ _ _ _ _ hready
    · rintro ⟨alpnProtocol,tls⟩ hoffered
      simp only []
      split
      next protocol hselect => exact Follows.pure ⟨alpnProtocol,hoffered,hselect⟩
      next error hselect => exact Follows.throw fun _ => ⟨alpnProtocol,hoffered,hselect⟩
  · exact Follows.throw fun hkind => by cases hkind

theorem perform_follows (attempt : Attempt) :
    Follows id (self.plan network attempt)
      (fun connected => Brings network self.alpnProtocols requireH2 connected attempt)
      (fun _ => Refuses self.alpnProtocols requireH2) (self.perform network requireH2 attempt) := by
  cases attempt with
  | custom uri requireH2 => exact await_follows (fun _ h => h) (fun _ hkind => by cases hkind)
  | tcp uri serverName =>
    have hdial : Follows id [Call.tcpDial uri] (fun _ => True) (fun _ => Refuses self.alpnProtocols requireH2)
        (await (.tcpDial uri) .custom (network.tcpDial uri)) :=
      await_follows (fun _ _ => trivial) fun _ hkind => by cases hkind
    refine Follows.bind [_] _ hdial fun tcp _ => ?_
    cases serverName with
    | none => exact Follows.pure rfl
    | some host => exact self.connectTls_follows hnetwork requireH2 host tcp
  | direct dial =>
    refine Follows.bind _ _ (self.connectTcp_follows requireH2 dial.peer.host dial.peer.port) fun tcp _ => ?_
    obtain ⟨peer,secure⟩ := dial
    cases secure with
    | false => exact Follows.pure rfl
    | true => exact self.connectTls_follows hnetwork requireH2 peer.host tcp

def tcpCalls (network : Network S D) (uri : Uri) (host : Bytes) (port : ℕ) : List Call :=
  if self.kind = .tcp then [.tcpDial uri] else [.resolve host port,.race (network.addresses host port)]

/-- What is called for a URI. A dialer that replaces the connector is called once and nothing
else is; otherwise there is one TCP connection, and TLS on it for `https` with the bare host
as the name to check. -/
inductive Planned (network : Network S D) (tls : Bool) (uri : Uri) (requireH2 : Bool) : List Call → Prop
  | dialer (hkind : self.kind = .custom) : Planned network tls uri requireH2 [.dial uri requireH2]
  | plain {host : Bytes} (hkind : self.kind ≠ .custom) (hhost : uri.host = some host)
      (hscheme : uri.scheme = some .http) :
      Planned network tls uri requireH2 (self.tcpCalls network uri (Dialling.bareHost host) (uri.port.getD 80))
  | secure {host : Bytes} (hkind : self.kind ≠ .custom) (hhost : uri.host = some host)
      (hscheme : uri.scheme = some .https) (htls : tls = true) :
      Planned network tls uri requireH2 (self.tcpCalls network uri (Dialling.bareHost host) (uri.port.getD 443) ++
        [.handshake self.alpnProtocols (Dialling.bareHost host)])

/-- The connection for a URI: that of the dialer as it is, or one with the protocol that was
negotiated for `https` or is wanted for `http`. -/
def Delivers (network : Network S D) (uri : Uri) (requireH2 : Bool) (connected : Connected S) : Prop :=
  if self.kind = .custom then network.dial uri requireH2 = .ready (.ok connected)
  else Speaks D self.alpnProtocols requireH2 (uri.scheme = some .https) connected.protocol

section Connect
variable {self requireH2} {tls elapsed : Bool} {uri : Uri} {attempt : Attempt}

omit hnetwork in
theorem plan_attempt (hkind : self.kind ≠ .custom) (host : Bytes) (port : ℕ) (secure : Bool) :
    self.plan network (Dialling.attempt self.kind uri host port secure) =
        self.tcpCalls network uri host port ++ (if secure then [.handshake self.alpnProtocols host] else []) ∧
      ∀ connected, Brings network self.alpnProtocols requireH2 connected
        (Dialling.attempt self.kind uri host port secure) →
        Speaks D self.alpnProtocols requireH2 secure connected.protocol := by
  unfold Dialling.attempt tcpCalls
  cases hself : self.kind with
  | custom => exact absurd hself hkind
  | default => cases secure <;> exact ⟨rfl,fun _ h => h⟩
  | tcp => cases secure <;> exact ⟨rfl,fun _ h => h⟩

omit hnetwork in
theorem planned_of_accepted (h : Dialling.connectWithoutTimeout self.kind tls uri requireH2 = .ok attempt) :
    self.Planned network tls uri requireH2 (self.plan network attempt) ∧
      ∀ connected, Brings network self.alpnProtocols requireH2 connected attempt →
        self.Delivers network uri requireH2 connected := by
  unfold Dialling.connectWithoutTimeout at h
  unfold Delivers
  by_cases hkind : self.kind = .custom
  · rw [if_pos hkind] at h
    cases h
    simp only [if_pos hkind]
    exact ⟨.dialer hkind,fun _ h => h⟩
  · rw [if_neg hkind] at h
    simp only [if_neg hkind]
    rcases hhost : uri.host with _ | host
    · rw [hhost] at h
      cases h
    · rw [hhost] at h
      rcases hscheme : uri.scheme with _ | _ | _ | other
      · rw [hscheme] at h
        cases h
      · rw [hscheme] at h
        cases h
        obtain ⟨hplan,hspeaks⟩ := plan_attempt hkind (Dialling.bareHost host) (uri.port.getD 80) false
        rw [hplan,if_neg Bool.false_ne_true,List.append_nil]
        exact ⟨.plain hkind hhost hscheme,hspeaks⟩
      · rw [hscheme] at h
        dsimp only at h
        split at h
        next htls =>
          cases h
          obtain ⟨hplan,hspeaks⟩ := plan_attempt hkind (Dialling.bareHost host) (uri.port.getD 443) true
          rw [hplan,if_pos rfl]
          exact ⟨.secure hkind hhost hscheme htls,hspeaks⟩
        next => cases h
      · rw [hscheme] at h
        cases h

theorem connect_follows (elapsed : Bool)
    (h : Dialling.connectWithoutTimeout self.kind tls uri requireH2 = .ok attempt) :
    Follows id (self.plan network attempt) (self.Delivers network uri requireH2)
      (fun _ => Refuses self.alpnProtocols requireH2) (self.connect network tls uri requireH2 elapsed) := by
  intro calls
  have hfits := (self.perform_follows hnetwork requireH2 attempt).weaken (planned_of_accepted h).2
    (fun _ _ _ hrefuses => hrefuses) calls
  unfold connect connectWithoutTimeout
  rw [h]
  simp only []
  generalize self.perform network requireH2 attempt calls = result at hfits
  rcases result with ⟨a,calls'⟩ | ⟨_ | e,calls'⟩
  · exact hfits
  · simp only []
    split
    · obtain ⟨made,hmade,hcalls,_⟩ := hfits
      exact ⟨made,hmade,hcalls,fun hkind => by cases hkind⟩
    · exact hfits
  · exact hfits

omit hnetwork in
theorem connect_rejected {error : Dialling.ConnectError}
    (h : Dialling.connectWithoutTimeout self.kind tls uri requireH2 = .error error) (calls : List Call) :
    self.connect network tls uri requireH2 elapsed calls = .error (.failed (.ofUri error)) calls := by
  unfold connect connectWithoutTimeout
  rw [h]
  rfl

end Connect
end Connector

/-- A network with one address for every host, whose servers take the first protocol on offer
and whose dialer does as it is asked. -/
def firstOffer : Network ℕ String where
  dial _ requireH2 := .ready (.ok ⟨0,if requireH2 then .http2 else .http1,none,none⟩)
  tcpDial _ := .ready (.ok ⟨1,none,none⟩)
  resolve _ port := .ready (.ok [.v4 1 (.ofNat port)])
  events _ := [.succeeded 0 2]
  socketAddresses _ := (none,none)
  isServerName _ := true
  handshake offers _ io := .ready (.ok (offers.head?,io))

theorem firstOffer_selectsOffered : firstOffer.SelectsOffered := by
  intro offers name io protocol tls h
  obtain ⟨hhead,_⟩ : offers.head? = some protocol ∧ io = tls := by simpa [firstOffer] using h
  exact List.mem_of_head? hhead

theorem firstOffer_dialsCompatibly : firstOffer.DialsCompatibly := by
  intro uri connected h
  cases h
  rfl

/-- The URI `https://[::1]`. -/
def loopbackUri : Uri :=
  ⟨some .https,some ⟨none,[91,58,58,49,93],none,by decide,by decide,by decide⟩,.slash,by decide,by decide⟩

end H12Tiny.Connect
