import H12Tiny.Sync.Request

/-! # Dialling an origin

The peers that the blocking client's `connect` and the connector's
`connect_without_timeout` ask for, and a reader of the pair of a `Host` value and a request
target as a server has it. A dial is the call of `connect_tcp` with a host and a port; what
the network answers is left out. The `tls` feature is a parameter of both builds.
-/
namespace H12Tiny.Normalize

def Origin.uri (self : Origin) : Option Uri :=
  Uri.fromParts (some self.scheme) (some self.authority) (some .slash)

end H12Tiny.Normalize

namespace H12Tiny.Dialling
open Sync (Bytes)
open Normalize (Origin Request extractOrigin hostName hostText nonDefaultPort isSecureScheme digits
  normalizeHttp1Request targetText withHost)
open RequestGrammar (cut parseLength)

structure Peer where
  host : Bytes
  port : ℕ
  deriving DecidableEq

structure Dial where
  peer : Peer
  secure : Bool
  deriving DecidableEq

/-- The host behind an opening bracket and in front of a closing one, if it has both. -/
def bareHost (host : Bytes) : Bytes :=
  if host.head? = some 91 ∧ host.tail.getLast? = some 93 then host.tail.dropLast else host

/-! ## The blocking client -/

def schemeText (scheme : Bytes) : String := String.ofList (scheme.map fun byte => Char.ofNat byte.toNat)

def unsupportedScheme (other : Bytes) : Sync.Error :=
  .withSource .unsupportedScheme ⟨.invalidInput,"unsupported URI scheme \"" ++ schemeText other ++ "\""⟩

def connectTls (tls : Bool) (host : Bytes) (port : ℕ) : Except Sync.Error Dial :=
  if tls then .ok ⟨⟨host,port⟩,true⟩ else .error (.new .tlsUnavailable)

def connect (tls : Bool) (origin : Origin) : Option (Except Sync.Error Dial) :=
  origin.uri.map fun uri =>
    match uri.host with
    | none => .error (.new .connect)
    | some host =>
      match uri.scheme with
      | some .http => .ok ⟨⟨bareHost host,uri.port.getD 80⟩,false⟩
      | some .https => connectTls tls (bareHost host) (uri.port.getD 443)
      | some (.other text) => .error (unsupportedScheme text)
      | none => .error (unsupportedScheme [])

/-! ## The connector -/

inductive ConnectorKind
  | default
  | custom
  | tcp
  deriving DecidableEq

inductive ConnectError
  | missingHost
  | unsupportedScheme (scheme : Bytes)
  | tlsDisabled
  deriving DecidableEq

/-- A caller's dialer gets the URI; a dialer of TCP connections leaves the name that TLS
checks to the connector. -/
inductive Attempt
  | custom (uri : Uri) (requireH2 : Bool)
  | tcp (uri : Uri) (serverName : Option Bytes)
  | direct (dial : Dial)
  deriving DecidableEq

def attempt (kind : ConnectorKind) (uri : Uri) (host : Bytes) (port : ℕ) (secure : Bool) : Attempt :=
  if kind = .tcp then .tcp uri (if secure then some host else none) else .direct ⟨⟨host,port⟩,secure⟩

def connectWithoutTimeout (kind : ConnectorKind) (tls : Bool) (uri : Uri) (requireH2 : Bool) :
    Except ConnectError Attempt :=
  if kind = .custom then .ok (.custom uri requireH2)
  else
    match uri.host with
    | none => .error .missingHost
    | some host =>
      match uri.scheme with
      | none => .error (.unsupportedScheme [])
      | some (.other scheme) => .error (.unsupportedScheme scheme)
      | some .http => .ok (attempt kind uri (bareHost host) (uri.port.getD 80) false)
      | some .https =>
        if tls then .ok (attempt kind uri (bareHost host) (uri.port.getD 443) true)
        else .error .tlsDisabled

/-! ## Reading the request back -/

def defaultPort : Scheme → Option ℕ
  | .http => some 80
  | .https => some 443
  | .other _ => none

def readPort (scheme : Scheme) : Bytes → Option ℕ
  | [] => defaultPort scheme
  | byte :: port => if byte = 58 then parseLength port else none

/-- The host in front of a port, without brackets, and the rest. -/
def splitHost (text : Bytes) : Bytes × Bytes :=
  if text.head? = some 91 then cut 93 text.tail
  else (text.takeWhile (· ≠ 58),text.dropWhile (· ≠ 58))

def resolveHost (scheme : Scheme) (value : Bytes) : Option Peer :=
  (readPort scheme (splitHost value).2).map (Peer.mk (splitHost value).1)

def resolveTarget (target : Bytes) : Bytes × Option Bytes :=
  ((cut 63 target).1,if 63 ∈ target then some (cut 63 target).2 else none)

/-- A name without colon and opening bracket, or a text in brackets. -/
inductive HostForm : Bytes → Prop
  | name {host : Bytes} (hcolon : 58 ∉ host) (hbracket : 91 ∉ host) : HostForm host
  | literal {inner : Bytes} (hinner : 93 ∉ inner) : HostForm (91 :: inner ++ [93])

theorem hostForm_of_isHost {host : Bytes} (h : isHost host = true) : HostForm host := by
  obtain ⟨-,hname | ⟨hhead,hlast,-,hinner⟩⟩ := of_decide_eq_true h
  · exact .name hname.1 hname.2.1
  · obtain ⟨rest,rfl⟩ := List.head?_eq_some_iff.mp hhead
    rcases List.eq_nil_or_concat' rest with rfl | ⟨inner,last,rfl⟩
    · cases hlast
    · rw [← List.cons_append,List.getLast?_concat] at hlast
      cases hlast
      rw [← List.cons_append,List.dropLast_concat] at hinner
      exact .literal fun hmem => hinner (List.mem_cons_of_mem _ hmem)

theorem splitHost_append {host rest : Bytes} (hhost : HostForm host)
    (hrest : rest = [] ∨ rest.head? = some 58) : splitHost (host ++ rest) = (bareHost host,rest) := by
  cases hhost with
  | name hcolon hbracket =>
    have hbare : bareHost host = host := if_neg fun h => hbracket (List.mem_of_mem_head? h.1)
    have hpos := ne_of_not_mem hcolon
    obtain ⟨hopen,htake,hdrop⟩ : rest.head? ≠ some 91 ∧ rest.takeWhile (· ≠ 58) = [] ∧
        rest.dropWhile (· ≠ 58) = rest := by
      rcases hrest with rfl | hrest
      · exact ⟨(Option.some_ne_none _).symm,rfl,rfl⟩
      · obtain ⟨port,rfl⟩ := List.head?_eq_some_iff.mp hrest
        exact ⟨fun h => absurd (Option.some.inj h) (by decide),rfl,rfl⟩
    have hhead : (host ++ rest).head? ≠ some 91 := by
      rw [List.head?_append,Ne,Option.or_eq_some_iff]
      rintro (hhead | ⟨-,hhead⟩)
      · exact hbracket (List.mem_of_mem_head? hhead)
      · exact hopen hhead
    rw [splitHost,if_neg hhead,List.takeWhile_append_of_pos hpos,List.dropWhile_append_of_pos hpos,htake,hdrop,
      List.append_nil,hbare]
  | @literal inner hinner =>
    have hbare : bareHost (91 :: inner ++ [93]) = inner := by simp [bareHost]
    have hopen : (91 :: inner ++ [93] ++ rest).head? = some 91 := rfl
    rw [splitHost,if_pos hopen,hbare,List.cons_append,List.cons_append,List.tail_cons,List.append_assoc]
    exact RequestGrammar.cut_append hinner

def portText (port : Option ℕ) : Bytes := port.elim [] fun port => 58 :: digits port

theorem hostText_eq (uri : Uri) (host : Bytes) : hostText uri host = host ++ portText (nonDefaultPort uri) := by
  unfold hostText portText
  cases nonDefaultPort uri with
  | none => exact (List.append_nil host).symm
  | some port => rfl

theorem isSecureScheme_iff {uri : Uri} {scheme : Scheme} {standard : ℕ} (huri : uri.scheme = some scheme)
    (hstandard : defaultPort scheme = some standard) :
    isSecureScheme uri = true ∧ standard = 443 ∨ isSecureScheme uri = false ∧ standard = 80 := by
  unfold isSecureScheme
  rw [huri]
  cases scheme with
  | http =>
    cases hstandard
    exact .inr ⟨rfl,rfl⟩
  | https =>
    cases hstandard
    exact .inl ⟨rfl,rfl⟩
  | other text => cases hstandard

theorem readPort_portText {uri : Uri} {scheme : Scheme} {standard : ℕ} (huri : uri.scheme = some scheme)
    (hstandard : defaultPort scheme = some standard) :
    readPort scheme (portText (nonDefaultPort uri)) = some (uri.port.getD standard) := by
  have hport : nonDefaultPort uri = none ∧ uri.port.getD standard = standard ∨ nonDefaultPort uri = uri.port := by
    unfold nonDefaultPort
    split
    next hdefault =>
      refine .inl ⟨rfl,?_⟩
      rcases isSecureScheme_iff huri hstandard with ⟨hsecure,rfl⟩ | ⟨hsecure,rfl⟩
      · rw [(hdefault.resolve_right fun h => h.2 hsecure).1]
        rfl
      · rw [(hdefault.resolve_left fun h => Bool.false_ne_true (hsecure.symm.trans h.2)).1]
        rfl
    next => exact .inr rfl
  rcases hport with ⟨hnone,hvalue⟩ | hport
  · rw [hnone,hvalue]
    exact hstandard
  · rw [hport]
    cases uri.port with
    | none => exact hstandard
    | some port => exact Sync.parseLength_digits port

/-- The synthesized value is read back as the host without brackets and the port of the
authority, or the default one. -/
theorem resolveHost_hostText {uri : Uri} {scheme : Scheme} {authority : Authority} {standard : ℕ}
    (huri : uri.scheme = some scheme) (hauthority : uri.authority = some authority)
    (hstandard : defaultPort scheme = some standard) :
    resolveHost scheme (hostText uri authority.host) =
      some ⟨bareHost authority.host,authority.portU16.getD standard⟩ := by
  have hport : uri.port = authority.portU16 := by rw [Uri.port,hauthority,Option.bind_some]
  have hrest : portText (nonDefaultPort uri) = [] ∨ (portText (nonDefaultPort uri)).head? = some 58 := by
    cases nonDefaultPort uri with
    | none => exact .inl rfl
    | some port => exact .inr rfl
  have hsplit := splitHost_append (hostForm_of_isHost authority.form.1) hrest
  rw [hostText_eq,resolveHost,hsplit,readPort_portText huri hstandard,hport]
  rfl

/-- Both clients dial the host without brackets, at the port of the authority or the default
one of the scheme. -/
theorem connect_eq {origin : Origin} {standard : ℕ} (hstandard : defaultPort origin.scheme = some standard)
    {tls : Bool} (htls : origin.scheme = .https → tls = true) :
    connect tls origin = some (.ok ⟨⟨bareHost origin.authority.host,origin.authority.portU16.getD standard⟩,
      origin.scheme = .https⟩) ∧
    ∃ uri, origin.uri = some uri ∧ ∀ requireH2, connectWithoutTimeout .default tls uri requireH2 =
      .ok (.direct ⟨⟨bareHost origin.authority.host,origin.authority.portU16.getD standard⟩,
        origin.scheme = .https⟩) := by
  rcases origin with ⟨scheme,authority⟩
  cases scheme with
  | http =>
    cases hstandard
    exact ⟨rfl,_,rfl,fun requireH2 => rfl⟩
  | https =>
    cases hstandard
    rw [htls rfl]
    exact ⟨rfl,_,rfl,fun requireH2 => rfl⟩
  | other text => cases hstandard

/-- The query of a target starts behind its first question mark. -/
theorem resolveTarget_text (parts : PathAndQuery) :
    resolveTarget (parts.pathText ++ parts.queryText) = (parts.pathText,parts.query) := by
  have hpath : 63 ∉ parts.pathText := by
    unfold PathAndQuery.pathText
    split
    next => decide
    next => exact parts.form
  unfold resolveTarget PathAndQuery.queryText
  cases parts.query with
  | none =>
    have hcut : (cut 63 parts.pathText).1 = parts.pathText :=
      List.takeWhile_eq_self_iff.mpr (ne_of_not_mem hpath)
    rw [Option.elim_none,List.append_nil,hcut,if_neg hpath]
  | some query =>
    rw [Option.elim_some,RequestGrammar.cut_append hpath,if_pos (List.mem_append_right _ List.mem_cons_self)]

/-- The path of a URI with an authority is empty or starts with a slash. -/
def Rooted (parts : PathAndQuery) : Prop := parts.path = [] ∨ parts.path.head? = some 47

theorem Rooted.head {parts : PathAndQuery} (h : Rooted parts) :
    (parts.pathText ++ parts.queryText).head? = some 47 := by
  unfold PathAndQuery.pathText
  rcases h with hnil | hhead
  · rw [if_pos hnil]
    rfl
  · have hne : parts.path ≠ [] := fun hnil => by rw [hnil] at hhead; cases hhead
    rw [if_neg hne,List.head?_append,hhead]
    rfl

variable {B : Type}

/-- A request with an absolute URI of `http` or `https`, or one to connect to an authority. -/
def Direct (request : Request B) : Prop :=
  request.uri.scheme = some .http ∨ request.uri.scheme = some .https ∨
    request.method = .connect ∧ request.uri.scheme = none ∧ request.uri.authority.isSome

theorem Direct.origin {request : Request B} (h : Direct request) :
    ∃ origin uri, extractOrigin request.uri (request.method = .connect) = some (.ok origin,uri) ∧
      (∃ standard, defaultPort origin.scheme = some standard) ∧
      request.uri.authority = some origin.authority ∧
      ∀ scheme, request.uri.scheme = some scheme → origin.scheme = scheme ∧ uri = request.uri := by
  have habsolute : ∀ scheme, request.uri.scheme = some scheme → ∃ authority,
      request.uri.authority = some authority ∧ extractOrigin request.uri (request.method = .connect) =
        some (.ok ⟨scheme,authority⟩,request.uri) := by
    intro scheme hscheme
    obtain ⟨authority,hauthority⟩ := Option.isSome_iff_exists.mp (request.uri.absolute (hscheme ▸ rfl))
    refine ⟨authority,hauthority,?_⟩
    rw [extractOrigin,hscheme,hauthority]
  have hsame : ∀ {scheme : Scheme}, request.uri.scheme = some scheme → ∀ other,
      request.uri.scheme = some other → scheme = other ∧ request.uri = request.uri :=
    fun hscheme other hother => ⟨Option.some.inj (hscheme.symm.trans hother),rfl⟩
  rcases h with hscheme | hscheme | ⟨hmethod,hscheme,hauthority⟩
  · obtain ⟨authority,hauthority,horigin⟩ := habsolute _ hscheme
    exact ⟨_,_,horigin,⟨80,rfl⟩,hauthority,hsame hscheme⟩
  · obtain ⟨authority,hauthority,horigin⟩ := habsolute _ hscheme
    exact ⟨_,_,horigin,⟨443,rfl⟩,hauthority,hsame hscheme⟩
  · obtain ⟨authority,hauthority⟩ := Option.isSome_iff_exists.mp hauthority
    rw [extractOrigin,hscheme,hauthority]
    simp only [hmethod,decide_true,if_true,Normalize.setConnectScheme,hauthority]
    refine ⟨_,_,rfl,?_,rfl,fun scheme h => absurd h.symm (Option.some_ne_none scheme)⟩
    dsimp only
    split
    · exact ⟨443,rfl⟩
    · exact ⟨80,rfl⟩

structure Agrees (request : Request B) (origin : Origin) (normalized : Request B) (value : HeaderValue)
    (peer : Peer) : Prop where
  host : normalized.headers.getAll hostName = [value]
  resolved : resolveHost origin.scheme value.bytes = some peer
  scheme : ∀ scheme, request.uri.scheme = some scheme → origin.scheme = scheme
  blocking : ∀ tls, (origin.scheme = .https → tls = true) →
    connect tls origin = some (.ok ⟨peer,origin.scheme = .https⟩)
  connector : ∀ tls requireH2, (origin.scheme = .https → tls = true) → ∃ uri, origin.uri = some uri ∧
    connectWithoutTimeout .default tls uri requireH2 = .ok (.direct ⟨peer,origin.scheme = .https⟩)
  target : request.method ≠ .connect → normalized.uri.display.head? = some 47 ∧
    resolveTarget normalized.uri.display = (request.uri.parts.pathText,request.uri.parts.query)
  authority : request.method = .connect →
    request.uri.authority.map Authority.asBytes = some normalized.uri.display

/-- Without a `Host` of the caller, the value that is put in names the peer that both clients
dial, and the target is the path and query of the URI or, to connect, its authority. -/
theorem normalize_agrees (request : Request B) (hdirect : Direct request) (hrooted : Rooted request.uri.parts)
    (hhost : request.headers.containsKey hostName = false) :
    ∃ origin uri normalized value peer,
      extractOrigin request.uri (request.method = .connect) = some (.ok origin,uri) ∧
      normalizeHttp1Request { request with uri } true = some normalized ∧
      Agrees request origin normalized value peer := by
  obtain ⟨origin,uri,horigin,⟨standard,hstandard⟩,hauthority,hscheme⟩ := hdirect.origin
  obtain ⟨huri,huriAuthority⟩ := Normalize.extractOrigin_ok horigin
  obtain ⟨value,target,hvalue,htarget,hnormalize⟩ :=
    @Normalize.normalize_of_origin B uri origin.authority request.method (huri ▸ rfl) huriAuthority
  refine ⟨origin,uri,_,value,⟨bareHost origin.authority.host,origin.authority.portU16.getD standard⟩,horigin,
    hnormalize { request with uri } true rfl rfl,?_⟩
  refine
    { host := ?_
      resolved := hvalue ▸ resolveHost_hostText huri huriAuthority hstandard
      scheme := fun scheme h => (hscheme scheme h).1
      blocking := fun tls htls => (connect_eq hstandard htls).1
      connector := fun tls requireH2 htls => ?_
      target := fun hmethod => ?_
      authority := fun hmethod => ?_ }
  · have hheaders : withHost value request.headers = request.headers.insert hostName value :=
      if_neg fun h => Bool.false_ne_true (hhost.symm.trans h)
    dsimp only
    rw [if_pos rfl,hheaders,HeaderMap.getAll_insert_self]
  · obtain ⟨uri,huri,hconnect⟩ := (connect_eq hstandard htls).2
    exact ⟨uri,huri,hconnect requireH2⟩
  · -- A request that is not to connect has a scheme, so its URI was left as it is.
    have hparts : uri.parts = request.uri.parts := by
      rcases hdirect with h | h | h
      · rw [(hscheme _ h).2]
      · rw [(hscheme _ h).2]
      · exact absurd h.1 hmethod
    dsimp only
    rw [htarget,targetText,if_neg hmethod,hparts]
    exact ⟨hrooted.head,resolveTarget_text _⟩
  · dsimp only
    rw [htarget,targetText,if_pos hmethod,hauthority]
    rfl

/-- The authority `u@[::1]:8443`. -/
def bracketed : Authority := ⟨some [117],[91,58,58,49,93],some [56,52,52,51],by decide,by decide,by decide⟩

/-- A request for `https://u@[::1]:8443/`. -/
def bracketedRequest : Request Unit :=
  ⟨.get,⟨some .https,some bracketed,.slash,fun _ => rfl,fun h => absurd h (Option.some_ne_none _)⟩,.http11,[],()⟩

theorem normalize_agrees_bracketed : ∃ origin uri normalized value peer,
    extractOrigin bracketedRequest.uri (bracketedRequest.method = .connect) = some (.ok origin,uri) ∧
      normalizeHttp1Request { bracketedRequest with uri } true = some normalized ∧
      Agrees bracketedRequest origin normalized value peer :=
  normalize_agrees bracketedRequest (.inr (.inl rfl)) (.inr rfl) rfl

end H12Tiny.Dialling
