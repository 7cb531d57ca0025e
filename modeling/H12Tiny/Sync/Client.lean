import H12Tiny.Foundation.Plans
import H12Tiny.Normalize.Dialling
import H12Tiny.Sync.Delivery
import H12Tiny.Sync.Interim
import H12Tiny.Sync.RoundTrip

/-! # The blocking client

`Client::request_with_timeout` as a whole: the checks of the request, the addresses that
are tried, TLS, the bytes that are written and the response that is read. The environment is
a network that answers every call; what a socket has to read depends on what was written to
it. The acts of a request are its calls and, one by one, the bytes it writes, so that the
errors can be told apart by what had been done when they were raised.
-/
namespace H12Tiny.Sync
open Plan (Program Fits Follows Raises)

structure Client where
  connectTimeout : Option ℕ
  setHost : Bool

/-- What the writes to a stream meet, and what its reads give behind what was written. -/
structure Socket where
  faults : List (Option IoError)
  answers : Bytes → List Event

structure Stream where
  socket : Socket
  readTimeout : Option ℕ
  writeTimeout : Option ℕ

inductive Act (A : Type)
  | resolve (host : Bytes) (port : ℕ)
  | dial (address : A) (timeout : Option ℕ)
  | handshake (serverName : Bytes)
  | write (byte : UInt8)
  deriving DecidableEq

/-- Addresses of type `A`, and errors of type `T` that a TLS session can start with. -/
structure Network (A T : Type) where
  toSocketAddrs : Bytes → ℕ → Except IoError (List A)
  connect : A → Option ℕ → Except IoError Socket
  isServerName : Bytes → Bool
  newSession : Bytes → Except T Unit
  completeIo : Bytes → Socket → Except IoError (Option Bytes × Socket)

/-- An error of the client, also one whose source is not an I/O error. -/
inductive Failure (T : Type)
  | error (error : Error)
  | absoluteUriRequired (source : Normalize.Error)
  | invalidServerName (host : Bytes)
  | session (source : T)
  | unsupportedAlpn (protocol : Bytes)

variable {A T : Type}

def Failure.kind : Failure T → ErrorKind
  | error e => e.kind
  | absoluteUriRequired _ => .absoluteUriRequired
  | invalidServerName _ => .tls
  | session _ => .tls
  | unsupportedAlpn _ => .alpn

/-- `map_err` with `Error::from_io`. -/
def Failure.fromIo (kind : ErrorKind) (error : IoError) : Failure T := .error (.fromIo kind error)

/-- The standard library refuses a zero timeout. -/
def checkTimeout (timeout : Option ℕ) : Except IoError Unit :=
  if timeout = some 0 then .error ⟨.invalidInput,"cannot set a 0 duration timeout"⟩ else .ok ()

def Stream.setTimeouts (self : Stream) (readTimeout writeTimeout : Option ℕ) : Except IoError Stream := do
  checkTimeout readTimeout
  checkTimeout writeTimeout
  return { self with readTimeout := readTimeout, writeTimeout := writeTimeout }

def unresolved : IoError := ⟨.invalidInput,"could not resolve the direct-origin host to a socket address"⟩

/-- The loop of `connect_tcp` over the addresses. -/
def tryAddresses (network : Network A T) (timeout : Option ℕ) :
    Option IoError → List A → Program (Act A) IoError Stream
  | lastError,[] => throw (lastError.getD unresolved)
  | _,address :: addresses => fun acts =>
    match network.connect address timeout with
    | .ok socket => .ok ⟨socket,none,none⟩ (acts ++ [.dial address timeout])
    | .error error => tryAddresses network timeout (some error) addresses (acts ++ [.dial address timeout])

def connectTcp (network : Network A T) (host : Bytes) (port : ℕ) (timeout : Option ℕ) :
    Program (Act A) IoError Stream := do
  let addresses ← Plan.call (.resolve host port) (network.toSocketAddrs host port)
  tryAddresses network timeout none addresses

/-- The writes of a request, on a stream and in the log. -/
def Stream.send (self : Stream) (request : Normalize.Request Bytes) : Program (Act A) (Failure T) Connection :=
  fun acts =>
    match writeRequest request ⟨[],self.socket.faults⟩ with
    | .ok _ out => .ok ⟨self.socket.answers out.written,self.readTimeout⟩ (acts ++ out.written.map .write)
    | .error error out => .error (.error error) (acts ++ out.written.map .write)

/-- The ALPN protocol `http/1.1`. -/
def alpnHttp11 : Bytes := [104,116,116,112,47,49,46,49]

namespace Client
variable (self : Client) (network : Network A T)

/-- The timeouts are those of the connection until the handshake is over, and then none. -/
def connectTls (host : Bytes) (port : ℕ) : Program (Act A) (Failure T) Stream := do
  let stream ← EStateM.adaptExcept (.fromIo .connect) (connectTcp network host port self.connectTimeout)
  let stream ← ofExcept ((stream.setTimeouts self.connectTimeout self.connectTimeout).mapError (.fromIo .tls))
  if network.isServerName host then
    ofExcept ((network.newSession host).mapError .session)
    let (alpnProtocol,socket) ← Plan.call (.handshake host)
      ((network.completeIo host stream.socket).mapError (.fromIo .tls))
    match alpnProtocol with
    | some protocol =>
      if protocol = alpnHttp11 then return ⟨socket,none,none⟩ else throw (.unsupportedAlpn protocol)
    | none => return ⟨socket,none,none⟩
  else throw (.invalidServerName host)

def establish (dial : Dialling.Dial) : Program (Act A) (Failure T) Stream :=
  if dial.secure then self.connectTls network dial.peer.host dial.peer.port
  else EStateM.adaptExcept (.fromIo .connect) (connectTcp network dial.peer.host dial.peer.port self.connectTimeout)

variable {Name Value : Type} [DecidableEq Name] (http : HeaderTypes Name Value)

def exchange (dial : Dialling.Dial) (timeout : Option ℕ) (request : Normalize.Request Bytes) :
    Program (Act A) (Failure T) (Response Name Value) := do
  let stream ← self.establish network dial
  let stream ← ofExcept ((stream.setTimeouts timeout timeout).mapError (.fromIo .sendRequest))
  let connection ← stream.send request
  ofExcept ((readResponse http (request.method = .head) connection).mapError .error)

def requestWithTimeout (tls : Bool) (request : Normalize.Request Bytes) (timeout : Option ℕ) :
    Option (Program (Act A) (Failure T) (Response Name Value)) :=
  if timeout = some 0 then some (throw (.error (.new .timeout)))
  else if request.version ≠ .http10 ∧ request.version ≠ .http11 then
    some (throw (.error (.new .unsupportedVersion)))
  else
    (Normalize.extractOrigin request.uri (request.method = .connect)).bind fun (result,uri) =>
      match result with
      | .error error => some (throw (.absoluteUriRequired error))
      | .ok origin =>
        (Normalize.normalizeHttp1Request { request with uri } self.setHost).bind fun request =>
          (Dialling.connect tls origin).map fun
            | .error error => throw (.error error)
            | .ok dial => self.exchange network http dial timeout request

end Client

section Connecting
variable (network : Network A T) (timeout : Option ℕ)

def fails (address : A) : Bool :=
  match network.connect address timeout with
  | .ok _ => false
  | .error _ => true

/-- The addresses up to the first one that takes a connection. -/
def tried (addresses : List A) : List A :=
  addresses.takeWhile (fails network timeout) ++ (addresses.dropWhile (fails network timeout)).head?.toList

/-- The stream is a fresh one to the first address that takes a connection. -/
def First (addresses : List A) (stream : Stream) : Prop :=
  ∃ address socket, (addresses.dropWhile (fails network timeout)).head? = some address ∧
    network.connect address timeout = .ok socket ∧ stream = ⟨socket,none,none⟩

/-- No address takes a connection, and the last one gave the error. -/
def Last (addresses : List A) (error : IoError) : Prop :=
  (addresses = [] ∧ error = unresolved) ∨
    ∃ address, addresses.getLast? = some address ∧ network.connect address timeout = .error error

variable {network timeout}

theorem tried_next {address : A} {error : IoError} (h : network.connect address timeout = .error error)
    (addresses : List A) :
    tried network timeout (address :: addresses) = address :: tried network timeout addresses ∧
      (First network timeout (address :: addresses) = First network timeout addresses) := by
  have hfails : fails network timeout address = true := by
    unfold fails
    rw [h]
  unfold tried First
  rw [List.takeWhile_cons_of_pos hfails,List.dropWhile_cons_of_pos hfails]
  exact ⟨rfl,rfl⟩

theorem tried_taken {address : A} {socket : Socket} (h : network.connect address timeout = .ok socket)
    (addresses : List A) :
    tried network timeout (address :: addresses) = [address] ∧
      First network timeout (address :: addresses) ⟨socket,none,none⟩ := by
  have hfails : ¬ fails network timeout address = true := by
    unfold fails
    rw [h]
    exact Bool.false_ne_true
  unfold tried First
  rw [List.takeWhile_cons_of_neg hfails,List.dropWhile_cons_of_neg hfails]
  exact ⟨rfl,address,socket,rfl,h,rfl⟩

theorem last_cons {address : A} {error : IoError} (h : network.connect address timeout = .error error)
    {addresses : List A} {e : IoError}
    (hlast : (addresses = [] ∧ e = error) ∨ Last network timeout addresses e ∧ addresses ≠ []) :
    Last network timeout (address :: addresses) e := by
  rcases hlast with ⟨rfl,rfl⟩ | ⟨⟨rfl,_⟩ | ⟨last,hlast,he⟩,hne⟩
  · exact .inr ⟨address,rfl,h⟩
  · exact absurd rfl hne
  · exact .inr ⟨last,by rw [List.getLast?_cons_of_ne_nil hne,hlast],he⟩

theorem tryAddresses_follows (lastError : Option IoError) (addresses : List A) :
    Follows id ((tried network timeout addresses).map (Act.dial · timeout)) (First network timeout addresses)
      (fun made e => made = addresses.map (Act.dial · timeout) ∧
        ((addresses = [] ∧ e = lastError.getD unresolved) ∨ Last network timeout addresses e ∧ addresses ≠ []))
      (tryAddresses network timeout lastError addresses) := by
  induction addresses generalizing lastError with
  | nil => exact Follows.throw ⟨rfl,.inl ⟨rfl,rfl⟩⟩
  | cons address addresses ih =>
    cases hconnect : network.connect address timeout with
    | ok socket =>
      obtain ⟨htried,hfirst⟩ := tried_taken hconnect addresses
      intro acts
      rw [htried,tryAddresses,hconnect]
      exact ⟨rfl,hfirst⟩
    | error error =>
      obtain ⟨htried,hfirst⟩ := tried_next hconnect addresses
      have hnext : tryAddresses network timeout lastError (address :: addresses) =
          Plan.call (Act.dial address timeout) (.ok ()) >>= fun _ =>
            tryAddresses network timeout (some error) addresses := by
        funext acts
        rw [tryAddresses,hconnect]
        rfl
      rw [hnext,htried,hfirst]
      refine Follows.bind [Act.dial address timeout] _ (P := fun _ => True)
        (Plan.call_follows (fun _ _ => trivial) (fun _ he => by cases he)) fun _ _ => ?_
      refine (ih (some error)).weaken (fun _ h => h) ?_
      rintro made e _ ⟨rfl,hlast⟩
      exact ⟨rfl,.inr ⟨last_cons hconnect hlast,List.cons_ne_nil _ _⟩⟩

def Network.addresses (network : Network A T) (host : Bytes) (port : ℕ) : List A :=
  match network.toSocketAddrs host port with
  | .ok addresses => addresses
  | .error _ => []

theorem connectTcp_follows (host : Bytes) (port : ℕ) :
    Follows id (.resolve host port :: (tried network timeout (network.addresses host port)).map (Act.dial · timeout))
      (First network timeout (network.addresses host port))
      (fun made e => network.toSocketAddrs host port = .error e ∨
        made = .resolve host port :: (network.addresses host port).map (Act.dial · timeout) ∧
          Last network timeout (network.addresses host port) e)
      (connectTcp network host port timeout) := by
  refine Follows.bind [Act.resolve host port] _ (P := fun addresses => addresses = network.addresses host port) ?_ ?_
  · refine Plan.call_follows (fun addresses h => ?_) fun e h => .inl h
    rw [Network.addresses,h]
  · rintro _ rfl
    refine (tryAddresses_follows none _).weaken (fun _ h => h) ?_
    rintro made e _ ⟨rfl,hempty | ⟨hlast,_⟩⟩
    · exact .inr ⟨rfl,.inl hempty⟩
    · exact .inr ⟨rfl,hlast⟩

end Connecting

/-- The kinds of an error while the connection is established. -/
def establishing : List ErrorKind := [.connect,.tls,.alpn,.timeout]

theorem setTimeouts_socket {stream stream' : Stream} {readTimeout writeTimeout : Option ℕ}
    (h : stream.setTimeouts readTimeout writeTimeout = .ok stream') : stream'.socket = stream.socket := by
  unfold Stream.setTimeouts checkTimeout at h
  split at h
  · cases h
  · split at h
    · cases h
    · cases h
      rfl

namespace Client
variable (self : Client) (network : Network A T)

def plan (dial : Dialling.Dial) : List (Act A) :=
  .resolve dial.peer.host dial.peer.port ::
    (tried network self.connectTimeout (network.addresses dial.peer.host dial.peer.port)).map
      (Act.dial · self.connectTimeout) ++
    if dial.secure then [.handshake dial.peer.host] else []

/-- The stream goes to the first address that takes a connection. With TLS it is the one
behind a handshake for the host, in which the peer chose HTTP/1.1 or nothing. -/
def Opened (dial : Dialling.Dial) (stream : Stream) : Prop :=
  ∃ first, First network self.connectTimeout (network.addresses dial.peer.host dial.peer.port) first ∧
    if dial.secure then
      ∃ alpnProtocol socket, network.isServerName dial.peer.host = true ∧
        network.completeIo dial.peer.host first.socket = .ok (alpnProtocol,socket) ∧
        (alpnProtocol = none ∨ alpnProtocol = some alpnHttp11) ∧ stream = ⟨socket,none,none⟩
    else stream = first

theorem connectTls_follows (host : Bytes) (port : ℕ) :
    Follows id (self.plan network ⟨⟨host,port⟩,true⟩) (self.Opened network ⟨⟨host,port⟩,true⟩)
      (fun _ (failure : Failure T) => failure.kind ∈ establishing) (self.connectTls network host port) := by
  have htls : ErrorKind.tls ∈ establishing := by decide
  have halpn : ErrorKind.alpn ∈ establishing := by decide
  have htcp : Follows id _ (First network self.connectTimeout (network.addresses host port))
      (fun _ (failure : Failure T) => failure.kind ∈ establishing)
      (EStateM.adaptExcept (Failure.fromIo (T := T) .connect) (connectTcp network host port self.connectTimeout)) :=
    Follows.adaptExcept ((connectTcp_follows host port).weaken (fun _ h => h)
      fun _ e _ _ => fromIo_mem (by decide) (by decide) e)
  refine Follows.bind _ [Act.handshake host] htcp fun first hfirst => ?_
  have htimeouts : Follows id ([] : List (Act A)) (fun stream : Stream => stream.socket = first.socket)
      (fun _ (failure : Failure T) => failure.kind ∈ establishing)
      (ofExcept ((first.setTimeouts self.connectTimeout self.connectTimeout).mapError
        (Failure.fromIo (T := T) .tls))) :=
    Follows.ofMapped (fun _ h => setTimeouts_socket h) fun e _ => fromIo_mem (by decide) (by decide) e
  refine Follows.bind [] [Act.handshake host] htimeouts fun stream hstream => ?_
  split
  next hname =>
    have hsession : Follows id ([] : List (Act A)) (fun _ => True)
        (fun _ (failure : Failure T) => failure.kind ∈ establishing)
        (ofExcept ((network.newSession host).mapError Failure.session)) :=
      Follows.ofMapped (fun _ _ => trivial) fun _ _ => htls
    refine Follows.bind [] [Act.handshake host] hsession fun _ _ => ?_
    refine Follows.bind [Act.handshake host] [] (P := fun answer =>
      network.completeIo host first.socket = .ok answer) ?_ ?_
    · exact Plan.call_mapped (fun _ h => hstream ▸ h) fun e _ => fromIo_mem (by decide) (by decide) e
    · rintro ⟨alpnProtocol,socket⟩ hanswer
      cases alpnProtocol with
      | none => exact Follows.pure ⟨first,hfirst,none,socket,hname,hanswer,.inl rfl,rfl⟩
      | some protocol =>
        simp only []
        split
        next hprotocol =>
          subst hprotocol
          exact Follows.pure ⟨first,hfirst,some alpnHttp11,socket,hname,hanswer,.inr rfl,rfl⟩
        next => exact Follows.throw halpn
  next => exact Follows.throw htls

theorem establish_follows (dial : Dialling.Dial) :
    Follows id (self.plan network dial) (self.Opened network dial)
      (fun _ (failure : Failure T) => failure.kind ∈ establishing)
      (self.establish network dial) := by
  obtain ⟨⟨host,port⟩,secure⟩ := dial
  cases secure with
  | true => exact self.connectTls_follows network host port
  | false =>
    unfold plan
    rw [if_neg Bool.false_ne_true,List.append_nil]
    exact Follows.adaptExcept ((connectTcp_follows host port).weaken (fun stream h => ⟨stream,h,rfl⟩)
      fun _ e _ _ => fromIo_mem (by decide) (by decide) e)

end Client

section Sending

theorem send_follows (stream : Stream) (request : Normalize.Request Bytes) :
    Follows id ((requestText request).map Act.write)
      (fun connection => connection = ⟨stream.socket.answers (requestText request),stream.readTimeout⟩)
      (fun _ (failure : Failure T) => failure.kind ∈ sendKinds) (stream.send (A := A) request) := by
  intro acts
  have hfits := (writes_writeRequest request).follows ⟨[],stream.socket.faults⟩
  unfold Stream.send
  generalize writeRequest request ⟨[],stream.socket.faults⟩ = result at hfits
  cases result with
  | ok _ out =>
    have hwritten : out.written = requestText request := hfits.1
    simp only [hwritten]
    exact ⟨rfl,rfl⟩
  | error error out =>
    obtain ⟨made,hmade,hwritten,hkind⟩ := hfits
    have hwritten' : out.written = made := hwritten
    exact ⟨made.map Act.write,hmade.map _,by rw [← hwritten']; rfl,hkind⟩

end Sending

section Reading

def responseKinds : List ErrorKind := [.response,.unsupportedUpgrade,.timeout]

abbrev Responds {α : Type} (x : Except Error α) : Prop := Raises (fun error => error.kind ∈ responseKinds) x

theorem responseError_kind (message : String) : (responseError message).kind ∈ responseKinds :=
  List.mem_cons_self

theorem responds_error {α : Type} (message : String) : Responds (.error (responseError message) : Except Error α) :=
  Raises.error (responseError_kind message)

theorem stripLineCrlf_responds (line : Bytes) : Responds (stripLineCrlf line) := by
  unfold stripLineCrlf
  generalize (if line.getLast? = some cr then line.dropLast else line) = stripped
  simp only []
  split
  · exact responds_error _
  · exact Raises.ok

theorem parseVersion_responds (field : Option Bytes) : Responds (parseVersion field) := by
  unfold parseVersion
  split
  · exact Raises.ok
  · split
    · exact Raises.ok
    · exact responds_error _

theorem parseStatus_responds (field : Option Bytes) : Responds (parseStatus field) := by
  unfold parseStatus
  split
  · exact responds_error _
  · split
    · exact Raises.ok
    · exact responds_error _

theorem parseStatusLine_responds (line : Bytes) : Responds (parseStatusLine line) := by
  refine Raises.bind (stripLineCrlf_responds line) fun line => ?_
  split
  · exact Raises.bind (parseVersion_responds _) fun _ => Raises.bind (parseStatus_responds _) fun _ => Raises.ok
  · exact responds_error _

variable {Name Value : Type} (http : HeaderTypes Name Value)

theorem parseField_responds (line : Bytes) : Responds (parseField http line) := by
  refine Raises.bind (stripLineCrlf_responds line) fun line => ?_
  split
  · exact responds_error _
  · split
    · exact responds_error _
    · split
      · exact responds_error _
      · split
        · exact responds_error _
        · exact Raises.ok

theorem parseFields_responds (lines : List Bytes) : Responds (parseFields http lines) := by
  refine Raises.foldlM (fun headers line => ?_) lines []
  have hfield := parseField_responds http line
  generalize parseField http line = field at hfield
  cases field with
  | ok field => exact Raises.ok
  | error e => exact Raises.error (hfield e rfl)

theorem parseResponseHead_responds (head : Bytes) : Responds (parseResponseHead http head) := by
  unfold parseResponseHead
  split
  · exact responds_error _
  · exact Raises.bind (parseStatusLine_responds _) fun _ => Raises.bind (parseFields_responds http _) fun _ => Raises.ok

theorem parseContentLength_responds (value : Bytes) : Responds (parseContentLength value) := by
  unfold parseContentLength
  split
  · split
    · exact Raises.ok
    · exact responds_error _
  · exact responds_error _

theorem mergeContentLength_responds (contentLength : Option ℕ) (value : Value) :
    Responds (mergeContentLength http contentLength value) := by
  refine Raises.bind (parseContentLength_responds _) fun length => ?_
  split
  · split
    · exact responds_error _
    · exact Raises.ok
  · exact Raises.ok

variable [DecidableEq Name]

theorem responseBodyMode_responds (headers : HeaderMap Name Value) (status : StatusCode) (headRequest : Bool) :
    Responds (responseBodyMode http headers status headRequest) := by
  unfold responseBodyMode
  split
  · exact Raises.ok
  · split
    · split
      · exact responds_error _
      · exact Raises.ok
    · refine Raises.bind (Raises.foldlM (mergeContentLength_responds http) _ none) fun length => ?_
      split
      · exact Raises.ok
      · exact Raises.ok

theorem acceptHead_responds (headRequest : Bool) (head : Bytes) : Responds (acceptHead http headRequest head) := by
  refine Raises.bind (parseResponseHead_responds http head) fun head => ?_
  split
  · exact Raises.ok
  · split
    · exact Raises.error (by decide)
    · exact Raises.bind (responseBodyMode_responds http _ _ _) fun _ => Raises.ok

theorem takeResponseHead_responds {inbound inbound' : Inbound} {error : Error}
    (h : takeResponseHead inbound = .error error inbound') : error.kind ∈ responseKinds := by
  unfold takeResponseHead takeUntil at h
  simp only [bind,EStateM.bind] at h
  split at h
  next => cases h
  next hread =>
    cases h
    unfold readUntil at hread
    obtain ⟨_,s,hbody⟩ := Plan.loopM_error _ hread
    unfold readUntilBody at hbody
    split at hbody
    · cases hbody
    · split at hbody
      · cases hbody
        exact responseError_kind _
      · split at hbody
        · cases hbody
          exact fromIo_mem (by decide) (by decide) _
        · split at hbody
          · cases hbody
            exact responseError_kind _
          · cases hbody

theorem readResponse_responds (headRequest : Bool) (connection : Connection) :
    Responds (readResponse http headRequest connection) := by
  intro error h
  delta readResponse at h
  split at h
  next => cases h
  next e inbound hloop =>
    cases h
    obtain ⟨_,s,hbody⟩ := Plan.loopM_error _ hloop
    unfold readResponseBody at hbody
    simp only [bind,EStateM.bind] at hbody
    split at hbody
    next head s' _ =>
      have haccept := acceptHead_responds http headRequest head
      generalize acceptHead http headRequest head = result at haccept hbody
      cases result with
      | ok _ => cases hbody
      | error e =>
        cases hbody
        exact haccept _ rfl
    next hhead =>
      cases hbody
      exact takeResponseHead_responds hhead

end Reading

namespace Client
variable {Name Value : Type} [DecidableEq Name] (http : HeaderTypes Name Value) (self : Client) (network : Network A T)
  (dial : Dialling.Dial) (timeout : Option ℕ) (request : Normalize.Request Bytes)

def wholePlan : List (Act A) := self.plan network dial ++ (requestText request).map .write

/-- The response was read, with the timeout of the request, from a connection that was opened
for the dial and has got the whole text of the request. -/
def Answered (response : Response Name Value) : Prop :=
  ∃ stream, self.Opened network dial stream ∧
    readResponse http (request.method = .head) ⟨stream.socket.answers (requestText request),timeout⟩ = .ok response

/-- What the kind of an error says about the acts so far: an error of the connection comes
before the first byte, and one of the response behind the last. -/
def Accounts (made : List (Act A)) (kind : ErrorKind) : Prop :=
  (kind ∈ [ErrorKind.connect,.tls,.alpn] ∧ ∀ byte, Act.write byte ∉ made) ∨
    (kind = .sendRequest ∧ self.plan network dial <+: made) ∨
    (kind ∈ [ErrorKind.response,.unsupportedUpgrade] ∧ made = self.wholePlan network dial request) ∨
    kind = .timeout

theorem write_not_mem_plan (byte : UInt8) : Act.write byte ∉ self.plan network dial := by
  unfold plan
  intro h
  rcases List.mem_append.mp h with h | h
  · rcases List.mem_cons.mp h with h | h
    · cases h
    · obtain ⟨_,_,h⟩ := List.mem_map.mp h
      cases h
  · split at h
    · cases List.mem_singleton.mp h
    · cases h

theorem setTimeouts_ok {stream : Stream} (htimeout : timeout ≠ some 0) :
    stream.setTimeouts timeout timeout = .ok ⟨stream.socket,timeout,timeout⟩ := by
  unfold Stream.setTimeouts checkTimeout
  rw [if_neg htimeout]
  rfl

section Accounts
variable {self network dial request} {made : List (Act A)} {kind : ErrorKind}

theorem accounts_establishing (hmade : made <+: self.plan network dial) (h : kind ∈ establishing) :
    self.Accounts network dial request made kind := by
  have hcases : kind ∈ [ErrorKind.connect,.tls,.alpn] ∨ kind = .timeout := by simpa [establishing,or_assoc] using h
  rcases hcases with hkind | hkind
  · exact .inl ⟨hkind,fun byte hbyte => self.write_not_mem_plan network dial byte (hmade.subset hbyte)⟩
  · exact .inr (.inr (.inr hkind))

theorem accounts_send (h : kind ∈ sendKinds) :
    self.Accounts network dial request (self.plan network dial ++ made) kind := by
  have hcases : kind = .sendRequest ∨ kind = .timeout := by simpa [sendKinds] using h
  rcases hcases with hkind | hkind
  · exact .inr (.inl ⟨hkind,List.prefix_append _ _⟩)
  · exact .inr (.inr (.inr hkind))

theorem accounts_response (hmade : made = self.wholePlan network dial request) (h : kind ∈ responseKinds) :
    self.Accounts network dial request made kind := by
  have hcases : kind ∈ [ErrorKind.response,.unsupportedUpgrade] ∨ kind = .timeout := by
    simpa [responseKinds,or_assoc] using h
  rcases hcases with hkind | hkind
  · exact .inr (.inr (.inl ⟨hkind,hmade⟩))
  · exact .inr (.inr (.inr hkind))

end Accounts

theorem exchange_follows (htimeout : timeout ≠ some 0) :
    Follows id (self.wholePlan network dial request) (self.Answered http network dial timeout request)
      (fun made failure => self.Accounts network dial request made failure.kind)
      (self.exchange network http dial timeout request) := by
  have hopen : Follows id (self.plan network dial) (self.Opened network dial)
      (fun made (failure : Failure T) => self.Accounts network dial request made failure.kind)
      (self.establish network dial) :=
    (self.establish_follows network dial).weaken (fun _ h => h) fun _ _ => accounts_establishing
  refine Follows.bind _ _ hopen fun stream hstream => ?_
  refine Follows.bind [] _ (P := fun timed => timed = ⟨stream.socket,timeout,timeout⟩) (Follows.ofMapped ?_ ?_) ?_
  · intro timed h
    cases (setTimeouts_ok timeout htimeout).symm.trans h
    rfl
  · intro e h
    cases (setTimeouts_ok timeout htimeout).symm.trans h
  rintro _ rfl
  have hsend : Follows id ((requestText request).map Act.write)
      (fun connection => connection = ⟨stream.socket.answers (requestText request),timeout⟩)
      (fun made (failure : Failure T) => self.Accounts network dial request (self.plan network dial ++ made)
        failure.kind) (Stream.send ⟨stream.socket,timeout,timeout⟩ request) :=
    (send_follows ⟨stream.socket,timeout,timeout⟩ request).weaken (fun _ h => h) fun _ _ _ => accounts_send
  have hread : Follows id ([] : List (Act A)) (self.Answered http network dial timeout request)
      (fun made (failure : Failure T) => self.Accounts network dial request
        (self.plan network dial ++ ((requestText request).map Act.write ++ made)) failure.kind)
      (ofExcept ((readResponse http (request.method = .head)
        ⟨stream.socket.answers (requestText request),timeout⟩).mapError Failure.error)) := by
    refine Follows.ofMapped (fun response h => ⟨stream,hstream,h⟩) fun error h => ?_
    refine accounts_response ?_ (readResponse_responds http _ _ error h)
    rw [List.append_nil]
    rfl
  have hrest := hsend.bind _ [] fun connection hconnection => hconnection ▸ hread
  rw [List.append_nil] at hrest
  exact hrest

end Client

/-- What is refused without a call, and the kind of the error. -/
inductive Refused (tls : Bool) (request : Normalize.Request Bytes) (timeout : Option ℕ) : ErrorKind → Prop
  | timeout (h : timeout = some 0) : Refused tls request timeout .timeout
  | version (h : request.version ≠ .http10 ∧ request.version ≠ .http11) :
      Refused tls request timeout .unsupportedVersion
  | uri {error : Normalize.Error} {uri : Uri}
      (h : Normalize.extractOrigin request.uri (request.method = .connect) = some (.error error,uri)) :
      Refused tls request timeout .absoluteUriRequired
  | scheme {origin : Normalize.Origin} {uri : Uri} {text : Bytes}
      (h : Normalize.extractOrigin request.uri (request.method = .connect) = some (.ok origin,uri))
      (hscheme : origin.scheme = .other text) : Refused tls request timeout .unsupportedScheme
  | tls {origin : Normalize.Origin} {uri : Uri}
      (h : Normalize.extractOrigin request.uri (request.method = .connect) = some (.ok origin,uri))
      (hscheme : origin.scheme = .https) (htls : tls = false) : Refused tls request timeout .tlsUnavailable

theorem connect_cases (tls : Bool) (origin : Normalize.Origin) :
    (∃ dial, Dialling.connect tls origin = some (.ok dial) ∧ (∀ text, origin.scheme ≠ .other text) ∧
        (origin.scheme = .https → tls = true)) ∨
      ∃ error, Dialling.connect tls origin = some (.error error) ∧
        ((∃ text, origin.scheme = .other text ∧ error.kind = .unsupportedScheme) ∨
          origin.scheme = .https ∧ tls = false ∧ error.kind = .tlsUnavailable) := by
  obtain ⟨scheme,authority⟩ := origin
  cases scheme with
  | http => exact .inl ⟨_,rfl,nofun,nofun⟩
  | https =>
    cases tls with
    | true => exact .inl ⟨_,rfl,nofun,fun _ => rfl⟩
    | false => exact .inr ⟨_,rfl,.inr ⟨rfl,rfl,rfl⟩⟩
  | other text => exact .inr ⟨_,rfl,.inl ⟨text,rfl,rfl⟩⟩

section Refusals
variable {tls : Bool} {request : Normalize.Request Bytes} {timeout : Option ℕ} {origin : Normalize.Origin} {uri : Uri}

theorem refused_of_connect {error : Error}
    (hextract : Normalize.extractOrigin request.uri (request.method = .connect) = some (.ok origin,uri))
    (hdial : Dialling.connect tls origin = some (.error error)) : Refused tls request timeout error.kind := by
  rcases connect_cases tls origin with ⟨dial,hok,-,-⟩ | ⟨error',herror,hkind⟩
  · cases hok.symm.trans hdial
  · cases herror.symm.trans hdial
    rcases hkind with ⟨text,hother,hkind⟩ | ⟨hhttps,hfalse,hkind⟩
    · rw [hkind]
      exact .scheme hextract hother
    · rw [hkind]
      exact .tls hextract hhttps hfalse

theorem not_refused {dial : Dialling.Dial} (htimeout : timeout ≠ some 0)
    (hversion : ¬ (request.version ≠ .http10 ∧ request.version ≠ .http11))
    (hextract : Normalize.extractOrigin request.uri (request.method = .connect) = some (.ok origin,uri))
    (hdial : Dialling.connect tls origin = some (.ok dial)) (kind : ErrorKind) :
    ¬ Refused tls request timeout kind := by
  rcases connect_cases tls origin with ⟨_,-,hother,htls⟩ | ⟨error,herror,-⟩
  · intro hrefused
    cases hrefused with
    | timeout h => exact htimeout h
    | version h => exact hversion h
    | uri h => cases hextract.symm.trans h
    | scheme h hscheme =>
      cases hextract.symm.trans h
      exact hother _ hscheme
    | tls h hscheme hfalse =>
      cases hextract.symm.trans h
      cases hfalse.symm.trans (htls hscheme)
  · cases herror.symm.trans hdial

end Refusals

theorem extractOrigin_cases (uri : Uri) (isConnect : Bool) :
    (∃ origin uri', Normalize.extractOrigin uri isConnect = some (.ok origin,uri')) ∨
      ∃ error uri', Normalize.extractOrigin uri isConnect = some (.error error,uri') := by
  by_cases hdirect : uri.scheme.isSome ∨ (isConnect = true ∧ uri.authority.isSome)
  · exact .inl (Normalize.extractOrigin_exists hdirect)
  · obtain ⟨hscheme,hconnect⟩ := not_or.mp hdirect
    unfold Normalize.extractOrigin
    rw [Option.not_isSome_iff_eq_none.mp hscheme]
    cases hauthority : uri.authority with
    | none => exact .inr ⟨_,_,rfl⟩
    | some authority =>
      rw [hauthority] at hconnect
      exact .inr ⟨_,_,if_neg fun h => hconnect ⟨h,rfl⟩⟩

end H12Tiny.Sync
