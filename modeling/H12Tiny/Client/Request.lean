import H12Tiny.Pool.System

/-! # Requests of the client

Any number of concurrent calls of `connection_for` over one enabled pool. A call
races a checkout against its own `connect_to`; between two suspension points it
runs critical sections of the pool, and each of those is one step here, so the
steps of different requests interleave freely. The connector and the protocol
handshake are outside the client: their outcomes are parts of the steps.
-/
namespace H12Tiny.Client
open Pool

inductive ErrorKind
  | canceled
  | unsupportedScheme
  | connect
  | tls
  | alpn
  | handshake
  | sendRequest
  | unsupportedMethod
  | unsupportedVersion
  | absoluteUriRequired
  | protocolUnavailable
  deriving DecidableEq, Repr

/-- The connector's errors, without their payloads. -/
inductive ConnectorError
  | unsupportedScheme
  | unexpectedAlpn
  | requiredHttp2NotNegotiated
  | invalidServerName
  | tls
  | missingHost
  | connect
  | resolve
  | custom
  | timeout
  deriving DecidableEq, Repr

def ConnectorError.clientErrorKind : ConnectorError → ErrorKind
  | .unsupportedScheme => .unsupportedScheme
  | .unexpectedAlpn | .requiredHttp2NotNegotiated => .alpn
  | .invalidServerName | .tls => .tls
  | .missingHost | .connect | .resolve | .custom | .timeout => .connect

inductive ErrorSource
  | connector (error : ConnectorError)
  | handshake
  | checkout (error : CheckoutError)
  deriving DecidableEq, Repr

structure Error where
  kind : ErrorKind
  source : Option ErrorSource
  deriving DecidableEq, Repr

inductive ConnectionProtocol
  | http1
  | http2
  deriving DecidableEq, Repr

def poolClient (protocol : ConnectionProtocol) (connection : ℕ) : PoolClient :=
  match protocol with
  | .http1 => ⟨.http1 connection⟩
  | .http2 => ⟨.http2 connection⟩

/-- Where `connect_to` stands, with the guard it holds. `converting` is inside
`alpn_h2`, between its two critical sections. -/
inductive Connect
  | dialing (guard : ℕ)
  | converting (guard : ℕ)
  | handshaking (guard : ℕ) (protocol : ConnectionProtocol)

def Connect.guard : Connect → ℕ
  | .dialing g => g
  | .converting g => g
  | .handshaking g _ => g

/-- The future is suspended at an await, so its request can be polled or dropped. -/
def Connect.suspended : Connect → Bool
  | .converting _ => false
  | _ => true

inductive Next
  | result (result : Except Error ℕ)
  | retry
  | cancelled

/-- `fresh` has not polled its select yet; `registered` is inside the first poll,
after the checkout and before `connect_to`; `racing` is suspended in the select,
`connecting` in `connect.await` and `waiting` in `checkout.await`. A request that
is `leaving` drops what its attempt still holds. -/
inductive Phase
  | fresh (checkout : ℕ)
  | registered (checkout : ℕ)
  | racing (checkout : ℕ) (connect : Connect)
  | connecting (checkout : ℕ) (connect : Connect)
  | waiting (checkout : ℕ)
  | leaving (checkout guard : Option ℕ) (next : Next)
  | done (result : Except Error ℕ)
  | returned
  | cancelled

/-- `failed` is not in the source: it records the failure of the request's own
dial, protocol selection or handshake. -/
structure Request (K : Type*) where
  key : K
  phase : Phase
  failed : Option Error

namespace Phase

def establishing : Phase → Option (ℕ × Connect)
  | .racing c connect => some (c,connect)
  | .connecting c connect => some (c,connect)
  | _ => none

def resume (connect : Connect) : Phase → Phase
  | .racing c _ => .racing c connect
  | .connecting c _ => .connecting c connect
  | phase => phase

def refused : Phase → Phase
  | .registered c => .waiting c
  | .racing c _ => .waiting c
  | .connecting c _ => .leaving (some c) none (.result (.error ⟨.canceled,none⟩))
  | phase => phase

def selected (c : ℕ) (connect : Connect) : Poll (Option (Except CheckoutError ℕ)) → Phase
  | .ready (some (.ok p)) => .leaving (some c) (some connect.guard) (.result (.ok p))
  | .ready (some (.error error)) =>
    if error.isCancellation then .connecting c connect
    else .leaving (some c) (some connect.guard) (.result (.error ⟨.connect,some (.checkout error)⟩))
  | _ => .racing c connect

def awaited (c : ℕ) : Poll (Option (Except CheckoutError ℕ)) → Phase
  | .ready (some (.ok p)) => .leaving (some c) none (.result (.ok p))
  | .ready (some (.error .closedValue)) => .leaving (some c) none .retry
  | .ready (some (.error .noLongerWanted)) => .leaving (some c) none .retry
  | .ready (some (.error .poolDisabled)) =>
    .leaving (some c) none (.result (.error ⟨.connect,some (.checkout .poolDisabled)⟩))
  | _ => .waiting c

end Phase

structure State (K : Type*) where
  protocol : Protocol
  retryCanceledRequests : Bool
  world : World PoolClient K
  requests : Table (Request K)

variable {K : Type*} [DecidableEq K]

def State.new (config : Config) (protocol : Protocol) (retry timer : Bool) : Option (State K) :=
  (World.new config timer).map fun world => ⟨protocol,retry,world,.empty⟩

namespace State

def update (s : State K) (r : ℕ) (world : World PoolClient K) (phase : Phase) : State K :=
  { s with
    world := world
    requests := s.requests.modify r (fun request => { request with phase := phase }) }

/-- The request's own establishment failed, never with an error of kind `Canceled`;
the guard is dropped on the way out of `connect_to` and the checkout after it. -/
def fail (s : State K) (r c g : ℕ) (error : Error) : State K :=
  { s with
    requests := s.requests.modify r (fun request =>
      { request with
        phase := .leaving (some c) (some g) (.result (.error error))
        failed := some error }) }

/-- The waiter's request is dropping its checkout, so the receiver can vanish at
any moment. -/
def isLeaving (s : State K) (i : ℕ) : Bool :=
  (List.range s.requests.next).any fun r =>
    match s.requests.get r with
    | some ⟨_,.leaving (some c) _ _,_⟩ =>
      (s.world.checkouts.get c).any (fun checkout => decide (checkout.waiter = some i))
    | _ => false

def request (s : State K) (key : K) : State K :=
  let r := s.world.newCheckout key
  { s with world := r.2, requests := s.requests.alloc ⟨key,.fresh r.1,none⟩ }

def pollWaiter (s : State K) (r : ℕ) : Option (State K) :=
  (s.requests.get r).bind fun request =>
    match request.phase with
    | .racing c connect =>
      if connect.suspended then
        (s.world.pollWaiter c).map fun (polled,world) =>
          s.update r world (Phase.selected c connect polled)
      else none
    | .waiting c =>
      (s.world.pollWaiter c).map fun (polled,world) => s.update r world (Phase.awaited c polled)
    | _ => none

def pollCheckout (s : State K) (r : ℕ) : Option (State K) :=
  (s.requests.get r).bind fun request =>
    match request.phase with
    | .fresh c =>
      (s.world.checkout c).map fun (found,world) =>
        match found with
        | some p => s.update r world (.leaving (some c) none (.result (.ok p)))
        | none => s.update r world (.registered c)
    | .racing c connect =>
      if connect.suspended then
        (s.world.checkout c).map fun (found,world) =>
          match found with
          | some p => s.update r world (.leaving (some c) (some connect.guard) (.result (.ok p)))
          | none => s.update r world (.racing c connect)
      else none
    | .waiting c =>
      (s.world.checkout c).map fun (found,world) =>
        match found with
        | some p => s.update r world (.leaving (some c) none (.result (.ok p)))
        | none => s.update r world (.waiting c)
    | _ => none

def connect (s : State K) (r : ℕ) : Option (State K) :=
  (s.requests.get r).bind fun request =>
    match request.phase with
    | .registered c =>
      let reserved := s.world.connecting request.key s.protocol
      match reserved.1 with
      | some g => some (s.update r reserved.2 (.racing c (.dialing g)))
      | none => some (s.update r reserved.2 request.phase.refused)
    | _ => none

/-- The connector returns a connection with the protocol that it declares. -/
def dialed (s : State K) (r : ℕ) (outcome : Except ConnectorError ConnectionProtocol) :
    Option (State K) :=
  (s.requests.get r).bind fun request =>
    match request.phase.establishing with
    | some (c,.dialing g) =>
      match outcome with
      | .error error => some (s.fail r c g ⟨error.clientErrorKind,some (.connector error)⟩)
      | .ok .http2 =>
        match s.protocol with
        | .http2 => some (s.update r s.world (request.phase.resume (.handshaking g .http2)))
        | .http1 => some (s.fail r c g ⟨.alpn,none⟩)
        | .auto =>
          (s.world.alpnRelease g).map fun world =>
            s.update r world (request.phase.resume (.converting g))
      | .ok .http1 => some (s.update r s.world (request.phase.resume (.handshaking g .http1)))
    | _ => none

def alpnMark (s : State K) (r : ℕ) : Option (State K) :=
  (s.requests.get r).bind fun request =>
    match request.phase.establishing with
    | some (_,.converting g) =>
      (s.world.alpnMark g).map fun (won,world) =>
        if won then s.update r world (request.phase.resume (.handshaking g .http2))
        else s.update r world request.phase.refused
    | _ => none

/-- The handshake fails, or the numbered connection is ready and is pooled. -/
def handshaken (s : State K) (r : ℕ) (outcome : Option ℕ) (vanish : ℕ → Bool) : Option (State K) :=
  (s.requests.get r).bind fun request =>
    match request.phase.establishing with
    | some (c,.handshaking g protocol) =>
      match outcome with
      | none => some (s.fail r c g ⟨.handshake,some .handshake⟩)
      | some connection =>
        (s.world.makePooled g (poolClient protocol connection)
          (fun i => vanish i && s.isLeaving i)).map fun (p,world) =>
            s.update r world (.leaving (some c) none (.result (.ok p)))
    | _ => none

def cancel (s : State K) (r : ℕ) : Option (State K) :=
  (s.requests.get r).bind fun request =>
    match request.phase with
    | .fresh c => some (s.update r s.world (.leaving (some c) none .cancelled))
    | .waiting c => some (s.update r s.world (.leaving (some c) none .cancelled))
    | .racing c connect | .connecting c connect =>
      if connect.suspended then
        some (s.update r s.world (.leaving (some c) (some connect.guard) .cancelled))
      else none
    | _ => none

def dropReceiver (s : State K) (r : ℕ) : Option (State K) :=
  (s.requests.get r).bind fun request =>
    match request.phase with
    | .leaving (some c) g next =>
      (s.world.cancelCheckout c).map fun world => s.update r world (.leaving (some c) g next)
    | _ => none

def dropCheckout (s : State K) (r : ℕ) : Option (State K) :=
  (s.requests.get r).bind fun request =>
    match request.phase with
    | .leaving (some c) g next =>
      (s.world.dropCheckout c).map fun world => s.update r world (.leaving none g next)
    | _ => none

def dropGuard (s : State K) (r : ℕ) : Option (State K) :=
  (s.requests.get r).bind fun request =>
    match request.phase with
    | .leaving c (some g) next =>
      (s.world.dropConnecting g).map fun world => s.update r world (.leaving c none next)
    | _ => none

/-- The attempt is over; `connection_for` returns or tries again. -/
def finish (s : State K) (r : ℕ) : Option (State K) :=
  (s.requests.get r).bind fun request =>
    match request.phase with
    | .leaving none none next =>
      match next with
      | .result result => some (s.update r s.world (.done result))
      | .cancelled => some (s.update r s.world .cancelled)
      | .retry =>
        if s.retryCanceledRequests then
          let again := s.world.newCheckout request.key
          some (s.update r again.2 (.fresh again.1))
        else some (s.update r s.world (.done (.error ⟨.canceled,none⟩)))
    | _ => none

def release (s : State K) (r : ℕ) (vanish : ℕ → Bool) : Option (State K) :=
  (s.requests.get r).bind fun request =>
    match request.phase with
    | .done (.ok p) =>
      (s.world.dropPooled p (fun i => vanish i && s.isLeaving i)).map fun world =>
        s.update r world .returned
    | _ => none

end State

inductive Action (K : Type*)
  | request (key : K)
  | pollWaiter (r : ℕ)
  | pollCheckout (r : ℕ)
  | connect (r : ℕ)
  | dialed (r : ℕ) (outcome : Except ConnectorError ConnectionProtocol)
  | alpnMark (r : ℕ)
  | handshaken (r : ℕ) (outcome : Option ℕ) (vanish : ℕ → Bool)
  | cancel (r : ℕ)
  | dropReceiver (r : ℕ)
  | dropCheckout (r : ℕ)
  | dropGuard (r : ℕ)
  | finish (r : ℕ)
  | release (r : ℕ) (vanish : ℕ → Bool)
  | clearExpired
  | readiness (isOpen : PoolClient → Bool)
  | clock (now : ℕ)

/-- What is asked of a dialer: for a client that is configured for HTTP/2 only it declares no
other protocol. -/
def Compatible (protocol : Protocol) : Action K → Prop
  | .dialed _ (.ok selected) => protocol = .http2 → selected = .http2
  | _ => True

def State.step (s : State K) : Action K → Option (State K)
  | .request key => some (s.request key)
  | .pollWaiter r => s.pollWaiter r
  | .pollCheckout r => s.pollCheckout r
  | .connect r => s.connect r
  | .dialed r outcome => s.dialed r outcome
  | .alpnMark r => s.alpnMark r
  | .handshaken r outcome vanish => s.handshaken r outcome vanish
  | .cancel r => s.cancel r
  | .dropReceiver r => s.dropReceiver r
  | .dropCheckout r => s.dropCheckout r
  | .dropGuard r => s.dropGuard r
  | .finish r => s.finish r
  | .release r vanish => s.release r vanish
  | .clearExpired => s.world.clearExpired.map fun world => { s with world := world }
  | .readiness isOpen => some { s with world := { s.world with isOpen := isOpen } }
  | .clock now => some { s with world := { s.world with now := now } }

end H12Tiny.Client
