import H12Tiny.Client.Resend
import H12Tiny.Client.Provenance
import H12Tiny.Normalize.PoolKey

/-! # Exchanges over pooled connections

`send_request` over `connection_for`, for any number of concurrent calls. An attempt
waits for a connection, hands its message to it and ends with the response, with an
error, or with the message that came back undispatched, which a further attempt sends
again. The handle of an HTTP/1 connection that is not ready when its response arrives
stays with a background task until it is.

The pool compares origins without regard to case, so calls that write one origin in two
ways share its connections. Hyper is outside the client. An HTTP/1 connection is busy from the hand-over of a
message until its driver has settled the exchange, and it is not ready while it is busy;
everything else about it is up to the environment.
-/
namespace H12Tiny.Client
open Pool
open Normalize (Origin OriginKey)

/-- How a connection answers `try_send_request`; `returned` gives the message back. -/
inductive Reply (R : Type)
  | response (response : R)
  | returned
  | failed

/-- `connecting` is inside `connection_for`, `sending` awaits the connection, and the
background task of a call that is `draining` keeps the handle. -/
inductive Stage
  | connecting
  | sending (handle : ℕ)
  | draining (handle : ℕ)
  | ended

def Stage.handle? : Stage → Option ℕ
  | .sending p => some p
  | .draining p => some p
  | _ => none

/-- A call of `send_request`: `attempt` is its current `connection_for` and `result` what
it has returned. Not in the source are `accepted`, `sent` and `attempts`, the request it
started with, the messages it has handed over and the attempts it has made. -/
structure Call (B R : Type) where
  origin : Origin
  absoluteUri : Uri
  request : Normalize.Request B
  attempt : ℕ
  stage : Stage
  result : Option (Except ErrorKind R)
  accepted : Normalize.Request B
  sent : List (ConnectionProtocol × Normalize.Request B)
  attempts : List ℕ

structure Exchanges (B R : Type) where
  setHost : Bool
  client : State OriginKey
  calls : Table (Call B R)
  busy : ℕ → Bool

def isBusy (busy : ℕ → Bool) (value : PoolClient) : Bool :=
  match value.sender with
  | .http1 n => busy n
  | .http2 _ => false

def protocolOf (value : PoolClient) : ConnectionProtocol := if value.isHttp2 then .http2 else .http1

def occupy (busy : ℕ → Bool) (value : PoolClient) : ℕ → Bool :=
  match value.sender with
  | .http1 n => Function.update busy n true
  | .http2 _ => busy

/-- The steps that `connection_for` takes without its caller, and those of the pool's
environment other than a change of readiness. -/
def Action.isInternal {K : Type*} : Action K → Bool
  | .request _ | .cancel _ | .release _ _ | .readiness _ => false
  | _ => true

variable {B R : Type}

namespace Exchanges

def new (config : Config) (protocol : Protocol) (setHost retry timer : Bool) : Option (Exchanges B R) :=
  (State.new config protocol retry timer).map fun client => ⟨setHost,client,.empty,fun _ => false⟩

def update (e : Exchanges B R) (c : ℕ) (client : State OriginKey) (f : Call B R → Call B R) : Exchanges B R :=
  { e with client := client, calls := e.calls.modify c f }

/-- What the environment says about readiness, as far as it can be true. -/
def observe (e : Exchanges B R) (busy : ℕ → Bool) (isOpen : PoolClient → Bool) : Option (Exchanges B R) :=
  (e.client.step (.readiness fun value => isOpen value && !isBusy busy value)).map fun client =>
    { e with client := client, busy := busy }

def request (e : Exchanges B R) (request : Normalize.Request B) : Option (Exchanges B R) :=
  match accept request with
  | some (.ok (accepted,origin)) =>
    (e.client.step (.request origin.key)).map fun client =>
      { e with
        client := client
        calls := e.calls.alloc
          ⟨origin,accepted.uri,accepted,e.client.requests.next,.connecting,none,accepted,[],
            [e.client.requests.next]⟩ }
  | _ => none

def leave (e : Exchanges B R) (c : ℕ) (call : Call B R) (vanish : ℕ → Bool)
    (result : Option (Except ErrorKind R)) : Option (Exchanges B R) :=
  (e.client.step (.release call.attempt vanish)).map fun client =>
    e.update c client fun call => { call with stage := .ended, result := result }

/-- The part of `try_send_request` between `connection_for` and the connection's answer. -/
def send (e : Exchanges B R) (c : ℕ) (vanish : ℕ → Bool) : Option (Exchanges B R) :=
  (e.calls.get c).bind fun call =>
    match call.stage, e.client.requests.get call.attempt with
    | .connecting, some ⟨_,.done (.error error),_⟩ =>
      some (e.update c e.client fun call => { call with stage := .ended, result := some (.error error.kind) })
    | .connecting, some ⟨_,.done (.ok p),_⟩ =>
      (e.client.world.pooled.get p).bind fun item =>
        match prepare e.setHost call.request (protocolOf item.value) with
        | .ok message =>
          ({ e with
            calls := e.calls.modify c fun call =>
              { call with
                stage := .sending p
                request := message
                sent := call.sent ++ [(protocolOf item.value,message)] } } : Exchanges B R).observe
            (occupy e.busy item.value) e.client.world.isOpen
        | .error (.final kind) => e.leave c call vanish (some (.error kind))
        | .error .panic => e.leave c call vanish none
    | _, _ => none

/-- The rest of `try_send_request`, and the loop of `send_request` around it. -/
def respond (e : Exchanges B R) (c : ℕ) (reply : Reply R) (vanish : ℕ → Bool) : Option (Exchanges B R) :=
  (e.calls.get c).bind fun call =>
    match call.stage with
    | .sending p =>
      (e.client.world.pooled.get p).bind fun item =>
        match reply with
        | .response response =>
          if item.value.isHttp2 || !item.pool || e.client.world.isOpen item.value then
            e.leave c call vanish (some (.ok response))
          else
            some (e.update c e.client fun call =>
              { call with stage := .draining p, result := some (.ok response) })
        | .failed => e.leave c call vanish (some (.error .sendRequest))
        | .returned =>
          if e.client.retryCanceledRequests && item.isReused then
            (e.client.step (.release call.attempt vanish)).bind fun client =>
              (client.step (.request call.origin.key)).map fun again =>
                e.update c again fun call =>
                  { call with
                    stage := .connecting
                    attempt := client.requests.next
                    request := { call.request with uri := call.absoluteUri }
                    attempts := call.attempts ++ [client.requests.next] }
          else e.leave c call vanish (some (.error .canceled))
    | _ => none

/-- The background task is over, by `poll_ready` or with its executor. -/
def drained (e : Exchanges B R) (c : ℕ) (vanish : ℕ → Bool) : Option (Exchanges B R) :=
  (e.calls.get c).bind fun call =>
    match call.stage with
    | .draining _ => e.leave c call vanish call.result
    | _ => none

def abandon (e : Exchanges B R) (c : ℕ) (vanish : ℕ → Bool) : Option (Exchanges B R) :=
  (e.calls.get c).bind fun call =>
    match call.stage with
    | .connecting =>
      (e.client.step (.cancel call.attempt)).map fun client =>
        e.update c client fun call => { call with stage := .ended }
    | .sending _ => e.leave c call vanish none
    | _ => none

end Exchanges

inductive Event (B R : Type)
  | request (request : Normalize.Request B)
  | connection (action : Action OriginKey)
  | send (c : ℕ) (vanish : ℕ → Bool)
  | respond (c : ℕ) (reply : Reply R) (vanish : ℕ → Bool)
  | drained (c : ℕ) (vanish : ℕ → Bool)
  | abandon (c : ℕ) (vanish : ℕ → Bool)
  | settled (n : ℕ)
  | readiness (isOpen : PoolClient → Bool)

def Event.connection? : Event B R → Option ℕ
  | .connection action => action.connection?
  | _ => none

def Event.call? : Event B R → Option ℕ
  | .send c _ => some c
  | .respond c _ _ => some c
  | .drained c _ => some c
  | .abandon c _ => some c
  | _ => none

def Exchanges.step (e : Exchanges B R) : Event B R → Option (Exchanges B R)
  | .request request => e.request request
  | .connection action =>
    if action.isInternal then (e.client.step action).map fun client => { e with client := client } else none
  | .send c vanish => e.send c vanish
  | .respond c reply vanish => e.respond c reply vanish
  | .drained c vanish => e.drained c vanish
  | .abandon c vanish => e.abandon c vanish
  | .settled n => some { e with busy := Function.update e.busy n false }
  | .readiness isOpen => e.observe e.busy isOpen

/-- What an event does, with the facts its branch was taken under. -/
inductive Exchanged (e : Exchanges B R) : Event B R → Exchanges B R → Prop
  | request {request accepted : Normalize.Request B} {origin : Origin} {client : State OriginKey} :
      accept request = some (.ok (accepted,origin)) → e.client.step (.request origin.key) = some client →
      Exchanged e (.request request)
        { e with
          client := client
          calls := e.calls.alloc
            ⟨origin,accepted.uri,accepted,e.client.requests.next,.connecting,none,accepted,[],
              [e.client.requests.next]⟩ }
  | connection {action : Action OriginKey} {client : State OriginKey} : action.isInternal = true →
      e.client.step action = some client → Exchanged e (.connection action) { e with client := client }
  | refused {c : ℕ} {vanish : ℕ → Bool} {call : Call B R} {kind : ErrorKind} :
      e.calls.get c = some call → call.stage = .connecting →
      Exchanged e (.send c vanish)
        (e.update c e.client fun call => { call with stage := .ended, result := some (.error kind) })
  | handOver {c p : ℕ} {vanish : ℕ → Bool} {call : Call B R} {q : Request OriginKey}
      {item : Pooled PoolClient OriginKey} {message : Normalize.Request B} {client : State OriginKey} :
      e.calls.get c = some call → call.stage = .connecting → e.client.requests.get call.attempt = some q →
      q.phase = .done (.ok p) → e.client.world.pooled.get p = some item →
      prepare e.setHost call.request (protocolOf item.value) = .ok message →
      e.client.step (.readiness fun value =>
        e.client.world.isOpen value && !isBusy (occupy e.busy item.value) value) = some client →
      Exchanged e (.send c vanish)
        { e with
          client := client
          busy := occupy e.busy item.value
          calls := e.calls.modify c fun call =>
            { call with
              stage := .sending p
              request := message
              sent := call.sent ++ [(protocolOf item.value,message)] } }
  | leave {c p : ℕ} {event : Event B R} {vanish : ℕ → Bool} {call : Call B R} {client : State OriginKey}
      {result : Option (Except ErrorKind R)} :
      e.calls.get c = some call → call.stage = .connecting ∨ call.stage.handle? = some p →
      event.call? = some c → e.client.step (.release call.attempt vanish) = some client →
      Exchanged e event
        (e.update c client fun call => { call with stage := .ended, result := result })
  | keep {c p : ℕ} {response : R} {vanish : ℕ → Bool} {call : Call B R} :
      e.calls.get c = some call → call.stage = .sending p →
      Exchanged e (.respond c (.response response) vanish)
        (e.update c e.client fun call => { call with stage := .draining p, result := some (.ok response) })
  | again {c p : ℕ} {vanish : ℕ → Bool} {call : Call B R} {client next : State OriginKey} :
      e.calls.get c = some call → call.stage = .sending p → e.client.retryCanceledRequests = true →
      e.client.step (.release call.attempt vanish) = some client →
      client.step (.request call.origin.key) = some next →
      Exchanged e (.respond c .returned vanish)
        (e.update c next fun call =>
          { call with
            stage := .connecting
            attempt := client.requests.next
            request := { call.request with uri := call.absoluteUri }
            attempts := call.attempts ++ [client.requests.next] })
  | cancel {c : ℕ} {vanish : ℕ → Bool} {call : Call B R} {client : State OriginKey} :
      e.calls.get c = some call → call.stage = .connecting →
      e.client.step (.cancel call.attempt) = some client →
      Exchanged e (.abandon c vanish) (e.update c client fun call => { call with stage := .ended })
  | settled {n : ℕ} : Exchanged e (.settled n) { e with busy := Function.update e.busy n false }
  | readiness {isOpen : PoolClient → Bool} {client : State OriginKey} :
      e.client.step (.readiness fun value => isOpen value && !isBusy e.busy value) = some client →
      Exchanged e (.readiness isOpen) { e with client := client }

section Inversion
variable {e e' : Exchanges B R}

theorem leave_exchanged {c p : ℕ} {event : Event B R} {vanish : ℕ → Bool} {call : Call B R}
    {result : Option (Except ErrorKind R)} (hc : e.calls.get c = some call)
    (hstage : call.stage = .connecting ∨ call.stage.handle? = some p) (hevent : event.call? = some c)
    (h : e.leave c call vanish result = some e') : Exchanged e event e' := by
  obtain ⟨client,hs,rfl⟩ := Option.map_eq_some_iff.mp h
  exact .leave hc hstage hevent hs

theorem send_exchanged {c : ℕ} {vanish : ℕ → Bool} (h : e.send c vanish = some e') :
    Exchanged e (.send c vanish) e' := by
  obtain ⟨call,hc,h⟩ := Option.bind_eq_some_iff.mp h
  split at h
  · rename_i error _ hstage hq
    cases h
    exact .refused hc hstage
  · rename_i key p failed hstage hq
    obtain ⟨item,hitem,h⟩ := Option.bind_eq_some_iff.mp h
    split at h
    · rename_i message hprepare
      obtain ⟨client,hs,rfl⟩ := Option.map_eq_some_iff.mp h
      exact .handOver hc hstage hq rfl hitem hprepare hs
    · exact leave_exchanged (p := p) hc (.inl hstage) rfl h
    · exact leave_exchanged (p := p) hc (.inl hstage) rfl h
  · cases h

theorem respond_exchanged {c : ℕ} {reply : Reply R} {vanish : ℕ → Bool}
    (h : e.respond c reply vanish = some e') : Exchanged e (.respond c reply vanish) e' := by
  obtain ⟨call,hc,h⟩ := Option.bind_eq_some_iff.mp h
  split at h
  · rename_i p hstage
    have hhandle : call.stage.handle? = some p := by
      rw [hstage]
      rfl
    obtain ⟨item,_,h⟩ := Option.bind_eq_some_iff.mp h
    cases reply with
    | response response =>
      dsimp only at h
      split at h
      · exact leave_exchanged hc (.inr hhandle) rfl h
      · cases h
        exact .keep hc hstage
    | failed => exact leave_exchanged hc (.inr hhandle) rfl h
    | returned =>
      dsimp only at h
      split at h
      · rename_i hretry
        obtain ⟨client,hs,h⟩ := Option.bind_eq_some_iff.mp h
        obtain ⟨next,hn,rfl⟩ := Option.map_eq_some_iff.mp h
        exact .again hc hstage (Bool.and_eq_true_iff.mp hretry).1 hs hn
      · exact leave_exchanged hc (.inr hhandle) rfl h
  · cases h

theorem drained_exchanged {c : ℕ} {vanish : ℕ → Bool} (h : e.drained c vanish = some e') :
    Exchanged e (.drained c vanish) e' := by
  obtain ⟨call,hc,h⟩ := Option.bind_eq_some_iff.mp h
  split at h
  · rename_i p hstage
    exact leave_exchanged (p := p) hc (.inr (by rw [hstage]; rfl)) rfl h
  · cases h

theorem abandon_exchanged {c : ℕ} {vanish : ℕ → Bool} (h : e.abandon c vanish = some e') :
    Exchanged e (.abandon c vanish) e' := by
  obtain ⟨call,hc,h⟩ := Option.bind_eq_some_iff.mp h
  split at h
  · rename_i hstage
    obtain ⟨client,hs,rfl⟩ := Option.map_eq_some_iff.mp h
    exact .cancel hc hstage hs
  · rename_i p hstage
    exact leave_exchanged (p := p) hc (.inr (by rw [hstage]; rfl)) rfl h
  · cases h

theorem step_exchanged {event : Event B R} (h : e.step event = some e') : Exchanged e event e' := by
  cases event with
  | request request =>
    change e.request request = some e' at h
    unfold Exchanges.request at h
    split at h
    · rename_i accepted origin haccept
      obtain ⟨client,hs,rfl⟩ := Option.map_eq_some_iff.mp h
      exact .request haccept hs
    · cases h
  | connection action =>
    simp only [Exchanges.step] at h
    split at h
    · rename_i hinternal
      obtain ⟨client,hs,rfl⟩ := Option.map_eq_some_iff.mp h
      exact .connection hinternal hs
    · cases h
  | send c vanish => exact send_exchanged h
  | respond c reply vanish => exact respond_exchanged h
  | drained c vanish => exact drained_exchanged h
  | abandon c vanish => exact abandon_exchanged h
  | settled n =>
    cases h
    exact .settled
  | readiness isOpen =>
    simp only [Exchanges.step,Exchanges.observe] at h
    obtain ⟨client,hs,rfl⟩ := Option.map_eq_some_iff.mp h
    exact .readiness hs

end Inversion

end H12Tiny.Client
