import H12Tiny.Foundation.HandleTable
import H12Tiny.Foundation.Oneshot

/-! # The locked state of the connection pool

The fields and methods of `Inner` and `IdlePopper` in the client's `pool.rs`.
Maps are functions to `Option`, the idle vector and the waiter queue are lists
with the back at the end, and a sender in a queue is the identifier of its
one-shot channel in the table of all channels. Whether a connection is open is
not a property of the pooled value but of its peer, so it is a parameter of every
method that asks. Instants and durations are numbers; `Duration` subtraction
saturates as natural subtraction does.
-/
namespace H12Tiny.Pool

inductive Protocol
  | auto
  | http1
  | http2
  deriving DecidableEq, Repr

inductive Reservation (T : Type*)
  | shared (toKeep toSend : T)
  | unique (value : T)

/-- An item that can participate in a pool. A shareable value is reserved as two
copies of itself, any other value as itself: this is what both implementations
of the trait do, with the clone of a sender identified with the sender. -/
class Poolable (T : Type*) where
  canShare : T → Bool
  reserve : T → Reservation T
  reserve_eq : ∀ v, reserve v = if canShare v then .shared v v else .unique v

export Poolable (canShare reserve)

/-- The client's sender; the number stands for the connection behind it. -/
inductive Sender
  | http1 (connection : ℕ)
  | http2 (connection : ℕ)
  deriving DecidableEq, Repr

/-- The only pooled value of the client. `connection_info` takes no part in pooling. -/
structure PoolClient where
  sender : Sender
  deriving DecidableEq, Repr

def PoolClient.isHttp2 (client : PoolClient) : Bool :=
  match client.sender with
  | .http1 _ => false
  | .http2 _ => true

instance : Poolable PoolClient where
  canShare := PoolClient.isHttp2
  reserve client :=
    match client.sender with
    | .http1 sender => .unique ⟨.http1 sender⟩
    | .http2 sender => .shared ⟨.http2 sender⟩ ⟨.http2 sender⟩
  reserve_eq client := by
    rcases client with ⟨_ | _⟩ <;> rfl

structure Config where
  idleTimeout : Option ℕ
  maxIdlePerHost : ℕ
  maxH1ConnectionsPerHost : ℕ

def Config.enabled (config : Config) : Bool := decide (0 < config.maxIdlePerHost)

structure Idle (T : Type*) where
  value : T
  idleAt : ℕ

/-- A one-shot channel together with the key whose queue its sender was put in. -/
structure Waiter (T K : Type*) where
  key : K
  chan : Oneshot T

abbrev Channels (T K : Type*) := Table (Waiter T K)

/-- `releasedAtZero` is not in the source: it records that `release_h1_slot` was
called for a key whose counter was zero, the call its assertion rejects. The
executor, the timer itself and the event log have no influence on the rest; only
whether a timer is present does. -/
structure Inner (T K : Type*) where
  connecting : K → Bool
  h1Connections : K → Option ℕ
  idle : K → Option (List (Idle T))
  maxIdlePerHost : ℕ
  maxH1ConnectionsPerHost : ℕ
  waiters : K → Option (List ℕ)
  idleIntervalRef : Bool
  timer : Bool
  timeout : Option ℕ
  releasedAtZero : Bool

variable {T K : Type*} [DecidableEq K]

def mapSet {V : Type*} (m : K → V) (key : K) (v : V) : K → V := fun k => if k = key then v else m k

@[simp] theorem mapSet_self {V : Type*} (m : K → V) (key : K) (v : V) : mapSet m key v key = v := by
  simp [mapSet]
theorem mapSet_ne {V : Type*} (m : K → V) {key k : K} (v : V) (h : k ≠ key) :
    mapSet m key v k = m k := by simp [mapSet,h]
theorem mapSet_eq_self {V : Type*} (m : K → V) {key : K} {v : V} (h : m key = v) :
    mapSet m key v = m := by
  funext k
  by_cases hk : k = key
  · subst hk; simp [h]
  · exact mapSet_ne m v hk
theorem mapSet_apply {V : Type*} (m : K → V) (key : K) (v : V) (k : K) :
    mapSet m key v k = if k = key then v else m k := rfl

def expires (expiration : Option ℕ) (idleAt now : ℕ) : Bool :=
  match expiration with
  | some timeout => decide (timeout < now - idleAt)
  | none => false

def stale (isOpen : T → Bool) (expiration : Option ℕ) (now : ℕ) (entry : Idle T) : Bool :=
  !isOpen entry.value || expires expiration entry.idleAt now

section Methods
variable [Poolable T]

/-- The loop of `IdlePopper::pop` on the list read from the back. -/
def popBack (isOpen : T → Bool) (expiration : Option ℕ) (now : ℕ) :
    List (Idle T) → Option (Idle T) × List (Idle T)
  | [] => (none,[])
  | entry :: rest =>
    if !isOpen entry.value || expires expiration entry.idleAt now then
      popBack isOpen expiration now rest
    else
      match reserve entry.value with
      | .shared toReinsert toCheckout => (some ⟨toCheckout,entry.idleAt⟩,⟨toReinsert,now⟩ :: rest)
      | .unique value => (some ⟨value,entry.idleAt⟩,rest)

def pop (isOpen : T → Bool) (expiration : Option ℕ) (now : ℕ) (list : List (Idle T)) :
    Option (Idle T) × List (Idle T) :=
  let popped := popBack isOpen expiration now list.reverse
  (popped.1,popped.2.reverse)

end Methods

namespace Channels
variable {T K : Type*}

def dropSender (chans : Channels T K) (i : ℕ) : Channels T K :=
  chans.modify i (fun w => { w with chan := w.chan.dropSender })

def dropSenders (chans : Channels T K) (ids : List ℕ) : Channels T K :=
  ids.foldl dropSender chans

def dropReceiver (chans : Channels T K) (i : ℕ) : Channels T K :=
  chans.modify i (fun w => { w with chan := w.chan.dropReceiver })

def isCanceled (chans : Channels T K) (i : ℕ) : Bool :=
  match chans.get i with
  | some w => w.chan.isCanceled
  | none => true

/-- `sender.send(value)`. The receiver may vanish after the cancellation check
and before the send: `vanish` names the receivers that do. -/
def send (vanish : ℕ → Bool) (chans : Channels T K) (i : ℕ) (v : T) : Option T × Channels T K :=
  let chans := if vanish i then dropReceiver chans i else chans
  match chans.get i with
  | some w => ((w.chan.send v).1,chans.modify i (fun w => { w with chan := (w.chan.send v).2 }))
  | none => (some v,chans)

end Channels

namespace Inner
variable [Poolable T]

/-- The hand-over loop of `Inner::put`. The outer `none` is the panic
"connection was consumed twice". -/
def putLoop (vanish : ℕ → Bool) :
    List ℕ → Option T → Channels T K → Option (Option T × List ℕ × Channels T K)
  | [], value, chans => some (value,[],chans)
  | sender :: waiters, value, chans =>
    if chans.isCanceled sender then putLoop vanish waiters value (chans.dropSender sender)
    else
      match value with
      | none => none
      | some candidate =>
        let (value,reserved) :=
          match reserve candidate with
          | .shared toKeep toSend => (some toKeep,toSend)
          | .unique value => (none,value)
        match chans.send vanish sender reserved with
        | (none,chans) =>
          match value with
          | none => some (none,waiters,chans)
          | some kept => putLoop vanish waiters (some kept) chans
        | (some returned,chans) => putLoop vanish waiters (some returned) chans

/-- `spawn_idle_interval` starts the sweeper once, when there is a positive
timeout and a timer to run it. -/
def spawnIdleInterval (inner : Inner T K) : Inner T K :=
  if inner.idleIntervalRef then inner
  else
    match inner.timeout with
    | some timeout =>
      if 0 < timeout ∧ inner.timer = true then { inner with idleIntervalRef := true } else inner
    | none => inner

def store (inner : Inner T K) (now : ℕ) (key : K) (value : T) : Bool × Inner T K :=
  let list := (inner.idle key).getD []
  if inner.maxIdlePerHost ≤ list.length then
    (false,{ inner with idle := mapSet inner.idle key (some list) })
  else
    (true,spawnIdleInterval { inner with idle := mapSet inner.idle key (some (list ++ [⟨value,now⟩])) })

def put (vanish : ℕ → Bool) (now : ℕ) (inner : Inner T K) (chans : Channels T K) (key : K) (value : T) :
    Option (Bool × Inner T K × Channels T K) :=
  if canShare value && (inner.idle key).isSome then some (false,inner,chans)
  else
    match inner.waiters key with
    | none => let r := inner.store now key value; some (r.1,r.2,chans)
    | some queue =>
      match putLoop vanish queue (some value) chans with
      | none => none
      | some (value,rest,chans) =>
        let inner :=
          { inner with waiters := mapSet inner.waiters key (if rest.isEmpty then none else some rest) }
        match value with
        | some value => let r := inner.store now key value; some (r.1,r.2,chans)
        | none => some (true,inner,chans)

omit [Poolable T]

def h1Count (inner : Inner T K) (key : K) : ℕ := (inner.h1Connections key).getD 0

/-- `reserve_h1_slot`: the entry is created even when the reservation is refused. -/
def reserveH1Slot (inner : Inner T K) (key : K) : Bool × Inner T K :=
  let connections := inner.h1Count key
  if inner.maxH1ConnectionsPerHost ≤ connections then
    (false,{ inner with h1Connections := mapSet inner.h1Connections key (some connections) })
  else
    (true,{ inner with h1Connections := mapSet inner.h1Connections key (some (connections + 1)) })

def releaseH1Slot (inner : Inner T K) (key : K) : Inner T K :=
  let inner := { inner with releasedAtZero := inner.releasedAtZero || inner.h1Count key == 0 }
  match inner.h1Connections key with
  | none => inner
  | some connections =>
    if connections - 1 = 0 then
      { inner with h1Connections := mapSet inner.h1Connections key none }
    else { inner with h1Connections := mapSet inner.h1Connections key (some (connections - 1)) }

def removeWaiters (inner : Inner T K) (chans : Channels T K) (key : K) : Inner T K × Channels T K :=
  ({ inner with waiters := mapSet inner.waiters key none },
    chans.dropSenders ((inner.waiters key).getD []))

def connected (inner : Inner T K) (chans : Channels T K) (key : K) : Inner T K × Channels T K :=
  removeWaiters { inner with connecting := mapSet inner.connecting key false } chans key

def connectingCancelled (inner : Inner T K) (chans : Channels T K) (key : K) (h1Slot : Bool) :
    Inner T K × Channels T K :=
  let inner :=
    if h1Slot then inner.releaseH1Slot key
    else { inner with connecting := mapSet inner.connecting key false }
  inner.removeWaiters chans key

def cleanWaiters (inner : Inner T K) (chans : Channels T K) (key : K) : Inner T K × Channels T K :=
  match inner.waiters key with
  | none => (inner,chans)
  | some queue =>
    let kept := queue.filter (fun i => !chans.isCanceled i)
    ({ inner with waiters := mapSet inner.waiters key (if kept.isEmpty then none else some kept) },
      chans.dropSenders (queue.filter (fun i => chans.isCanceled i)))

/-- The `retain` of `clear_expired` on one list. -/
def sweep (isOpen : T → Bool) (timeout now : ℕ) (entries : List (Idle T)) : Option (List (Idle T)) :=
  let kept := entries.filter (fun entry => isOpen entry.value && decide (now - entry.idleAt ≤ timeout))
  if kept.isEmpty then none else some kept

def clearExpired (isOpen : T → Bool) (timeout now : ℕ) (inner : Inner T K) : Inner T K :=
  { inner with idle := fun key => (inner.idle key).bind (sweep isOpen timeout now) }

end Inner
end H12Tiny.Pool
