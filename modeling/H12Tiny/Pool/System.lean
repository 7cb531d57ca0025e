import H12Tiny.Pool.Inner
import H12Tiny.Foundation.Transitions

/-! # The enabled pool and its live handles

A world is the locked state together with every value that can still act on it:
establishment guards, checked-out connections, checkouts and the channels between
the queue and the checkouts. Each action is one critical section of the source,
so any interleaving of the source is a list of actions. Two methods span two
sections and are split accordingly: `alpn_h2` releases its slot and asks for the
H2 marker under separate locks, and dropping a checkout drops its receiver before
it takes the lock to clean the queue.
-/
namespace H12Tiny.Pool

/-- The `Connecting` guard. Its weak reference to the pool is `pool`; between the
two halves of `alpn_h2` it is already cleared and the slot already released. -/
structure Connecting (K : Type*) where
  key : K
  pool : Bool
  h1Slot : Bool

structure Pooled (T K : Type*) where
  value : T
  isReused : Bool
  key : K
  pool : Bool
  h1Slot : Bool

structure Checkout (K : Type*) where
  key : K
  waiter : Option ℕ

inductive CheckoutError
  | poolDisabled
  | noLongerWanted
  | closedValue
  deriving DecidableEq, Repr

def CheckoutError.isCancellation : CheckoutError → Bool
  | .closedValue => true
  | _ => false

structure World (T K : Type*) where
  inner : Inner T K
  chans : Channels T K
  guards : Table (Connecting K)
  pooled : Table (Pooled T K)
  checkouts : Table (Checkout K)
  isOpen : T → Bool
  now : ℕ

variable {T K : Type*} [DecidableEq K]

/-- `Pool::new`; a pool that keeps no idle connection is disabled. -/
def World.new (config : Config) (timer : Bool) : Option (World T K) :=
  if config.enabled then
    some
      { inner :=
          { connecting := fun _ => false
            h1Connections := fun _ => none
            idle := fun _ => none
            maxIdlePerHost := config.maxIdlePerHost
            maxH1ConnectionsPerHost := config.maxH1ConnectionsPerHost
            waiters := fun _ => none
            idleIntervalRef := false
            timer := timer
            timeout := config.idleTimeout
            releasedAtZero := false }
        chans := .empty
        guards := .empty
        pooled := .empty
        checkouts := .empty
        isOpen := fun _ => true
        now := 0 }
  else none

namespace World

/-- `Pool::connecting`; the result is the identifier of the new guard. -/
def connecting (w : World T K) (key : K) (protocol : Protocol) : Option ℕ × World T K :=
  if protocol = .http2 then
    if w.inner.connecting key then (none,w)
    else
      (some w.guards.next,
        { w with
          inner := { w.inner with connecting := mapSet w.inner.connecting key true }
          guards := w.guards.alloc ⟨key,true,false⟩ })
  else
    let r := w.inner.reserveH1Slot key
    if r.1 then
      (some w.guards.next,{ w with inner := r.2, guards := w.guards.alloc ⟨key,true,true⟩ })
    else (none,{ w with inner := r.2 })

/-- The first critical section of `alpn_h2`. The guard is consumed by the call, so
no other action sees it until the second section. -/
def alpnRelease (w : World T K) (g : ℕ) : Option (World T K) :=
  (w.guards.get g).bind fun guard =>
    if guard.pool then
      some { w with
        inner := if guard.h1Slot then w.inner.releaseH1Slot guard.key else w.inner
        guards := w.guards.modify g (fun guard => { guard with h1Slot := false, pool := false }) }
    else none

/-- The second critical section of `alpn_h2`: `pool.connecting(key, Http2)`. The
winner's new guard replaces the consumed one. -/
def alpnMark (w : World T K) (g : ℕ) : Option (Bool × World T K) :=
  (w.guards.get g).bind fun guard =>
    if guard.pool then none
    else if w.inner.connecting guard.key then some (false,{ w with guards := w.guards.remove g })
    else
      some (true,
        { w with
          inner := { w.inner with connecting := mapSet w.inner.connecting guard.key true }
          guards := w.guards.modify g (fun guard => { guard with pool := true, h1Slot := false }) })

def dropConnecting (w : World T K) (g : ℕ) : Option (World T K) :=
  (w.guards.get g).bind fun guard =>
    if guard.pool then
      let r := w.inner.connectingCancelled w.chans guard.key guard.h1Slot
      some { w with inner := r.1, chans := r.2, guards := w.guards.remove g }
    else none

def newCheckout (w : World T K) (key : K) : ℕ × World T K :=
  (w.checkouts.next,{ w with checkouts := w.checkouts.alloc ⟨key,none⟩ })

def receiving (w : World T K) (checkout : Checkout K) : Bool :=
  match checkout.waiter with
  | none => true
  | some i => !w.chans.isCanceled i

/-- The first part of `Drop for Checkout`: `self.waiter.take()` drops the receiver
and with it a value that was sent and not received. -/
def cancelCheckout (w : World T K) (c : ℕ) : Option (World T K) :=
  (w.checkouts.get c).bind fun checkout =>
    checkout.waiter.map fun i => { w with chans := w.chans.dropReceiver i }

def dropCheckout (w : World T K) (c : ℕ) : Option (World T K) :=
  (w.checkouts.get c).bind fun checkout =>
    match checkout.waiter with
    | none => some { w with checkouts := w.checkouts.remove c }
    | some i =>
      if w.chans.isCanceled i then
        let r := w.inner.cleanWaiters w.chans checkout.key
        some { w with inner := r.1, chans := r.2, checkouts := w.checkouts.remove c }
      else none

/-- The background task runs only once it has been spawned, so the timeout its
`expect` asks for is there. -/
def clearExpired (w : World T K) : Option (World T K) :=
  if w.inner.idleIntervalRef then
    w.inner.timeout.map fun timeout =>
      { w with inner := w.inner.clearExpired w.isOpen timeout w.now }
  else none

section Poolable
variable [Poolable T]

/-- `Pool::reuse`, with the new value stored among the live ones. -/
def reuse (w : World T K) (key : K) (value : T) : ℕ × World T K :=
  let h1Slot := !canShare value
  (w.pooled.next,{ w with pooled := w.pooled.alloc ⟨value,true,key,h1Slot,h1Slot⟩ })

/-- `Pool::pooled`. The guard is disarmed and dropped on both paths. -/
def makePooled (w : World T K) (g : ℕ) (value : T) (vanish : ℕ → Bool) : Option (ℕ × World T K) :=
  (w.guards.get g).bind fun guard =>
    if guard.pool then
      match reserve value with
      | .shared toInsert toReturn =>
        (w.inner.put vanish w.now w.chans guard.key toInsert).map fun (_,inner,chans) =>
          let r := inner.connected chans guard.key
          (w.pooled.next,
            { w with
              inner := r.1
              chans := r.2
              guards := w.guards.remove g
              pooled := w.pooled.alloc ⟨toReturn,false,guard.key,false,false⟩ })
      | .unique value =>
        some (w.pooled.next,
          { w with
            guards := w.guards.remove g
            pooled := w.pooled.alloc ⟨value,false,guard.key,true,guard.h1Slot⟩ })
    else none

def dropPooled (w : World T K) (p : ℕ) (vanish : ℕ → Bool) : Option (World T K) :=
  (w.pooled.get p).bind fun item =>
    let rest := { w with pooled := w.pooled.remove p }
    if !w.isOpen item.value then
      some { rest with
        inner := if item.h1Slot && item.pool then w.inner.releaseH1Slot item.key else w.inner }
    else if item.pool then
      (w.inner.put vanish w.now w.chans item.key item.value).map fun (kept,inner,chans) =>
        { rest with
          inner := if !kept && item.h1Slot then inner.releaseH1Slot item.key else inner
          chans := chans }
    else some rest

/-- `Checkout::poll_waiter`; `none` inside `ready` means there was no waiter. -/
def pollWaiter (w : World T K) (c : ℕ) :
    Option (Poll (Option (Except CheckoutError ℕ)) × World T K) :=
  (w.checkouts.get c).bind fun checkout =>
    match checkout.waiter with
    | none => some (.ready none,w)
    | some i =>
      (w.chans.get i).bind fun waiter =>
        if waiter.chan.isCanceled then none
        else
          let polled := waiter.chan.poll
          let taken :=
            { w with
              chans := w.chans.modify i (fun waiter => { waiter with chan := polled.2 })
              checkouts := w.checkouts.modify c (fun checkout => { checkout with waiter := none }) }
          match polled.1 with
          | .ready (some value) =>
            if w.isOpen value then
              let r := taken.reuse checkout.key value
              some (.ready (some (.ok r.1)),r.2)
            else some (.ready (some (.error .closedValue)),taken)
          | .ready none => some (.ready (some (.error .noLongerWanted)),taken)
          | .pending => some (.pending,w)

/-- The locked part of `Checkout::checkout`: pop an idle entry or register a
waiter. -/
def checkout (w : World T K) (c : ℕ) : Option (Option ℕ × World T K) :=
  (w.checkouts.get c).bind fun checkout =>
    if w.receiving checkout then
      let popped := (w.inner.idle checkout.key).map (pop w.isOpen w.inner.timeout w.now)
      match popped with
      | some (some entry,entries) =>
        let idle := mapSet w.inner.idle checkout.key (if entries.isEmpty then none else some entries)
        let r := { w with inner := { w.inner with idle := idle } }.reuse checkout.key entry.value
        some (some r.1,r.2)
      | _ =>
        let inner := { w.inner with idle := mapSet w.inner.idle checkout.key none }
        match checkout.waiter with
        | some _ => some (none,{ w with inner := inner })
        | none =>
          let queue := (inner.waiters checkout.key).getD [] ++ [w.chans.next]
          some (none,
            { w with
              inner := { inner with waiters := mapSet inner.waiters checkout.key (some queue) }
              chans := w.chans.alloc ⟨checkout.key,Oneshot.channel⟩
              checkouts := w.checkouts.modify c
                (fun checkout => { checkout with waiter := some w.chans.next }) })
    else none

end Poolable
end World

/-- One critical section of the pool, or a change of its environment: connections
become ready or close by themselves, and the clock is read. -/
inductive Action (T K : Type*)
  | connecting (key : K) (protocol : Protocol)
  | pooled (guard : ℕ) (value : T) (vanish : ℕ → Bool)
  | alpnRelease (guard : ℕ)
  | alpnMark (guard : ℕ)
  | newCheckout (key : K)
  | pollWaiter (checkout : ℕ)
  | checkout (checkout : ℕ)
  | dropPooled (item : ℕ) (vanish : ℕ → Bool)
  | cancelCheckout (checkout : ℕ)
  | dropCheckout (checkout : ℕ)
  | dropConnecting (guard : ℕ)
  | clearExpired
  | readiness (isOpen : T → Bool)
  | clock (now : ℕ)

def World.step [Poolable T] (w : World T K) : Action T K → Option (World T K)
  | .connecting key protocol => some (w.connecting key protocol).2
  | .pooled g value vanish => (w.makePooled g value vanish).map Prod.snd
  | .alpnRelease g => w.alpnRelease g
  | .alpnMark g => (w.alpnMark g).map Prod.snd
  | .newCheckout key => some (w.newCheckout key).2
  | .pollWaiter c => (w.pollWaiter c).map Prod.snd
  | .checkout c => (w.checkout c).map Prod.snd
  | .dropPooled p vanish => w.dropPooled p vanish
  | .cancelCheckout c => w.cancelCheckout c
  | .dropCheckout c => w.dropCheckout c
  | .dropConnecting g => w.dropConnecting g
  | .clearExpired => w.clearExpired
  | .readiness isOpen => some { w with isOpen := isOpen }
  | .clock now => some { w with now := now }

end H12Tiny.Pool
