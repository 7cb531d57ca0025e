import Mathlib.Data.Option.Basic

/-! # One-shot channels

A channel carries at most one value from one sender to one receiver. Sending to
a receiver that is gone hands the value back; a sender that is dropped without
sending completes the receiver with a cancellation; dropping the receiver drops
a value that was sent and not yet received.
-/
namespace H12Tiny

inductive SenderState
  | held
  | sent
  | dropped
  deriving DecidableEq, Repr

/-- The outcome of polling a future once. -/
inductive Poll (α : Type*)
  | ready (a : α)
  | pending
  deriving DecidableEq, Repr

structure Oneshot (T : Type*) where
  sender : SenderState
  receiver : Bool
  slot : Option T

namespace Oneshot
variable {T : Type*}

def channel : Oneshot T := ⟨.held, true, none⟩

def isCanceled (c : Oneshot T) : Bool := !c.receiver

def dropReceiver (c : Oneshot T) : Oneshot T := { c with receiver := false, slot := none }

/-- Dropping a sender that already sent changes nothing: sending consumed it. -/
def dropSender (c : Oneshot T) : Oneshot T :=
  match c.sender with
  | .held => { c with sender := .dropped }
  | _ => c

/-- Sends the value, or returns it when the receiver is gone. Either way the
sender is consumed. -/
def send (c : Oneshot T) (v : T) : Option T × Oneshot T :=
  if c.receiver then (none,{ c with sender := .sent, slot := some v })
  else (some v,c.dropSender)

/-- A resolved receiver is consumed: the value leaves the channel. -/
def poll (c : Oneshot T) : Poll (Option T) × Oneshot T :=
  match c.slot with
  | some v => (.ready (some v),c.dropReceiver)
  | none =>
    match c.sender with
    | .held => (.pending,c)
    | _ => (.ready none,c.dropReceiver)

@[simp] theorem dropReceiver_receiver (c : Oneshot T) : c.dropReceiver.receiver = false := rfl
@[simp] theorem dropReceiver_slot (c : Oneshot T) : c.dropReceiver.slot = none := rfl
@[simp] theorem dropReceiver_sender (c : Oneshot T) : c.dropReceiver.sender = c.sender := rfl
@[simp] theorem dropSender_receiver (c : Oneshot T) : c.dropSender.receiver = c.receiver := by
  cases h : c.sender <;> simp [dropSender,h]
@[simp] theorem dropSender_slot (c : Oneshot T) : c.dropSender.slot = c.slot := by
  cases h : c.sender <;> simp [dropSender,h]
theorem dropSender_not_held (c : Oneshot T) : c.dropSender.sender ≠ .held := by
  cases h : c.sender <;> simp [dropSender,h]
/-- A receiver waits as long as nothing was sent and the sender is there. -/
theorem poll_pending_iff (c : Oneshot T) : c.poll.1 = .pending ↔ c.slot = none ∧ c.sender = .held := by
  unfold poll
  cases hslot : c.slot with
  | some v => simp
  | none =>
    cases hsender : c.sender <;> simp

end Oneshot
end H12Tiny
