import H12Tiny.Pool.System

/-! # What `put` and the queue operations can do

The hand-over loop is described once by a relation with one constructor per way
a queued sender can leave the queue: found cancelled, lost between the check and
the send, or served. Every later argument about `put` is an induction over this
relation or a case split over the three outcomes of the whole method; the code of
the loop is not unfolded again.
-/
namespace H12Tiny.Pool
variable {T K : Type*}

namespace Channels

def vanished (x : Waiter T K) : Waiter T K := { x with chan := x.chan.dropReceiver.dropSender }
def delivered (v : T) (x : Waiter T K) : Waiter T K :=
  { x with chan := { x.chan with sender := .sent, slot := some v } }
def abandoned (x : Waiter T K) : Waiter T K := { x with chan := x.chan.dropSender }

theorem dropSender_eq (chans : Channels T K) (i : ℕ) : chans.dropSender i = chans.modify i abandoned := rfl

@[simp] theorem abandoned_key (x : Waiter T K) : (abandoned x).key = x.key := rfl
@[simp] theorem vanished_key (x : Waiter T K) : (vanished x).key = x.key := rfl
@[simp] theorem delivered_key (v : T) (x : Waiter T K) : (delivered v x).key = x.key := rfl
theorem abandoned_not_held (x : Waiter T K) : (abandoned x).chan.sender ≠ .held :=
  Oneshot.dropSender_not_held _
theorem vanished_not_held (x : Waiter T K) : (vanished x).chan.sender ≠ .held :=
  Oneshot.dropSender_not_held _
theorem abandoned_idem (x : Waiter T K) : abandoned (abandoned x) = abandoned x := by
  rcases x with ⟨key,sender,receiver,slot⟩
  cases sender <;> rfl

@[simp] theorem next_dropSenders (chans : Channels T K) (ids : List ℕ) :
    (chans.dropSenders ids).next = chans.next := by
  induction ids generalizing chans with
  | nil => rfl
  | cons i rest ih => exact ih (chans.dropSender i)

theorem get_dropSenders (chans : Channels T K) (ids : List ℕ) (i : ℕ) :
    (chans.dropSenders ids).get i = if i ∈ ids then (chans.get i).map abandoned else chans.get i := by
  induction ids generalizing chans with
  | nil => simp [dropSenders]
  | cons j rest ih =>
    have hh := ih (chans.dropSender j)
    change ((chans.dropSender j).dropSenders rest).get i = _
    rw [hh,dropSender_eq,Table.get_modify]
    by_cases hij : i = j
    · subst hij
      cases chans.get i with
      | none => simp
      | some x => simp [abandoned_idem]
    · simp [hij]

theorem get_dropSenders_of_some {chans : Channels T K} {i : ℕ} {x : Waiter T K} (ids : List ℕ)
    (h : chans.get i = some x) :
    (chans.dropSenders ids).get i = some (if i ∈ ids then abandoned x else x) := by
  rw [get_dropSenders,h]
  split <;> rfl

theorem isCanceled_of_some {chans : Channels T K} {i : ℕ} {x : Waiter T K}
    (h : chans.get i = some x) : chans.isCanceled i = !x.chan.receiver := by
  simp [isCanceled,h,Oneshot.isCanceled]

theorem receiver_of_not_canceled {chans : Channels T K} {i : ℕ} (h : chans.isCanceled i = false) :
    ∃ x, chans.get i = some x ∧ x.chan.receiver = true := by
  cases hx : chans.get i with
  | none => simp [isCanceled,hx] at h
  | some x => exact ⟨x,rfl,by simpa [isCanceled_of_some hx] using h⟩

theorem send_vanished {vanish : ℕ → Bool} {chans : Channels T K} {i : ℕ} {x : Waiter T K} (v : T)
    (hx : chans.get i = some x) (hv : vanish i = true) :
    chans.send vanish i v = (some v,chans.modify i vanished) := by
  have hg : (chans.dropReceiver i).get i = some { x with chan := x.chan.dropReceiver } := by
    simp [dropReceiver,hx]
  simp only [send,hv,if_true,hg]
  refine Prod.ext ?_ ?_
  · simp [Oneshot.send]
  · simp only [dropReceiver,Table.modify_modify]
    congr 1

theorem send_delivered {vanish : ℕ → Bool} {chans : Channels T K} {i : ℕ} {x : Waiter T K} (v : T)
    (hx : chans.get i = some x) (hr : x.chan.receiver = true) (hv : vanish i = false) :
    chans.send vanish i v = (none,chans.modify i (delivered v)) := by
  simp only [send,hv,Bool.false_eq_true,if_false,hx]
  refine Prod.ext ?_ ?_
  · simp [Oneshot.send,hr]
  · apply Table.ext
    · funext j
      by_cases hj : j = i
      · subst hj; simp [hx,Oneshot.send,hr,delivered]
      · simp [Table.get_modify,hj]
    · rfl

end Channels

section HandOver
variable [Poolable T] (vanish : ℕ → Bool) (v : T)

/-- What the hand-over loop does with value `v` to a queue: the value it has left,
the senders still queued and the channels afterwards. -/
inductive HandOver : List ℕ → Channels T K → Option T → List ℕ → Channels T K → Prop
  | exhausted {chans : Channels T K} : HandOver [] chans (some v) [] chans
  | canceled {i : ℕ} {ws rest : List ℕ} {chans chans' : Channels T K} {left : Option T} :
      chans.isCanceled i = true → HandOver ws (chans.modify i Channels.abandoned) left rest chans' →
      HandOver (i :: ws) chans left rest chans'
  | vanished {i : ℕ} {ws rest : List ℕ} {chans chans' : Channels T K} {left : Option T} :
      chans.isCanceled i = false → vanish i = true →
      HandOver ws (chans.modify i Channels.vanished) left rest chans' →
      HandOver (i :: ws) chans left rest chans'
  | unique {i : ℕ} {ws : List ℕ} {chans : Channels T K} :
      chans.isCanceled i = false → vanish i = false → canShare v = false →
      HandOver (i :: ws) chans none ws (chans.modify i (Channels.delivered v))
  | shared {i : ℕ} {ws rest : List ℕ} {chans chans' : Channels T K} {left : Option T} :
      chans.isCanceled i = false → vanish i = false → canShare v = true →
      HandOver ws (chans.modify i (Channels.delivered v)) left rest chans' →
      HandOver (i :: ws) chans left rest chans'

/-- The loop does exactly this and never reaches its panic. -/
theorem putLoop_handOver (queue : List ℕ) (chans : Channels T K) :
    ∃ left rest chans', Inner.putLoop vanish queue (some v) chans = some (left,rest,chans') ∧
      HandOver vanish v queue chans left rest chans' := by
  induction queue generalizing chans with
  | nil => exact ⟨some v,[],chans,rfl,.exhausted⟩
  | cons i ws ih =>
    rw [Inner.putLoop]
    cases hc : chans.isCanceled i with
    | true =>
      obtain ⟨left,rest,chans',he,hh⟩ := ih (chans.modify i Channels.abandoned)
      exact ⟨left,rest,chans',by simpa [Channels.dropSender_eq] using he,.canceled hc hh⟩
    | false =>
      obtain ⟨x,hx,hr⟩ := Channels.receiver_of_not_canceled hc
      have hres := Poolable.reserve_eq v
      cases hv : vanish i with
      | true =>
        obtain ⟨left,rest,chans',he,hh⟩ := ih (chans.modify i Channels.vanished)
        refine ⟨left,rest,chans',?_,.vanished hc hv hh⟩
        cases hs : canShare v <;>
          simpa [hres,hs,Channels.send_vanished v hx hv] using he
      | false =>
        have hsend := Channels.send_delivered v hx hr hv
        cases hs : canShare v with
        | true =>
          obtain ⟨left,rest,chans',he,hh⟩ := ih (chans.modify i (Channels.delivered v))
          exact ⟨left,rest,chans',by simpa [hres,hs,hsend] using he,.shared hc hv hs hh⟩
        | false =>
          exact ⟨none,ws,chans.modify i (Channels.delivered v),by simp [hres,hs,hsend],.unique hc hv hs⟩

variable {vanish v}

/-- A value is left over only when the whole queue was tried, and then it is the
value itself. -/
theorem HandOver.left_some {queue rest : List ℕ} {chans chans' : Channels T K} {u : T}
    (h : HandOver vanish v queue chans (some u) rest chans') : u = v ∧ rest = [] := by
  generalize hl : some u = left at h
  induction h with
  | exhausted => exact ⟨Option.some.inj hl,rfl⟩
  | unique => cases hl
  | canceled _ _ ih => exact ih hl
  | vanished _ _ _ ih => exact ih hl
  | shared _ _ _ _ ih => exact ih hl

theorem HandOver.left_none {queue rest : List ℕ} {chans chans' : Channels T K}
    (h : HandOver vanish v queue chans none rest chans') : canShare v = false := by
  generalize hl : (none : Option T) = left at h
  induction h with
  | exhausted => cases hl
  | unique _ _ hs => exact hs
  | canceled _ _ ih => exact ih hl
  | vanished _ _ _ ih => exact ih hl
  | shared _ _ _ _ ih => exact ih hl

theorem HandOver.suffix {queue rest : List ℕ} {chans chans' : Channels T K} {left : Option T}
    (h : HandOver vanish v queue chans left rest chans') : rest <:+ queue := by
  induction h with
  | exhausted => exact List.suffix_rfl
  | unique => exact List.suffix_cons _ _
  | canceled _ _ ih => exact ih.trans (List.suffix_cons _ _)
  | vanished _ _ _ ih => exact ih.trans (List.suffix_cons _ _)
  | shared _ _ _ _ ih => exact ih.trans (List.suffix_cons _ _)

end HandOver

namespace Inner
variable [DecidableEq K]

omit [DecidableEq K] in
theorem spawnIdleInterval_eq (inner : Inner T K) :
    ∃ ref, inner.spawnIdleInterval = { inner with idleIntervalRef := ref } := by
  unfold spawnIdleInterval
  split
  · exact ⟨inner.idleIntervalRef,rfl⟩
  · split
    · split
      · exact ⟨true,rfl⟩
      · exact ⟨inner.idleIntervalRef,rfl⟩
    · exact ⟨inner.idleIntervalRef,rfl⟩

def queue (inner : Inner T K) (key : K) : List ℕ := (inner.waiters key).getD []

def idleList (inner : Inner T K) (key : K) : List (Idle T) := (inner.idle key).getD []

section Put
variable [Poolable T] (vanish : ℕ → Bool) (now : ℕ) (inner : Inner T K) (chans : Channels T K)
variable (key : K) (v : T)

/-- The outcomes of `put`: a shareable value is refused while the key has idle
connections; otherwise the value is handed over, refused by a full list, or stored. -/
inductive PutOutcome : Bool → Inner T K → Channels T K → Prop
  | refused : canShare v = true → (inner.idle key).isSome = true → PutOutcome false inner chans
  | handed {rest : List ℕ} {chans' : Channels T K} :
      HandOver vanish v (inner.queue key) chans none rest chans' →
      PutOutcome true
        { inner with waiters := mapSet inner.waiters key (if rest.isEmpty then none else some rest) }
        chans'
  | full {chans' : Channels T K} :
      HandOver vanish v (inner.queue key) chans (some v) [] chans' →
      (canShare v = true → inner.idle key = none) →
      inner.maxIdlePerHost ≤ (inner.idleList key).length →
      PutOutcome false
        { inner with
          waiters := mapSet inner.waiters key none
          idle := mapSet inner.idle key (some (inner.idleList key)) }
        chans'
  | stored {chans' : Channels T K} {ref : Bool} :
      HandOver vanish v (inner.queue key) chans (some v) [] chans' →
      (canShare v = true → inner.idle key = none) →
      (inner.idleList key).length < inner.maxIdlePerHost →
      PutOutcome true
        { inner with
          waiters := mapSet inner.waiters key none
          idle := mapSet inner.idle key (some (inner.idleList key ++ [⟨v,now⟩]))
          idleIntervalRef := ref }
        chans'

private theorem store_outcome {chans' : Channels T K}
    (hh : HandOver vanish v (inner.queue key) chans (some v) [] chans')
    (hs : canShare v = true → inner.idle key = none) :
    PutOutcome vanish now inner chans key v
      (store { inner with waiters := mapSet inner.waiters key none } now key v).1
      (store { inner with waiters := mapSet inner.waiters key none } now key v).2 chans' := by
  unfold store
  dsimp only
  split
  · rename_i hfull
    exact .full hh hs hfull
  · rename_i hroom
    obtain ⟨ref,href⟩ := spawnIdleInterval_eq
      ({ inner with
          waiters := mapSet inner.waiters key none
          idle := mapSet inner.idle key (some (inner.idleList key ++ [⟨v,now⟩])) } : Inner T K)
    change PutOutcome vanish now inner chans key v true
      (spawnIdleInterval
        { inner with
          waiters := mapSet inner.waiters key none
          idle := mapSet inner.idle key (some (inner.idleList key ++ [⟨v,now⟩])) }) chans'
    rw [href]
    exact .stored hh hs (Nat.lt_of_not_ge hroom)

/-- `put` always returns, with one of these outcomes. -/
theorem put_outcome :
    ∃ kept inner' chans', inner.put vanish now chans key v = some (kept,inner',chans') ∧
      PutOutcome vanish now inner chans key v kept inner' chans' := by
  unfold put
  by_cases hr : (canShare v && (inner.idle key).isSome) = true
  · rw [if_pos hr]
    rw [Bool.and_eq_true] at hr
    exact ⟨false,inner,chans,rfl,.refused hr.1 hr.2⟩
  · rw [if_neg hr]
    have hs : canShare v = true → inner.idle key = none := by
      intro hv
      cases hi : inner.idle key with
      | none => rfl
      | some l => simp [hv,hi] at hr
    cases hw : inner.waiters key with
    | none =>
      have hh : HandOver vanish v (inner.queue key) chans (some v) [] chans := by
        simpa [queue,hw] using HandOver.exhausted
      have ho := store_outcome vanish now inner chans key v hh hs
      rw [mapSet_eq_self inner.waiters hw] at ho
      exact ⟨_,_,chans,rfl,ho⟩
    | some q =>
      have hq : inner.queue key = q := by simp [queue,hw]
      obtain ⟨left,rest,chans',he,hh⟩ := putLoop_handOver vanish v q chans
      simp only [he]
      rw [← hq] at hh
      cases left with
      | none => exact ⟨true,_,chans',rfl,.handed hh⟩
      | some u =>
        obtain ⟨rfl,rfl⟩ := hh.left_some
        have ho := store_outcome vanish now inner chans key u hh hs
        exact ⟨_,_,chans',rfl,ho⟩

end Put
end Inner
end H12Tiny.Pool
