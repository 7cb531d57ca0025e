import H12Tiny.Pool.Handover

/-! # What becomes of a returned connection

`put` said without its loop. Of the waiters that leave the queue some receive the
value and all others are discarded; whether a waiter accepts the value depends only on
its receiver, which may be gone when it is looked at or when the value is sent.
-/
namespace H12Tiny.Pool
variable {T K : Type*}

namespace Channels

/-- The receiver is there when it is looked at and when the value is sent. -/
def accepts (vanish : ℕ → Bool) (chans : Channels T K) (i : ℕ) : Bool := !chans.isCanceled i && !vanish i

def discarded (x : Waiter T K) : Waiter T K := if x.chan.receiver then vanished x else abandoned x

/-- The channels after the waiters in `gone` have left the queue and those in `recipients`
have been sent the value. -/
def passed (chans : Channels T K) (v : T) (gone recipients : List ℕ) : Channels T K where
  get j := (chans.get j).map fun x =>
    if j ∈ recipients then delivered v x else if j ∈ gone then discarded x else x
  next := chans.next
  fresh j h := Option.map_eq_none_iff.mpr (chans.fresh j h)

theorem get_passed (chans : Channels T K) (v : T) (gone recipients : List ℕ) (j : ℕ) :
    (chans.passed v gone recipients).get j =
      (chans.get j).map fun x =>
        if j ∈ recipients then delivered v x else if j ∈ gone then discarded x else x := rfl

theorem passed_nil (chans : Channels T K) (v : T) : chans.passed v [] [] = chans := by
  apply Table.ext
  · funext j
    rw [get_passed]
    simp
  · rfl

theorem accepts_eq (vanish : ℕ → Bool) (chans : Channels T K) (i : ℕ) :
    accepts vanish chans i = ((chans.get i).any (fun x => x.chan.receiver) && !vanish i) := by
  rw [accepts,isCanceled]
  cases chans.get i with
  | none => rfl
  | some x => simp [Oneshot.isCanceled]

theorem accepts_modify {vanish : ℕ → Bool} {chans : Channels T K} {i : ℕ} {f : Waiter T K → Waiter T K}
    (h : ∀ x, chans.get i = some x → vanish i = false → (f x).chan.receiver = x.chan.receiver) (j : ℕ) :
    accepts vanish (chans.modify i f) j = accepts vanish chans j := by
  rw [accepts_eq,accepts_eq,Table.get_modify]
  split
  next hj =>
    subst hj
    cases hx : chans.get j with
    | none => rfl
    | some x =>
      cases hv : vanish j with
      | true => simp
      | false => simp [h x hx hv]
  next => rfl

theorem discarded_of_gone {x : Waiter T K} (h : x.chan.receiver = false) (hs : x.chan.sender ≠ .held) :
    discarded x = x := by
  rcases x with ⟨key,sender,receiver,slot⟩
  cases h
  cases sender with
  | held => exact absurd rfl hs
  | sent => rfl
  | dropped => rfl

theorem discarded_discarded (x : Waiter T K) : discarded (discarded x) = discarded x := by
  apply discarded_of_gone
  · rw [discarded]
    split
    · exact Oneshot.dropSender_receiver _
    next h =>
      rw [Bool.not_eq_true] at h
      exact (Oneshot.dropSender_receiver _).trans h
  · rw [discarded]
    split
    · exact vanished_not_held x
    · exact abandoned_not_held x

theorem passed_modify {vanish : ℕ → Bool} {chans : Channels T K} {v : T} {i : ℕ} {f : Waiter T K → Waiter T K}
    (gone : List ℕ)
    (h : ∀ x, chans.get i = some x → f x = if accepts vanish chans i then delivered v x else discarded x) :
    passed (chans.modify i f) v gone (gone.filter (accepts vanish chans)) =
      chans.passed v (i :: gone) ((i :: gone).filter (accepts vanish chans)) := by
  apply Table.ext
  · funext j
    rw [get_passed,get_passed,Table.get_modify]
    by_cases hj : j = i
    · subst hj
      cases hx : chans.get j with
      | none => simp
      | some x =>
        cases ha : accepts vanish chans j with
        | true =>
          simp only [h x hx,ha,if_true,Option.map_some,List.mem_filter,and_true,List.mem_cons,true_or]
          by_cases hmem : j ∈ gone
          · simp [hmem,delivered]
          · simp [hmem]
        | false =>
          simp only [h x hx,ha,Bool.false_eq_true,if_false,Option.map_some,List.mem_filter,and_false,
            List.mem_cons,true_or,if_true]
          by_cases hmem : j ∈ gone
          · simp [hmem,discarded_discarded]
          · simp [hmem]
    · simp [hj,List.mem_filter]
  · rfl

end Channels

section Served
variable [Poolable T] {vanish : ℕ → Bool} {v : T}

private theorem discard_first {accepts : ℕ → Bool} {i : ℕ} {gone : List ℕ} (hno : accepts i = false)
    (h : ∃ before j, gone = before ++ [j] ∧ accepts j = true ∧ ∀ k ∈ before, accepts k = false) :
    ∃ before j, i :: gone = before ++ [j] ∧ accepts j = true ∧ ∀ k ∈ before, accepts k = false := by
  obtain ⟨before,j,rfl,hj,hbefore⟩ := h
  exact ⟨i :: before,j,rfl,hj,List.forall_mem_cons.mpr ⟨hno,hbefore⟩⟩

/-- Who leaves the queue in the hand-over loop: up to the first waiter that accepts for a
value that is given away, everyone for a value that is left. -/
theorem HandOver.passed {queue rest : List ℕ} {chans chans' : Channels T K} {left : Option T}
    (h : HandOver vanish v queue chans left rest chans') :
    ∃ gone, queue = gone ++ rest ∧
      chans' = chans.passed v gone (gone.filter (chans.accepts vanish)) ∧
      (left = none → ∃ before i, gone = before ++ [i] ∧ chans.accepts vanish i = true ∧
        ∀ j ∈ before, chans.accepts vanish j = false) ∧
      (left.isSome → canShare v = false → ∀ j ∈ gone, chans.accepts vanish j = false) := by
  induction h with
  | @exhausted chans => exact ⟨[],rfl,(chans.passed_nil v).symm,nofun,fun _ _ => List.forall_mem_nil _⟩
  | @canceled i ws rest chans chans' left hc _ ih =>
    have hno : chans.accepts vanish i = false := by simp [Channels.accepts,hc]
    have hreceiver : ∀ x, chans.get i = some x → x.chan.receiver = false := by
      intro x hx
      simpa [Channels.isCanceled_of_some hx] using hc
    have hsame : Channels.accepts vanish (chans.modify i Channels.abandoned) = chans.accepts vanish :=
      funext (Channels.accepts_modify fun x _ _ => Oneshot.dropSender_receiver _)
    obtain ⟨gone,rfl,rfl,hnone,hsome⟩ := ih
    rw [hsame] at hnone hsome
    rw [hsame,Channels.passed_modify gone (fun x hx => by simp [hno,Channels.discarded,hreceiver x hx])]
    exact ⟨i :: gone,rfl,rfl,fun hl => discard_first hno (hnone hl),
      fun hl hs => List.forall_mem_cons.mpr ⟨hno,hsome hl hs⟩⟩
  | @vanished i ws rest chans chans' left hc hv _ ih =>
    have hno : chans.accepts vanish i = false := by simp [Channels.accepts,hv]
    obtain ⟨x,hx,hr⟩ := Channels.receiver_of_not_canceled hc
    have hsame : Channels.accepts vanish (chans.modify i Channels.vanished) = chans.accepts vanish :=
      funext (Channels.accepts_modify fun _ _ hfalse => absurd hv (by simp [hfalse]))
    obtain ⟨gone,rfl,rfl,hnone,hsome⟩ := ih
    rw [hsame] at hnone hsome
    rw [hsame,Channels.passed_modify gone (fun y hy => by
      rw [hx] at hy
      cases hy
      simp [hno,Channels.discarded,hr])]
    exact ⟨i :: gone,rfl,rfl,fun hl => discard_first hno (hnone hl),
      fun hl hs => List.forall_mem_cons.mpr ⟨hno,hsome hl hs⟩⟩
  | @unique i ws chans hc hv hs =>
    have hyes : chans.accepts vanish i = true := by simp [Channels.accepts,hc,hv]
    refine ⟨[i],rfl,?_,fun _ => ⟨[],i,rfl,hyes,List.forall_mem_nil _⟩,nofun⟩
    rw [← Channels.passed_modify [] (f := Channels.delivered v) (fun x _ => by simp [hyes])]
    exact (Channels.passed_nil _ v).symm
  | @shared i ws rest chans chans' left hc hv hs hrest ih =>
    have hyes : chans.accepts vanish i = true := by simp [Channels.accepts,hc,hv]
    have hsame : Channels.accepts vanish (chans.modify i (Channels.delivered v)) = chans.accepts vanish :=
      funext (Channels.accepts_modify fun _ _ _ => rfl)
    obtain ⟨gone,rfl,rfl,_,_⟩ := ih
    rw [hsame,Channels.passed_modify gone (fun x _ => by simp [hyes])]
    refine ⟨i :: gone,rfl,rfl,?_,fun _ hns => ?_⟩
    · rintro rfl
      rw [hrest.left_none] at hs
      cases hs
    · rw [hs] at hns
      cases hns

end Served

namespace Inner
variable [DecidableEq K] [Poolable T] (vanish : ℕ → Bool) (now : ℕ) (inner : Inner T K) (chans : Channels T K)
variable (key : K) (v : T)

/-- What `put` does with a value, with the waiters that receive it. -/
inductive Returned : Bool → Inner T K → Channels T K → List ℕ → Prop
  | present : canShare v = true → (inner.idle key).isSome = true → Returned false inner chans []
  | shared {ref : Bool} : canShare v = true → inner.idle key = none →
      Returned true
        { inner with
          waiters := mapSet inner.waiters key none
          idle := mapSet inner.idle key (some [⟨v,now⟩])
          idleIntervalRef := ref }
        (chans.passed v (inner.queue key) ((inner.queue key).filter (chans.accepts vanish)))
        ((inner.queue key).filter (chans.accepts vanish))
  | served {before after : List ℕ} {i : ℕ} : canShare v = false → inner.queue key = before ++ i :: after →
      (∀ j ∈ before, chans.accepts vanish j = false) → chans.accepts vanish i = true →
      Returned true
        { inner with waiters := mapSet inner.waiters key (if after.isEmpty then none else some after) }
        (chans.passed v (before ++ [i]) [i]) [i]
  | stored {ref : Bool} : canShare v = false → (∀ j ∈ inner.queue key, chans.accepts vanish j = false) →
      (inner.idleList key).length < inner.maxIdlePerHost →
      Returned true
        { inner with
          waiters := mapSet inner.waiters key none
          idle := mapSet inner.idle key (some (inner.idleList key ++ [⟨v,now⟩]))
          idleIntervalRef := ref }
        (chans.passed v (inner.queue key) []) []
  | dropped : canShare v = false → (∀ j ∈ inner.queue key, chans.accepts vanish j = false) →
      inner.maxIdlePerHost ≤ (inner.idleList key).length →
      Returned false { inner with waiters := mapSet inner.waiters key none }
        (chans.passed v (inner.queue key) []) []

variable {vanish now inner chans key v}

private theorem filter_last {accepts : ℕ → Bool} {before : List ℕ} {i : ℕ}
    (hbefore : ∀ j ∈ before, accepts j = false) (hi : accepts i = true) :
    (before ++ [i]).filter accepts = [i] := by
  have hnone : before.filter accepts = [] := List.filter_eq_nil_iff.mpr fun j hj => by simp [hbefore j hj]
  simp [hnone,hi]

omit [DecidableEq K] [Poolable T] in
private theorem idle_of_full (hmax : 0 < inner.maxIdlePerHost)
    (hfull : inner.maxIdlePerHost ≤ (inner.idleList key).length) :
    inner.idle key = some (inner.idleList key) := by
  cases hi : inner.idle key with
  | none =>
    rw [idleList,hi] at hfull
    exact absurd (Nat.lt_of_lt_of_le hmax hfull) (Nat.lt_irrefl 0)
  | some list => simp [idleList,hi]

theorem PutOutcome.returned (hmax : 0 < inner.maxIdlePerHost) {kept : Bool} {inner' : Inner T K}
    {chans' : Channels T K} (ho : PutOutcome vanish now inner chans key v kept inner' chans') :
    ∃ recipients, Returned vanish now inner chans key v kept inner' chans' recipients := by
  cases ho with
  | refused hs hi => exact ⟨[],.present hs hi⟩
  | handed hh =>
    obtain ⟨gone,hqueue,rfl,hnone,-⟩ := hh.passed
    obtain ⟨before,i,rfl,hi,hbefore⟩ := hnone rfl
    rw [filter_last hbefore hi]
    exact ⟨[i],.served hh.left_none (by simpa using hqueue) hbefore hi⟩
  | full hh hidle hfull =>
    obtain ⟨gone,hqueue,rfl,-,hsome⟩ := hh.passed
    obtain rfl : inner.queue key = gone := by simpa using hqueue
    have hstored := idle_of_full hmax hfull
    have hs : canShare v = false := by
      by_contra hshare
      rw [hidle (Bool.of_not_eq_false hshare)] at hstored
      cases hstored
    have hno := hsome rfl hs
    rw [List.filter_eq_nil_iff.mpr fun j hj => by simp [hno j hj],mapSet_eq_self inner.idle hstored]
    exact ⟨[],.dropped hs hno hfull⟩
  | stored hh hidle hroom =>
    obtain ⟨gone,hqueue,rfl,-,hsome⟩ := hh.passed
    obtain rfl : inner.queue key = gone := by simpa using hqueue
    cases hs : canShare v with
    | true =>
      have hnone := hidle hs
      have hempty : inner.idleList key = [] := by simp [idleList,hnone]
      rw [hempty]
      exact ⟨_,.shared hs hnone⟩
    | false =>
      have hno := hsome rfl hs
      rw [List.filter_eq_nil_iff.mpr fun j hj => by simp [hno j hj]]
      exact ⟨[],.stored hs hno hroom⟩

theorem Returned.kept_iff {kept : Bool} {inner' : Inner T K} {chans' : Channels T K} {recipients : List ℕ}
    (h : Returned vanish now inner chans key v kept inner' chans' recipients) :
    kept = false ↔ recipients = [] ∧ inner'.idle key = inner.idle key := by
  cases h with
  | present => simp
  | shared _ hnone => simp [hnone]
  | served => simp
  | stored _ _ hroom =>
    simp only [Bool.true_eq_false,mapSet_self,true_and,false_iff]
    intro he
    have hlist : inner.idleList key = inner.idleList key ++ [⟨v,now⟩] :=
      congrArg (fun list => list.getD []) he.symm
    have hlength := congrArg List.length hlist
    simp at hlength
  | dropped => simp

/-- Nothing but the queue and the idle list of the key changes, and the sweeper that a
stored value may start. -/
theorem Returned.frame {kept : Bool} {inner' : Inner T K} {chans' : Channels T K} {recipients : List ℕ}
    (h : Returned vanish now inner chans key v kept inner' chans' recipients) :
    (∀ other, other ≠ key → inner'.waiters other = inner.waiters other ∧ inner'.idle other = inner.idle other) ∧
    inner' = { inner with
      waiters := inner'.waiters, idle := inner'.idle, idleIntervalRef := inner'.idleIntervalRef } ∧
    ∀ j, j ∉ inner.queue key → chans'.get j = chans.get j := by
  have hpassed : ∀ {gone recipients : List ℕ} {j : ℕ}, j ∉ gone → j ∉ recipients →
      (chans.passed v gone recipients).get j = chans.get j := by
    intro gone recipients j hgone hrecipients
    simp [Channels.get_passed,hgone,hrecipients]
  cases h with
  | present => exact ⟨fun _ _ => ⟨rfl,rfl⟩,rfl,fun _ _ => rfl⟩
  | shared =>
    refine ⟨fun other hne => ⟨mapSet_ne _ _ hne,mapSet_ne _ _ hne⟩,rfl,fun j hj => hpassed hj ?_⟩
    exact fun hmem => hj (List.mem_filter.mp hmem).1
  | served _ hqueue =>
    refine ⟨fun other hne => ⟨mapSet_ne _ _ hne,rfl⟩,rfl,fun j hj => ?_⟩
    rw [hqueue] at hj
    exact hpassed (fun hmem => hj (by simp at hmem ⊢; tauto)) (fun hmem => hj (by simp at hmem ⊢; tauto))
  | stored =>
    exact ⟨fun other hne => ⟨mapSet_ne _ _ hne,mapSet_ne _ _ hne⟩,rfl,fun j hj => hpassed hj List.not_mem_nil⟩
  | dropped => exact ⟨fun other hne => ⟨mapSet_ne _ _ hne,rfl⟩,rfl,fun j hj => hpassed hj List.not_mem_nil⟩

/-- `put` returns, whatever receivers vanish while it runs. It hands the value to the waiters
that accept it or stores it, touches no other key, and answers `false` exactly when the value
is kept nowhere. -/
theorem put_returned (vanish : ℕ → Bool) (now : ℕ) {inner : Inner T K} (chans : Channels T K) (key : K) (v : T)
    (hmax : 0 < inner.maxIdlePerHost) :
    ∃ kept inner' chans' recipients, inner.put vanish now chans key v = some (kept,inner',chans') ∧
      Returned vanish now inner chans key v kept inner' chans' recipients ∧
      (kept = false ↔ recipients = [] ∧ inner'.idle key = inner.idle key) ∧
      (∀ other, other ≠ key →
        inner'.waiters other = inner.waiters other ∧ inner'.idle other = inner.idle other) ∧
      inner' = { inner with
        waiters := inner'.waiters, idle := inner'.idle, idleIntervalRef := inner'.idleIntervalRef } ∧
      ∀ j, j ∉ inner.queue key → chans'.get j = chans.get j := by
  obtain ⟨kept,inner',chans',hput,ho⟩ := put_outcome vanish now inner chans key v
  obtain ⟨recipients,hr⟩ := ho.returned hmax
  exact ⟨kept,inner',chans',recipients,hput,hr,hr.kept_iff,hr.frame⟩

/-- Two waiters of one key, the first of which has gone. -/
def twoWaiters : Channels PoolClient ℕ :=
  ((Table.empty.alloc ⟨0,Oneshot.channel.dropReceiver⟩).alloc ⟨0,Oneshot.channel⟩)

def waitedFor : Inner PoolClient ℕ where
  connecting _ := false
  h1Connections _ := none
  idle _ := none
  maxIdlePerHost := 1
  maxH1ConnectionsPerHost := 1
  waiters := mapSet (fun _ => none) 0 (some [0,1])
  idleIntervalRef := false
  timer := false
  timeout := none
  releasedAtZero := false

theorem put_returned_second :
    (waitedFor.put (fun _ => false) 0 twoWaiters 0 ⟨.http1 7⟩).map Prod.fst = some true ∧
    ∃ kept inner' chans' recipients,
      waitedFor.put (fun _ => false) 0 twoWaiters 0 ⟨.http1 7⟩ = some (kept,inner',chans') ∧
      Returned (fun _ => false) 0 waitedFor twoWaiters 0 ⟨.http1 7⟩ kept inner' chans' recipients := by
  refine ⟨rfl,?_⟩
  obtain ⟨kept,inner',chans',recipients,hput,hr,-⟩ :=
    @put_returned _ _ _ _ (fun _ => false) 0 waitedFor twoWaiters 0 ⟨.http1 7⟩ Nat.one_pos
  exact ⟨kept,inner',chans',recipients,hput,hr⟩

end Inner
end H12Tiny.Pool
