import H12Tiny.Pool.IdleLists

/-! # Holders of H1 slots

A slot is held by an establishment guard, by a checked-out connection, by an
idle entry or by a value on its way to a waiter. The four counts are followed
through the operations that move them: the release of a counter, the hand-over
loop and the idle popper.
-/
namespace H12Tiny.Pool
variable {T K : Type*} [DecidableEq K]

/-- One slot of `key` if the flag is set, seen from key `k`. -/
def slotAt (key : K) (flag : Bool) (k : K) : ℕ := (flag && decide (key = k)).toNat

@[simp] theorem slotAt_false (key k : K) : slotAt key false k = 0 := rfl

theorem slotAt_pos {key k : K} {flag : Bool} (h : 0 < slotAt key flag k) : flag = true ∧ key = k := by
  unfold slotAt at h
  cases flag with
  | false => simp at h
  | true =>
    by_cases hk : key = k
    · exact ⟨rfl,hk⟩
    · simp [hk] at h

namespace Inner

theorem h1Count_set (inner : Inner T K) (key : K) (n : ℕ) (k : K) :
    h1Count { inner with h1Connections := mapSet inner.h1Connections key (some n) } k =
      if k = key then n else inner.h1Count k := by
  unfold h1Count
  dsimp only
  by_cases hk : k = key
  · subst hk; simp
  · simp [mapSet_ne _ _ hk,hk]

theorem h1Count_set_self (inner : Inner T K) (key k : K) :
    h1Count { inner with h1Connections := mapSet inner.h1Connections key (some (inner.h1Count key)) } k =
      inner.h1Count k := by
  rw [h1Count_set]
  split
  next hk => rw [hk]
  next => rfl

theorem h1Count_release (inner : Inner T K) (key k : K) :
    (inner.releaseH1Slot key).h1Count k = inner.h1Count k - slotAt key true k := by
  unfold releaseH1Slot
  dsimp only
  by_cases hk : key = k
  · subst hk
    cases hc : inner.h1Connections key with
    | none => simp [h1Count,hc]
    | some n =>
      by_cases hn : n - 1 = 0
      · simp [h1Count,hn,hc,slotAt]
      · simp [h1Count,hn,hc,slotAt]
  · have hk' : k ≠ key := fun h => hk h.symm
    have hz : slotAt key true k = 0 := by simp [slotAt,hk]
    rw [hz,Nat.sub_zero]
    split
    · rfl
    · split <;> simp [h1Count,mapSet_ne _ _ hk']

theorem releasedAtZero_release (inner : Inner T K) (key : K) :
    (inner.releaseH1Slot key).releasedAtZero =
      (inner.releasedAtZero || inner.h1Count key == 0) := by
  unfold releaseH1Slot
  dsimp only
  split
  · rfl
  · split <;> rfl

end Inner

section Holders
variable [Poolable T]

def guardSlots (guards : Table (Connecting K)) (k : K) : ℕ :=
  guards.count (fun guard => guard.h1Slot && decide (guard.key = k))
def pooledSlots (pooled : Table (Pooled T K)) (k : K) : ℕ :=
  pooled.count (fun item => item.h1Slot && decide (item.key = k))
def uniqueEntries (list : List (Idle T)) : ℕ := list.countP (fun entry => !canShare entry.value)
def idleSlots (idle : K → Option (List (Idle T))) (k : K) : ℕ := uniqueEntries ((idle k).getD [])

/-- A non-shareable value was sent and its receiver is alive and has not taken it. -/
def inFlight (x : Waiter T K) : Bool := x.chan.receiver && x.chan.slot.any (fun v => !canShare v)

def flightSlots (chans : Channels T K) (k : K) : ℕ :=
  chans.count (fun x => inFlight x && decide (x.key = k))

/-- The live holders of a key's H1 slots. -/
def holders (w : World T K) (k : K) : ℕ :=
  guardSlots w.guards k + pooledSlots w.pooled k + idleSlots w.inner.idle k + flightSlots w.chans k

omit [Poolable T] in
theorem pooledSlots_alloc (pooled : Table (Pooled T K)) (item : Pooled T K) (k : K) :
    pooledSlots (pooled.alloc item) k = pooledSlots pooled k + slotAt item.key item.h1Slot k :=
  Table.count_alloc _ _ _
omit [Poolable T] in
theorem pooledSlots_remove {pooled : Table (Pooled T K)} {p : ℕ} {item : Pooled T K}
    (h : pooled.get p = some item) (k : K) :
    pooledSlots (pooled.remove p) k + slotAt item.key item.h1Slot k = pooledSlots pooled k :=
  Table.count_remove _ _ h
theorem guardSlots_alloc (guards : Table (Connecting K)) (guard : Connecting K) (k : K) :
    guardSlots (guards.alloc guard) k = guardSlots guards k + slotAt guard.key guard.h1Slot k :=
  Table.count_alloc _ _ _
theorem guardSlots_remove {guards : Table (Connecting K)} {g : ℕ} {guard : Connecting K}
    (h : guards.get g = some guard) (k : K) :
    guardSlots (guards.remove g) k + slotAt guard.key guard.h1Slot k = guardSlots guards k :=
  Table.count_remove _ _ h
theorem guardSlots_clear {guards : Table (Connecting K)} {g : ℕ} {guard : Connecting K} (pool : Bool)
    (h : guards.get g = some guard) (k : K) :
    guardSlots (guards.modify g (fun guard => { guard with h1Slot := false, pool := pool })) k +
      slotAt guard.key guard.h1Slot k = guardSlots guards k :=
  Table.count_modify (fun guard : Connecting K => guard.h1Slot && decide (guard.key = k)) _ _ h

theorem flightSlots_modify {chans : Channels T K} {i : ℕ} {x : Waiter T K} (f : Waiter T K → Waiter T K)
    (hx : chans.get i = some x) (hk : (f x).key = x.key) (k : K) :
    flightSlots (chans.modify i f) k + slotAt x.key (inFlight x) k =
      flightSlots chans k + slotAt x.key (inFlight (f x)) k := by
  have h := Table.count_modify (fun x : Waiter T K => inFlight x && decide (x.key = k)) chans f hx
  rw [hk] at h
  exact h

omit [DecidableEq K] in
theorem inFlight_vacant {x : Waiter T K} (h : x.chan.slot = none) : inFlight x = false := by
  simp [inFlight,h]

theorem flightSlots_channel (chans : Channels T K) (key k : K) :
    flightSlots (chans.alloc ⟨key,Oneshot.channel⟩) k = flightSlots chans k := by
  have h := Table.count_alloc (fun x : Waiter T K => inFlight x && decide (x.key = k)) chans
    ⟨key,Oneshot.channel⟩
  exact h

theorem flightSlots_received {chans : Channels T K} {i : ℕ} {x : Waiter T K}
    (hx : chans.get i = some x) (k : K) :
    flightSlots (chans.modify i Channels.received) k + slotAt x.key (inFlight x) k =
      flightSlots chans k := by
  have h := flightSlots_modify Channels.received hx rfl k
  have hv : inFlight (Channels.received x) = false := inFlight_vacant rfl
  rw [hv,slotAt_false,Nat.add_zero] at h
  exact h

omit [DecidableEq K] in
theorem inFlight_abandoned (x : Waiter T K) : inFlight (Channels.abandoned x) = inFlight x := by
  simp [inFlight,Channels.abandoned]

theorem flightSlots_dropSenders (chans : Channels T K) (ids : List ℕ) (k : K) :
    flightSlots (chans.dropSenders ids) k = flightSlots chans k := by
  apply Table.count_congr
  · exact Channels.next_dropSenders chans ids
  · intro i
    rw [Channels.get_dropSenders]
    split
    · cases chans.get i with
      | none => rfl
      | some x =>
        simp only [Option.map_some,Option.any_some,inFlight_abandoned]
        rfl
    · rfl

/-- The hand-over puts one non-shareable value in flight exactly when it consumes
the value. -/
theorem HandOver.flightSlots {vanish : ℕ → Bool} {v : T} {key : K} {q rest : List ℕ}
    {chans chans' : Channels T K} {left : Option T}
    (hh : HandOver vanish v q chans left rest chans')
    (hq : ∀ i ∈ q, ∃ x, chans.get i = some x ∧ x.key = key ∧ x.chan.slot = none) (hn : q.Nodup)
    (k : K) : flightSlots chans' k = Pool.flightSlots chans k + slotAt key left.isNone k := by
  have hstep : ∀ {i : ℕ} {ws : List ℕ} {chans : Channels T K} {f : Waiter T K → Waiter T K},
      (∀ x, (f x).key = x.key) →
      (∀ j ∈ i :: ws, ∃ x, chans.get j = some x ∧ x.key = key ∧ x.chan.slot = none) →
      (i :: ws).Nodup →
      (∃ x, chans.get i = some x ∧ x.key = key ∧ x.chan.slot = none ∧
        Pool.flightSlots (chans.modify i f) k = Pool.flightSlots chans k + slotAt key (inFlight (f x)) k) ∧
      ∀ j ∈ ws, ∃ x, (chans.modify i f).get j = some x ∧ x.key = key ∧ x.chan.slot = none := by
    intro i ws chans f hk hq hn
    obtain ⟨x,hx,hxk,hxs⟩ := hq i List.mem_cons_self
    have hm := flightSlots_modify f hx (hk x) k
    rw [inFlight_vacant hxs,slotAt_false,hxk,Nat.add_zero] at hm
    refine ⟨⟨x,hx,hxk,hxs,hm⟩,?_⟩
    intro j hj
    have hne : j ≠ i := fun he => (List.nodup_cons.mp hn).1 (he ▸ hj)
    rw [Table.get_modify_ne _ _ hne]
    exact hq j (List.mem_cons_of_mem _ hj)
  induction hh with
  | exhausted => simp
  | @unique i ws chans hc hv hs =>
    obtain ⟨⟨x,hx,_,_,he⟩,_⟩ := hstep (Channels.delivered_key v) hq hn
    obtain ⟨y,hy,hr⟩ := Channels.receiver_of_not_canceled hc
    rw [hx] at hy
    cases hy
    have hf : inFlight (Channels.delivered v x) = true := by
      simp [inFlight,Channels.delivered,hr,hs]
    rw [he,hf]
    rfl
  | @canceled i ws rest chans chans' left hc _ ih =>
    obtain ⟨⟨x,_,_,hxs,he⟩,hq'⟩ := hstep Channels.abandoned_key hq hn
    have hf : inFlight (Channels.abandoned x) = false := by
      rw [inFlight_abandoned,inFlight_vacant hxs]
    rw [ih hq' (List.nodup_cons.mp hn).2,he,hf,slotAt_false,Nat.add_zero]
  | @vanished i ws rest chans chans' left hc hv _ ih =>
    obtain ⟨⟨x,_,_,_,he⟩,hq'⟩ := hstep Channels.vanished_key hq hn
    have hf : inFlight (Channels.vanished x) = false := by simp [inFlight,Channels.vanished]
    rw [ih hq' (List.nodup_cons.mp hn).2,he,hf,slotAt_false,Nat.add_zero]
  | @shared i ws rest chans chans' left hc hv hs _ ih =>
    obtain ⟨⟨x,_,_,_,he⟩,hq'⟩ := hstep (Channels.delivered_key v) hq hn
    have hf : inFlight (Channels.delivered v x) = false := by
      simp [inFlight,Channels.delivered,hs]
    rw [ih hq' (List.nodup_cons.mp hn).2,he,hf,slotAt_false,Nat.add_zero]

theorem idleSlots_set (idle : K → Option (List (Idle T))) (key : K) (list : Option (List (Idle T)))
    (k : K) : idleSlots (mapSet idle key list) k =
      if k = key then uniqueEntries (list.getD []) else idleSlots idle k := by
  unfold idleSlots
  rw [mapSet_apply]
  split <;> rfl

omit [DecidableEq K] in
theorem uniqueEntries_push (list : List (Idle T)) (v : T) (now : ℕ) :
    uniqueEntries (list ++ [⟨v,now⟩]) = uniqueEntries list + (!canShare v).toNat := by
  unfold uniqueEntries
  rw [List.countP_append,List.countP_singleton]
  cases canShare v <;> rfl

/-- `put` moves a non-shareable value into a channel or the idle list exactly when
it reports that the value was kept. -/
theorem Inner.PutOutcome.slots {vanish : ℕ → Bool} {now : ℕ} {inner inner' : Inner T K}
    {chans chans' : Channels T K} {key : K} {v : T} {kept : Bool}
    (ho : PutOutcome vanish now inner chans key v kept inner' chans')
    (h : QueuesOk inner.queue chans) (k : K) :
    idleSlots inner'.idle k + flightSlots chans' k =
      idleSlots inner.idle k + flightSlots chans k + slotAt key (kept && !canShare v) k := by
  have hq : ∀ i ∈ inner.queue key, ∃ x, chans.get i = some x ∧ x.key = key ∧ x.chan.slot = none := by
    intro i hi
    obtain ⟨x,hx,hxk,hs⟩ := h.queued hi
    exact ⟨x,hx,hxk,h.vacant hx hs⟩
  have hn := h.nodup key
  cases ho with
  | refused => simp
  | handed hh =>
    have hf := hh.flightSlots hq hn k
    have hs := hh.left_none
    rw [hf]
    simp only [Option.isNone_none,hs,Bool.not_false,Bool.and_true]
    rw [Nat.add_assoc]
  | full hh =>
    have hf := hh.flightSlots hq hn k
    rw [hf,idleSlots_set]
    split
    · rename_i hk
      subst hk
      simp [idleSlots,Inner.idleList]
    · simp
  | stored hh =>
    have hf := hh.flightSlots hq hn k
    rw [hf,idleSlots_set,Option.isNone_some,slotAt_false,Bool.true_and]
    by_cases hk : k = key
    · subst hk
      rw [if_pos rfl,Option.getD_some,uniqueEntries_push]
      simp only [idleSlots,Inner.idleList,slotAt,decide_true,Bool.and_true]
      omega
    · have hne : key ≠ k := fun h => hk h.symm
      simp [hk,hne,slotAt]

end Holders
end H12Tiny.Pool
