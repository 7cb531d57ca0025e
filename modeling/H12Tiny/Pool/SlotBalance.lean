import H12Tiny.Pool.SlotHolders
import Mathlib.Data.List.TakeWhile

/-! # The balance of H1 slots

Every transition moves the counter of a key and the number of its holders. A slot
is leaked when a holder goes away without the counter, and found when a holder
appears without it. The steps that can leak and those that can find one are named
exactly; the bounds between counter and holders follow from the balance alone.
-/
namespace H12Tiny.Pool
variable {T K : Type*} [DecidableEq K]

/-- The part of the locked state that slot accounting reads. -/
def Inner.counters (inner : Inner T K) : (K → ℕ) × ℕ × Bool :=
  (inner.h1Count,inner.maxH1ConnectionsPerHost,inner.releasedAtZero)

def Inner.releaseIf (flag : Bool) (inner : Inner T K) (key : K) : Inner T K :=
  if flag then inner.releaseH1Slot key else inner

theorem Inner.counters_releaseIf (flag : Bool) (inner : Inner T K) (key : K) :
    (inner.releaseIf flag key).counters =
      (fun k => inner.h1Count k - slotAt key flag k,inner.maxH1ConnectionsPerHost,
        inner.releasedAtZero || (flag && inner.h1Count key == 0)) := by
  cases flag with
  | false => simp [releaseIf,counters]
  | true =>
    simp only [releaseIf,if_true,counters,releasedAtZero_release,Bool.true_and,
      releaseH1Slot_maxH1ConnectionsPerHost]
    rw [show (inner.releaseH1Slot key).h1Count = fun k => inner.h1Count k - slotAt key true k from
      funext (h1Count_release inner key)]

theorem Inner.releaseIf_congr {inner inner' : Inner T K} (h : inner'.counters = inner.counters)
    (flag : Bool) (key : K) : (inner'.releaseIf flag key).counters = (inner.releaseIf flag key).counters := by
  have hc : inner'.h1Count = inner.h1Count := congrArg Prod.fst h
  have hm : inner'.maxH1ConnectionsPerHost = inner.maxH1ConnectionsPerHost :=
    congrArg (fun c => c.2.1) h
  have hz : inner'.releasedAtZero = inner.releasedAtZero := congrArg (fun c => c.2.2) h
  rw [counters_releaseIf,counters_releaseIf,hc,hm,hz]

theorem Inner.PutOutcome.counters_eq [Poolable T] {vanish : ℕ → Bool} {now : ℕ} {inner inner' : Inner T K}
    {chans chans' : Channels T K} {key : K} {v : T} {kept : Bool}
    (ho : PutOutcome vanish now inner chans key v kept inner' chans') :
    inner'.counters = inner.counters := by
  cases ho <;> rfl

theorem Inner.connectingCancelled_counters (inner : Inner T K) (chans : Channels T K) (key : K)
    (flag : Bool) :
    (inner.connectingCancelled chans key flag).1.counters = (inner.releaseIf flag key).counters := by
  cases flag <;> rfl

section Effect
variable [Poolable T]

structure SlotEffect (w w' : World T K) (acquired released leaked found : K → ℕ) : Prop where
  count : ∀ k, w'.inner.h1Count k = w.inner.h1Count k + acquired k - released k
  room : ∀ k, 0 < acquired k →
    acquired k = 1 ∧ released k = 0 ∧ w.inner.h1Count k < w.inner.maxH1ConnectionsPerHost
  zero : w'.inner.releasedAtZero = true →
    w.inner.releasedAtZero = true ∨ ∃ k, 0 < released k ∧ w.inner.h1Count k = 0
  cap : w'.inner.maxH1ConnectionsPerHost = w.inner.maxH1ConnectionsPerHost
  balance : ∀ k, holders w' k + released k + leaked k = holders w k + acquired k + found k

variable {w w' : World T K} {leaked found : K → ℕ}

theorem SlotEffect.release (key : K) (flag : Bool)
    (hc : w'.inner.counters = (w.inner.releaseIf flag key).counters)
    (hb : ∀ k, holders w' k + slotAt key flag k + leaked k = holders w k + found k) :
    SlotEffect w w' (fun _ => 0) (slotAt key flag) leaked found := by
  rw [Inner.counters_releaseIf] at hc
  have hcount := congrFun (congrArg Prod.fst hc)
  have hcap := congrArg (fun c => c.2.1) hc
  have hzero := congrArg (fun c => c.2.2) hc
  dsimp only [Inner.counters] at hcount hcap hzero
  refine ⟨hcount,fun k h => absurd h (Nat.lt_irrefl 0),?_,hcap,hb⟩
  intro h
  rw [hzero,Bool.or_eq_true,Bool.and_eq_true,beq_iff_eq] at h
  rcases h with h | ⟨rfl,h⟩
  · exact Or.inl h
  · exact Or.inr ⟨key,by simp [slotAt],h⟩

theorem SlotEffect.still (hc : w'.inner.counters = w.inner.counters)
    (hb : ∀ k, holders w' k + leaked k = holders w k + found k) :
    SlotEffect w w' (fun _ => 0) (fun _ => 0) leaked found where
  count := congrFun (congrArg Prod.fst hc)
  room k h := absurd h (Nat.lt_irrefl 0)
  zero h := by
    have hz : w'.inner.releasedAtZero = w.inner.releasedAtZero := congrArg (fun c => c.2.2) hc
    exact Or.inl (hz ▸ h)
  cap := congrArg (fun c => c.2.1) hc
  balance := hb

/-- Without leaks the counter of a key never exceeds its holders. -/
theorem SlotEffect.count_le {acquired released : K → ℕ}
    (he : SlotEffect w w' acquired released leaked found) (hl : ∀ k, leaked k = 0)
    (h : ∀ k, w.inner.h1Count k ≤ holders w k) (k : K) : w'.inner.h1Count k ≤ holders w' k := by
  have hc := he.count k
  have hb := he.balance k
  have hz := hl k
  have hk := h k
  omega

/-- The counter never exceeds the cap. -/
theorem SlotEffect.count_capped {acquired released : K → ℕ}
    (he : SlotEffect w w' acquired released leaked found)
    (hm : ∀ k, w.inner.h1Count k ≤ w.inner.maxH1ConnectionsPerHost) (k : K) :
    w'.inner.h1Count k ≤ w'.inner.maxH1ConnectionsPerHost := by
  have hc := he.count k
  have hr := he.room k
  have hmk := hm k
  rw [he.cap]
  by_cases ha : 0 < acquired k
  · obtain ⟨h1,h2,h3⟩ := hr ha
    omega
  · omega

/-- Without found slots the holders never exceed the counter either, and no release finds
it at zero. -/
theorem SlotEffect.capped {acquired released : K → ℕ}
    (he : SlotEffect w w' acquired released leaked found) (hf : ∀ k, found k = 0)
    (h : ∀ k, holders w k ≤ w.inner.h1Count k)
    (hm : ∀ k, w.inner.h1Count k ≤ w.inner.maxH1ConnectionsPerHost)
    (hz : w.inner.releasedAtZero = false) :
    (∀ k, holders w' k ≤ w'.inner.h1Count k) ∧
    (∀ k, w'.inner.h1Count k ≤ w'.inner.maxH1ConnectionsPerHost) ∧
    w'.inner.releasedAtZero = false := by
  refine ⟨?_,he.count_capped hm,?_⟩
  · intro k
    have hc := he.count k
    have hb := he.balance k
    have hfk := hf k
    have hk := h k
    omega
  · cases hz' : w'.inner.releasedAtZero with
    | false => rfl
    | true =>
      rcases he.zero hz' with ho | ⟨k,hr,hk⟩
      · rw [hz] at ho
        cases ho
      · have hb := he.balance k
        have hfk := hf k
        have hle := h k
        have hroom := he.room k
        by_cases ha : 0 < acquired k
        · have h2 := (hroom ha).2.1
          omega
        · omega

end Effect

section Steps
variable [Poolable T] {w w' : World T K} {a : Action T K}

structure ItemsOk (w : World T K) : Prop where
  converting : ∀ {g guard}, w.guards.get g = some guard → guard.pool = false → guard.h1Slot = false
  slotted : ∀ {p item}, w.pooled.get p = some item → item.h1Slot = true →
    item.pool = true ∧ canShare item.value = false

omit [DecidableEq K] in
theorem ItemsOk.unpooled {w : World T K} (h : ItemsOk w) {p : ℕ} {item : Pooled T K} (hi : w.pooled.get p = some item)
    (hp : item.pool = false) : item.h1Slot = false := by
  cases hslot : item.h1Slot with
  | false => rfl
  | true =>
    have hpool := (h.slotted hi hslot).1
    rw [hp] at hpool
    cases hpool

/-- The action gives back the slot of every connection it lets go. -/
def Retains (w : World T K) : Action T K → Prop
  | .pooled g value _ => ∀ guard, w.guards.get g = some guard → guard.h1Slot = true →
      canShare value = false
  | .pollWaiter c => ∀ checkout i x value, w.checkouts.get c = some checkout →
      checkout.waiter = some i → w.chans.get i = some x → x.chan.slot = some value →
      w.isOpen value = true ∨ canShare value = true
  | .checkout c => ∀ checkout list, w.checkouts.get c = some checkout →
      w.inner.idle checkout.key = some list →
      ∀ entry ∈ list.reverse.takeWhile (stale w.isOpen w.inner.timeout w.now),
        canShare entry.value = true
  | .cancelCheckout c => ∀ checkout i x value, w.checkouts.get c = some checkout →
      checkout.waiter = some i → w.chans.get i = some x → x.chan.slot = some value →
      canShare value = true
  | .clearExpired => ∀ key list, w.inner.idle key = some list →
      ∀ entry ∈ list, stale w.isOpen w.inner.timeout w.now entry = true → canShare entry.value = true
  | _ => True

def Backed (w : World T K) : Prop :=
  ∀ p item, w.pooled.get p = some item → item.pool = true → item.h1Slot = true

theorem uniqueEntries_shareable {list : List (Idle T)} (h : ∀ entry ∈ list, canShare entry.value = true) :
    uniqueEntries list = 0 := by
  unfold uniqueEntries
  rw [List.countP_eq_zero]
  intro entry hm
  simp [h entry hm]

omit [Poolable T] in
theorem takeWhile_behind {p : Idle T → Bool} {before behind : List (Idle T)} {entry : Idle T}
    (hb : ∀ s ∈ behind, p s = true) (he : p entry = false) :
    (before ++ entry :: behind).reverse.takeWhile p = behind.reverse := by
  have hr : (before ++ entry :: behind).reverse = behind.reverse ++ entry :: before.reverse := by simp
  rw [hr,List.takeWhile_append_of_pos (fun s hs => hb s (List.mem_reverse.mp hs)),
    List.takeWhile_cons_of_neg (by simp [he]),List.append_nil]

theorem uniqueEntries_sweep {isOpen : T → Bool} {timeout now : ℕ} (list : List (Idle T)) :
    uniqueEntries ((Inner.sweep isOpen timeout now list).getD []) +
      uniqueEntries (list.filter (stale isOpen (some timeout) now)) = uniqueEntries list := by
  have hk : (Inner.sweep isOpen timeout now list).getD [] =
      list.filter (fun entry => !stale isOpen (some timeout) now entry) := by
    have hp : (fun entry : Idle T => isOpen entry.value && decide (now - entry.idleAt ≤ timeout)) =
        fun entry => !stale isOpen (some timeout) now entry := by
      funext entry
      rw [Bool.eq_iff_iff]
      simp [stale,expires]
    unfold Inner.sweep
    rw [hp]
    cases list.filter (fun entry => !stale isOpen (some timeout) now entry) <;> rfl
  rw [hk]
  have hsplit := List.countP_eq_countP_filter_add list (fun entry => !canShare entry.value)
    (stale isOpen (some timeout) now)
  unfold uniqueEntries
  omega

/-- An effect together with when it leaks or finds nothing. -/
def Accounted (w : World T K) (a : Action T K) (w' : World T K) : Prop :=
  ∃ acquired released leaked found, SlotEffect w w' acquired released leaked found ∧
    (ItemsOk w → Retains w a → ∀ k, leaked k = 0) ∧ (Backed w → ∀ k, found k = 0)

theorem Accounted.still (hc : w'.inner.counters = w.inner.counters)
    (hb : ∀ k, holders w' k = holders w k) : Accounted w a w' :=
  ⟨_,_,fun _ => 0,fun _ => 0,.still hc hb,fun _ _ _ => rfl,fun _ _ => rfl⟩

theorem Accounted.release (key : K) (flag : Bool)
    (hc : w'.inner.counters = (w.inner.releaseIf flag key).counters)
    (hb : ∀ k, holders w' k + slotAt key flag k = holders w k) : Accounted w a w' :=
  ⟨_,_,fun _ => 0,fun _ => 0,.release key flag hc hb,fun _ _ _ => rfl,fun _ _ => rfl⟩

theorem Accounted.leak (leaked : K → ℕ) (hc : w'.inner.counters = w.inner.counters)
    (hb : ∀ k, holders w' k + leaked k = holders w k)
    (hl : ItemsOk w → Retains w a → ∀ k, leaked k = 0) : Accounted w a w' :=
  ⟨_,_,leaked,fun _ => 0,.still hc hb,hl,fun _ _ => rfl⟩

theorem accounted_reserved {key : K} {protocol : Protocol}
    (hm : w.inner.h1Count key < w.inner.maxH1ConnectionsPerHost) :
    Accounted w (.connecting key protocol)
      { w with
        inner :=
          { w.inner with
            h1Connections := mapSet w.inner.h1Connections key (some (w.inner.h1Count key + 1)) }
        guards := w.guards.alloc ⟨key,true,true⟩ } := by
  refine ⟨slotAt key true,fun _ => 0,fun _ => 0,fun _ => 0,?_,fun _ _ _ => rfl,fun _ _ => rfl⟩
  refine ⟨?_,?_,Or.inl,rfl,?_⟩
  · intro k
    dsimp only
    rw [Inner.h1Count_set]
    by_cases hk : k = key
    · subst hk
      simp [slotAt]
    · have hne : key ≠ k := fun h => hk h.symm
      simp [hk,hne,slotAt]
  · intro k hk
    obtain ⟨_,rfl⟩ := slotAt_pos hk
    exact ⟨by simp [slotAt],rfl,hm⟩
  · intro k
    have hg := guardSlots_alloc w.guards ⟨key,true,true⟩ k
    simp only [holders] at hg ⊢
    omega

theorem accounted_pooledShared {g : ℕ} {guard : Connecting K} {value : T} {vanish : ℕ → Bool}
    {kept : Bool} {inner : Inner T K} {chans : Channels T K} (hok : ChannelsOk w)
    (hg : w.guards.get g = some guard) (hs : canShare value = true)
    (ho : Inner.PutOutcome vanish w.now w.inner w.chans guard.key value kept inner chans) :
    Accounted w (.pooled g value vanish)
      { w with
        inner := (inner.connected chans guard.key).1
        chans := (inner.connected chans guard.key).2
        guards := w.guards.remove g
        pooled := w.pooled.alloc ⟨value,false,guard.key,false,false⟩ } := by
  have hput := ho.slots hok.queues
  refine .leak (slotAt guard.key guard.h1Slot) ho.counters_eq ?_ ?_
  · intro k
    have hr := guardSlots_remove hg k
    have hp := pooledSlots_alloc w.pooled ⟨value,false,guard.key,false,false⟩ k
    have hf := flightSlots_dropSenders chans (inner.queue guard.key) k
    have hi : (inner.connected chans guard.key).1.idle = inner.idle := rfl
    have hk := hput k
    simp only [hs,Bool.not_true,Bool.and_false,slotAt_false] at hk hp
    simp only [holders,Inner.connected_chans,hi]
    omega
  · intro _ hret k
    cases hh : guard.h1Slot with
    | false => rfl
    | true =>
      have hv := hret guard hg hh
      rw [hs] at hv
      cases hv

theorem accounted_droppedPut {p : ℕ} {item : Pooled T K} {vanish : ℕ → Bool} {kept : Bool}
    {inner : Inner T K} {chans : Channels T K} (hok : ChannelsOk w)
    (hi : w.pooled.get p = some item) (hp : item.pool = true)
    (ho : Inner.PutOutcome vanish w.now w.inner w.chans item.key item.value kept inner chans) :
    Accounted w (.dropPooled p vanish)
      { w with
        pooled := w.pooled.remove p
        inner := if !kept && item.h1Slot then inner.releaseH1Slot item.key else inner
        chans := chans } := by
  refine ⟨_,_,slotAt item.key (kept && item.h1Slot && canShare item.value),
    slotAt item.key (kept && !item.h1Slot && !canShare item.value),
    .release item.key (!kept && item.h1Slot) (Inner.releaseIf_congr ho.counters_eq _ _) ?_,?_,?_⟩
  · intro k
    have hput := ho.slots hok.queues k
    have hrem := pooledSlots_remove hi k
    simp only [holders]
    rw [Inner.apply_releaseH1Slot Inner.releaseH1Slot_idle]
    cases kept <;> cases hh : item.h1Slot <;> cases hv : canShare item.value <;>
      simp only [hh,hv,Bool.not_true,Bool.not_false,Bool.and_true,Bool.and_false,slotAt_false] at hput hrem ⊢ <;> omega
  · intro hitems _ k
    cases hh : item.h1Slot with
    | false => simp
    | true => rw [(hitems.slotted hi hh).2,Bool.and_false,slotAt_false]
  · intro hback k
    rw [hback p item hi hp]
    simp

theorem accounted_popped {c : ℕ} {checkout : Checkout K} {list entries : List (Idle T)} {entry : Idle T}
    (hc : w.checkouts.get c = some checkout) (hi : w.inner.idle checkout.key = some list)
    (hp : pop w.isOpen w.inner.timeout w.now list = (some entry,entries)) :
    Accounted w (.checkout c)
      { w with
        inner :=
          { w.inner with
            idle := mapSet w.inner.idle checkout.key (if entries.isEmpty then none else some entries) }
        pooled := w.pooled.alloc
          ⟨entry.value,true,checkout.key,!canShare entry.value,!canShare entry.value⟩ } := by
  obtain ⟨before,behind,hl,hb,he,hen⟩ := pop_some hp
  refine .leak (fun k => if k = checkout.key then uniqueEntries behind else 0) rfl ?_ ?_
  · intro k
    have hitem := pooledSlots_alloc w.pooled
      ⟨entry.value,true,checkout.key,!canShare entry.value,!canShare entry.value⟩ k
    have hset := idleSlots_set w.inner.idle checkout.key
      (if entries.isEmpty then none else some entries) k
    have hget : (if entries.isEmpty then none else some entries).getD [] = entries := by
      cases entries <;> rfl
    rw [hget] at hset
    simp only [holders]
    by_cases hk : k = checkout.key
    · subst hk
      have hold : idleSlots w.inner.idle checkout.key =
          uniqueEntries before + ((!canShare entry.value).toNat + uniqueEntries behind) := by
        simp only [idleSlots,hi,Option.getD_some,hl,uniqueEntries,List.countP_append,List.countP_cons]
        cases canShare entry.value <;> simp [Nat.add_comm]
      have hnew : uniqueEntries entries = uniqueEntries before := by
        rw [hen]
        cases hv : canShare entry.value with
        | false => rfl
        | true => rw [if_pos rfl,uniqueEntries_push,hv]; rfl
      simp only [if_true] at hset ⊢
      simp only [slotAt,decide_true,Bool.and_true] at hitem
      omega
    · have hne : checkout.key ≠ k := fun h => hk h.symm
      simp only [hk,if_false] at hset ⊢
      simp only [slotAt,hne,decide_false,Bool.and_false,Bool.toNat_false] at hitem
      omega
  · intro _ hret k
    have hall := hret checkout list hc hi
    rw [hl,takeWhile_behind hb he] at hall
    have hz := uniqueEntries_shareable (fun e hm => hall e (List.mem_reverse.mpr hm))
    rw [hz,ite_self]

/-- A poll that finds no usable entry removes the whole list. -/
theorem accounted_missed {c : ℕ} {checkout : Checkout K} {inner : Inner T K} {chans : Channels T K}
    {checkouts : Table (Checkout K)} (hc : w.checkouts.get c = some checkout)
    (hn : ∀ list, w.inner.idle checkout.key = some list →
      (pop w.isOpen w.inner.timeout w.now list).1 = none)
    (hinner : inner.counters = w.inner.counters)
    (hidle : inner.idle = mapSet w.inner.idle checkout.key none)
    (hflight : ∀ k, flightSlots chans k = flightSlots w.chans k) :
    Accounted w (.checkout c) { w with inner := inner, chans := chans, checkouts := checkouts } := by
  refine .leak (fun k => if k = checkout.key then idleSlots w.inner.idle k else 0) hinner ?_ ?_
  · intro k
    have hset := idleSlots_set w.inner.idle checkout.key none k
    have hf := hflight k
    simp only [holders,hidle]
    by_cases hk : k = checkout.key
    · simp only [hk,if_true] at hset hf ⊢
      have hz : uniqueEntries (Option.getD (none : Option (List (Idle T))) []) = 0 := rfl
      omega
    · simp only [hk,if_false] at hset ⊢
      omega
  · intro _ hret k
    by_cases hk : k = checkout.key
    · rw [if_pos hk,hk]
      cases hi : w.inner.idle checkout.key with
      | none => simp [idleSlots,hi,uniqueEntries]
      | some list =>
        have hstale := pop_none (hn list hi)
        have hall := hret checkout list hc hi
        rw [List.takeWhile_eq_self_iff.mpr (fun e hm => hstale e (List.mem_reverse.mp hm))] at hall
        simp only [idleSlots,hi,Option.getD_some]
        exact uniqueEntries_shareable (fun e hm => hall e (List.mem_reverse.mpr hm))
    · rw [if_neg hk]

theorem accounted_clearExpired {timeout : ℕ} (ht : w.inner.timeout = some timeout) :
    Accounted w .clearExpired { w with inner := w.inner.clearExpired w.isOpen timeout w.now } := by
  have hsplit : ∀ k, idleSlots (w.inner.clearExpired w.isOpen timeout w.now).idle k +
      uniqueEntries (((w.inner.idle k).getD []).filter (stale w.isOpen (some timeout) w.now)) =
        idleSlots w.inner.idle k := by
    intro k
    unfold idleSlots Inner.clearExpired
    dsimp only
    cases w.inner.idle k with
    | none => rfl
    | some list => exact uniqueEntries_sweep list
  refine .leak
    (fun k => uniqueEntries (((w.inner.idle k).getD []).filter (stale w.isOpen (some timeout) w.now)))
    rfl ?_ ?_
  · intro k
    have hk := hsplit k
    simp only [holders]
    omega
  · intro _ hret k
    apply uniqueEntries_shareable
    intro entry hm
    obtain ⟨hmem,hstale⟩ := List.mem_filter.mp hm
    cases hi : w.inner.idle k with
    | none => simp [hi] at hmem
    | some list =>
      rw [hi] at hmem
      exact hret k list hi entry hmem (ht ▸ hstale)

/-- A receiver that goes away takes the value in its slot along. -/
theorem accounted_received {i : ℕ} {x : Waiter T K} {checkouts : Table (Checkout K)}
    (hx : w.chans.get i = some x)
    (hret : Retains w a → ∀ value, x.chan.slot = some value → canShare value = true) :
    Accounted w a
      { w with chans := w.chans.modify i Channels.received, checkouts := checkouts } := by
  refine .leak (slotAt x.key (inFlight x)) rfl ?_ ?_
  · intro k
    have hf := flightSlots_received hx k
    simp only [holders]
    omega
  · intro _ hr k
    have hfalse : inFlight x = false := by
      unfold inFlight
      cases hs : x.chan.slot with
      | none => simp
      | some value => simp [hret hr value hs]
    rw [hfalse,slotAt_false]

theorem Transition.accounted (ht : Transition w a w') (hok : ChannelsOk w) : Accounted w a w' := by
  cases ht with
  | @marked key hc =>
    refine .still rfl ?_
    intro k
    have hg := guardSlots_alloc w.guards ⟨key,true,false⟩ k
    simp only [slotAt_false,Nat.add_zero] at hg
    simp only [holders,hg]
  | @reserveRefused key protocol hp hm =>
    refine .still ?_ (fun k => rfl)
    exact Prod.ext (funext (Inner.h1Count_set_self w.inner key)) rfl
  | reserved hp hm => exact accounted_reserved hm
  | pooledShared hg hp hs ho => exact accounted_pooledShared hok hg hs ho
  | @pooledUnique g guard value vanish hg hp hs =>
    refine .still rfl ?_
    intro k
    have hr := guardSlots_remove hg k
    have ha := pooledSlots_alloc w.pooled ⟨value,false,guard.key,true,guard.h1Slot⟩ k
    simp only [holders] at ha ⊢
    omega
  | @alpnRelease g guard hg hp =>
    refine .release guard.key guard.h1Slot rfl ?_
    intro k
    have hr := guardSlots_clear false hg k
    simp only [holders,Inner.apply_releaseH1Slot Inner.releaseH1Slot_idle]
    omega
  | @alpnLost g guard hg hp hc =>
    refine .leak (slotAt guard.key guard.h1Slot) rfl ?_ ?_
    · intro k
      have hr := guardSlots_remove hg k
      simp only [holders]
      omega
    · intro hitems _ k
      rw [hitems.converting hg hp,slotAt_false]
  | @alpnWon g guard hg hp hc =>
    refine .leak (slotAt guard.key guard.h1Slot) rfl ?_ ?_
    · intro k
      have hr := guardSlots_clear true hg k
      simp only [holders]
      omega
    · intro hitems _ k
      rw [hitems.converting hg hp,slotAt_false]
  | @pollOpen c i checkout x value hc hw hx hr hs ho =>
    refine .still rfl ?_
    intro k
    obtain ⟨y,hy,hyk⟩ := hok.owned hc hw
    rw [hx] at hy
    cases hy
    have hf := flightSlots_received hx k
    have hp := pooledSlots_alloc w.pooled ⟨value,true,checkout.key,!canShare value,!canShare value⟩ k
    have hfl : inFlight x = !canShare value := by simp [inFlight,hr,hs]
    rw [hfl,hyk] at hf
    simp only [holders] at hp ⊢
    omega
  | pollClosed hc hw hx hr hs ho =>
    refine accounted_received hx ?_
    intro hret value hv
    rw [hs] at hv
    cases hv
    rcases hret _ _ _ _ hc hw hx hs with h | h
    · rw [ho] at h
      cases h
    · exact h
  | pollDropped hc hw hx hr hs hne =>
    refine accounted_received hx ?_
    intro _ value hv
    rw [hs] at hv
    cases hv
  | popped hc hr hi hp => exact accounted_popped hc hi hp
  | missed hc hr hw hn => exact accounted_missed hc hn rfl rfl (fun k => rfl)
  | registered hc hw hn =>
    exact accounted_missed hc hn rfl rfl (fun k => flightSlots_channel w.chans _ k)
  | @droppedClosed p item vanish hi ho =>
    refine ⟨_,_,slotAt item.key (item.h1Slot && !item.pool),fun _ => 0,
      .release item.key (item.h1Slot && item.pool) rfl ?_,?_,fun _ _ => rfl⟩
    · intro k
      have hr := pooledSlots_remove hi k
      simp only [holders,Inner.apply_releaseH1Slot Inner.releaseH1Slot_idle]
      cases hp : item.pool <;>
        simp only [Bool.not_true,Bool.not_false,Bool.and_true,Bool.and_false,slotAt_false] <;> omega
    · intro hitems _ k
      cases hp : item.pool with
      | true => rw [Bool.not_true,Bool.and_false,slotAt_false]
      | false => rw [hitems.unpooled hi hp,Bool.false_and,slotAt_false]
  | droppedPut hi ho hp hout => exact accounted_droppedPut hok hi hp hout
  | @droppedDetached p item vanish hi ho hp =>
    refine .leak (slotAt item.key item.h1Slot) rfl ?_ ?_
    · intro k
      have hr := pooledSlots_remove hi k
      simp only [holders]
      omega
    · intro hitems _ k
      rw [hitems.unpooled hi hp,slotAt_false]
  | @cancelCheckout c i checkout hc hw =>
    obtain ⟨x,hx,_⟩ := hok.owned hc hw
    exact accounted_received hx (fun hret value hv => hret _ _ _ _ hc hw hx hv)
  | @cleanCheckout c i checkout hc hw hcan =>
    obtain ⟨waiters,he⟩ := Inner.cleanWaiters_eq w.inner w.chans checkout.key
    refine .still (by dsimp only; rw [he]; rfl) ?_
    intro k
    simp only [holders]
    rw [Inner.cleanWaiters_chans,flightSlots_dropSenders,he]
  | @dropConnecting g guard hg hp =>
    refine .release guard.key guard.h1Slot (Inner.connectingCancelled_counters w.inner w.chans _ _) ?_
    intro k
    have hr := guardSlots_remove hg k
    simp only [holders]
    rw [Inner.connectingCancelled_chans,flightSlots_dropSenders,Inner.connectingCancelled_idle]
    omega
  | clearExpired ht => exact accounted_clearExpired ht
  | markRefused | newCheckout | pollIdle | dropCheckout | readiness | clock =>
    exact .still rfl (fun k => rfl)

end Steps
end H12Tiny.Pool
