import H12Tiny.Pool.Channels
import Mathlib.Order.Nat

/-! # The idle lists

Every list of idle connections is nonempty, bounded, holds at most one shareable
entry and is ordered by the time its entries became idle; and a key with idle
connections has no waiter that could still take one. The last part needs nothing
about the clock or the limits and is proved on its own, because the request level
relies on it.
-/
namespace H12Tiny.Pool
variable {T K : Type*}

section Pop
variable [Poolable T] {isOpen : T → Bool} {expiration : Option ℕ} {now : ℕ}

theorem popBack_some {l entries : List (Idle T)} {e : Idle T}
    (h : popBack isOpen expiration now l = (some e,entries)) :
    ∃ behind before, l = behind ++ e :: before ∧
      (∀ s ∈ behind, stale isOpen expiration now s = true) ∧ stale isOpen expiration now e = false ∧
      entries = if canShare e.value then ⟨e.value,now⟩ :: before else before := by
  induction l with
  | nil => cases h
  | cons entry rest ih =>
    rw [popBack] at h
    cases hs : stale isOpen expiration now entry with
    | true =>
      rw [if_pos (by simpa [stale] using hs)] at h
      obtain ⟨behind,before,hl,hb,he,hen⟩ := ih h
      refine ⟨entry :: behind,before,by rw [hl]; rfl,?_,he,hen⟩
      intro s hm
      rcases List.mem_cons.mp hm with rfl | hm
      · exact hs
      · exact hb s hm
    | false =>
      rw [if_neg (by simpa [stale] using hs),Poolable.reserve_eq] at h
      refine ⟨[],rest,?_,by simp,?_,?_⟩ <;> cases hc : canShare entry.value <;>
        simp only [hc,Bool.false_eq_true,if_false,if_true] at h <;> cases h <;> simp [hs,hc]

theorem popBack_none {l entries : List (Idle T)} (h : popBack isOpen expiration now l = (none,entries)) :
    entries = [] ∧ ∀ s ∈ l, stale isOpen expiration now s = true := by
  induction l with
  | nil => cases h; simp
  | cons entry rest ih =>
    rw [popBack] at h
    cases hs : stale isOpen expiration now entry with
    | true =>
      rw [if_pos (by simpa [stale] using hs)] at h
      obtain ⟨hen,hall⟩ := ih h
      refine ⟨hen,?_⟩
      intro s hm
      rcases List.mem_cons.mp hm with rfl | hm
      · exact hs
      · exact hall s hm
    | false =>
      rw [if_neg (by simpa [stale] using hs),Poolable.reserve_eq] at h
      cases hc : canShare entry.value <;>
        simp only [hc,Bool.false_eq_true,if_false,if_true] at h <;> cases h

/-- The popped entry is the last usable one; the unusable ones behind it are gone,
the ones before it are kept, and a shareable entry is put back with a new stamp. -/
theorem pop_some {l entries : List (Idle T)} {e : Idle T}
    (h : pop isOpen expiration now l = (some e,entries)) :
    ∃ before behind, l = before ++ e :: behind ∧
      (∀ s ∈ behind, stale isOpen expiration now s = true) ∧ stale isOpen expiration now e = false ∧
      entries = if canShare e.value then before ++ [⟨e.value,now⟩] else before := by
  unfold pop at h
  have h1 := congrArg Prod.fst h
  have h2 := congrArg Prod.snd h
  dsimp only at h1 h2
  obtain ⟨behind,before,hl,hb,he,hen⟩ := popBack_some (Prod.ext h1 rfl)
  refine ⟨before.reverse,behind.reverse,?_,?_,he,?_⟩
  · have hr := congrArg List.reverse hl
    simpa using hr
  · intro s hs
    exact hb s (List.mem_reverse.mp hs)
  · rw [← h2,show (popBack isOpen expiration now l.reverse).snd = _ from hen]
    split <;> simp

theorem pop_none {l : List (Idle T)} (h : (pop isOpen expiration now l).1 = none) :
    ∀ s ∈ l, stale isOpen expiration now s = true := by
  unfold pop at h
  dsimp only at h
  obtain ⟨_,hall⟩ := popBack_none (Prod.ext h rfl)
  intro s hs
  exact hall s (List.mem_reverse.mpr hs)

end Pop

section Drained
variable [DecidableEq K]

/-- A key with idle connections has no queued waiter whose receiver is alive. -/
def Drained (w : World T K) : Prop :=
  ∀ k, (w.inner.idle k).isSome = true → ∀ i ∈ w.inner.queue k, w.chans.isCanceled i = true

/-- An idle list appears only over an emptied queue, and a queue with idle
connections only shrinks. -/
def Shrinks (inner inner' : Inner T K) : Prop :=
  ∀ k, (inner'.idle k).isSome = true →
    inner'.queue k = [] ∨ ((inner.idle k).isSome = true ∧ ∀ i ∈ inner'.queue k, i ∈ inner.queue k)

omit [DecidableEq K] in
theorem Shrinks.of_same {inner inner' : Inner T K} (hi : inner'.idle = inner.idle)
    (hq : inner'.queue = inner.queue) : Shrinks inner inner' := by
  intro k hk
  rw [hi] at hk
  exact Or.inr ⟨hk,fun i h => hq ▸ h⟩

omit [DecidableEq K] in
theorem Drained.step {w w' : World T K} (h : Drained w) (hok : ChannelsOk w)
    (he : Evolves w.chans w'.chans) (hs : Shrinks w.inner w'.inner) : Drained w' := by
  intro k hk i hi
  rcases hs k hk with hempty | ⟨hidle,hsub⟩
  · rw [hempty] at hi
    cases hi
  · have hold := hsub i hi
    have hcan := h k hidle i hold
    obtain ⟨x,hx,_,_⟩ := hok.queues.queued hold
    obtain ⟨y,hy,_,hr,_⟩ := he hx
    rw [Channels.isCanceled_of_some hx] at hcan
    rw [Channels.isCanceled_of_some hy]
    simpa using hr (by simpa using hcan)

section Poolable
variable [Poolable T]

theorem Inner.PutOutcome.shrinks {vanish : ℕ → Bool} {now : ℕ} {inner inner' : Inner T K}
    {chans chans' : Channels T K} {key : K} {v : T} {kept : Bool}
    (ho : PutOutcome vanish now inner chans key v kept inner' chans') : Shrinks inner inner' := by
  cases ho with
  | refused => exact .of_same rfl rfl
  | @handed rest _ hh =>
    intro k hk
    right
    refine ⟨hk,?_⟩
    rw [queue_setWaiters,getD_nonempty]
    intro i hi
    by_cases hkey : k = key
    · subst hkey
      rw [mapSet_self] at hi
      exact hh.suffix.subset hi
    · rwa [mapSet_ne _ _ hkey] at hi
  | full hh _ _ =>
    intro k hk
    by_cases hkey : k = key
    · subst hkey
      exact Or.inl (by simp [queue])
    · right
      simp only [mapSet_ne _ _ hkey] at hk
      exact ⟨hk,fun i hi => by simpa [queue,mapSet_ne _ _ hkey] using hi⟩
  | stored hh _ _ =>
    intro k hk
    by_cases hkey : k = key
    · subst hkey
      exact Or.inl (by simp [queue])
    · right
      simp only [mapSet_ne _ _ hkey] at hk
      exact ⟨hk,fun i hi => by simpa [queue,mapSet_ne _ _ hkey] using hi⟩

omit [Poolable T] in
theorem Shrinks.emptied {inner mid inner' : Inner T K} {key : K} (h : Shrinks inner mid)
    (hi : inner'.idle = mid.idle) (hq : inner'.queue = mapSet mid.queue key []) :
    Shrinks inner inner' := by
  intro k hk
  by_cases hkey : k = key
  · subst hkey
    exact Or.inl (by rw [hq,mapSet_self])
  · rw [hi] at hk
    rw [hq,mapSet_ne _ _ hkey]
    exact h k hk

omit [Poolable T] in
theorem Inner.connectingCancelled_idle (inner : Inner T K) (chans : Channels T K) (key : K)
    (h1Slot : Bool) : (inner.connectingCancelled chans key h1Slot).1.idle = inner.idle := by
  cases h1Slot <;> simp [connectingCancelled,removeWaiters]

theorem Transition.shrinks {w w' : World T K} {a : Action T K} (ht : Transition w a w') :
    Shrinks w.inner w'.inner := by
  have hsame : Shrinks w.inner w.inner := .of_same rfl rfl
  cases ht with
  | @pooledShared _ guard _ _ _ _ chans hg hp hs ho =>
    exact ho.shrinks.emptied rfl (Inner.connected_queue _ chans guard.key)
  | alpnRelease | droppedClosed =>
    exact .of_same (Inner.apply_releaseH1Slot Inner.releaseH1Slot_idle _ _ _)
      (Inner.apply_releaseH1Slot Inner.releaseH1Slot_queue _ _ _)
  | @popped c checkout list entries entry hc hr hi hp =>
    intro k hk
    right
    refine ⟨?_,fun i hi => hi⟩
    by_cases hkey : k = checkout.key
    · rw [hkey,hi]
      rfl
    · simpa [mapSet_ne _ _ hkey] using hk
  | @missed c i checkout hc hr hw hn =>
    intro k hk
    by_cases hkey : k = checkout.key
    · simp [hkey] at hk
    · simp only [mapSet_ne _ _ hkey] at hk
      exact Or.inr ⟨hk,fun i hi => hi⟩
  | @registered c checkout hc hw hn =>
    intro k hk
    by_cases hkey : k = checkout.key
    · simp [hkey] at hk
    · simp only [mapSet_ne _ _ hkey] at hk
      exact Or.inr ⟨hk,fun i hi => by simpa [Inner.queue,mapSet_ne _ _ hkey] using hi⟩
  | droppedPut hi ho hp hout =>
    intro k hk
    rw [Inner.apply_releaseH1Slot Inner.releaseH1Slot_idle] at hk
    rw [Inner.apply_releaseH1Slot Inner.releaseH1Slot_queue]
    exact hout.shrinks k hk
  | @cleanCheckout c i checkout hc hw hcan =>
    obtain ⟨waiters,he⟩ := Inner.cleanWaiters_eq w.inner w.chans checkout.key
    intro k hk
    right
    refine ⟨by simpa [he] using hk,?_⟩
    intro j hj
    dsimp only at hj
    rw [Inner.cleanWaiters_queue] at hj
    by_cases hkey : k = checkout.key
    · subst hkey
      rw [mapSet_self] at hj
      exact (List.mem_filter.mp hj).1
    · rwa [mapSet_ne _ _ hkey] at hj
  | @dropConnecting _ guard hg hp =>
    exact hsame.emptied (Inner.connectingCancelled_idle _ w.chans guard.key guard.h1Slot)
      (Inner.connectingCancelled_queue _ w.chans guard.key guard.h1Slot)
  | clearExpired ht =>
    intro k hk
    right
    refine ⟨?_,fun i hi => hi⟩
    cases hi : w.inner.idle k with
    | none => simp [Inner.clearExpired,hi] at hk
    | some l => rfl
  | _ => exact hsame

theorem Transition.drained {w w' : World T K} {a : Action T K} (ht : Transition w a w')
    (hok : ChannelsOk w) (h : Drained w) : Drained w' := h.step hok (ht.evolves hok) ht.shrinks

omit [DecidableEq K] [Poolable T] in
theorem drained_new {config : Config} {timer : Bool} {w : World T K}
    (h : World.new config timer = some w) : Drained w := by
  unfold World.new at h
  split at h
  · cases h
    intro k hk
    cases hk
  · cases h

/-- In every reachable state a key with idle connections has no live waiter. -/
theorem reaches_drained {allowed : World T K → Action T K → Prop} {config : Config} {timer : Bool}
    {w₀ w : World T K} (h₀ : World.new config timer = some w₀)
    (h : Reaches World.step allowed w₀ w) : ChannelsOk w ∧ Drained w :=
  Reaches.invariant_under (fun hi _ hs => (step_transition hs).channelsOk hi)
    (fun hok hi _ hs => (step_transition hs).drained hok hi) (channelsOk_new h₀) (drained_new h₀) h

end Poolable
end Drained

section Shape
variable [Poolable T]

/-- The shape of one idle list at a given time under a given limit. -/
structure ListOk (limit now : ℕ) (list : List (Idle T)) : Prop where
  nonempty : list ≠ []
  bounded : list.length ≤ limit
  oneShared : list.countP (fun entry => canShare entry.value) ≤ 1
  ordered : list.Pairwise (fun a b => a.idleAt ≤ b.idleAt)
  recent : ∀ entry ∈ list, entry.idleAt ≤ now

variable {limit now : ℕ} {list : List (Idle T)}

theorem ListOk.later (h : ListOk limit now list) {now' : ℕ} (hn : now ≤ now') : ListOk limit now' list :=
  ⟨h.nonempty,h.bounded,h.oneShared,h.ordered,fun entry he => (h.recent entry he).trans hn⟩

theorem ListOk.sublist (h : ListOk limit now list) {kept : List (Idle T)} (hs : kept.Sublist list)
    (hne : kept ≠ []) : ListOk limit now kept :=
  ⟨hne,hs.length_le.trans h.bounded,hs.countP_le.trans h.oneShared,h.ordered.sublist hs,
    fun entry he => h.recent entry (hs.subset he)⟩

theorem ListOk.singleton (hl : 0 < limit) (v : T) : ListOk limit now [⟨v,now⟩] := by
  refine ⟨by simp,hl,?_,by simp,by simp⟩
  rw [List.countP_singleton]
  split <;> simp

theorem ListOk.push (h : ListOk limit now list) {v : T} (hroom : list.length < limit)
    (hs : canShare v = true → list.countP (fun entry => canShare entry.value) = 0) :
    ListOk limit now (list ++ [⟨v,now⟩]) := by
  refine ⟨by simp,?_,?_,?_,?_⟩
  · rw [List.length_append,List.length_singleton]
    omega
  · rw [List.countP_append,List.countP_singleton]
    cases hv : canShare v with
    | true => simp [hs hv]
    | false => simpa using h.oneShared
  · rw [List.pairwise_append]
    refine ⟨h.ordered,List.pairwise_singleton _ _,?_⟩
    intro a ha b hb
    rw [List.mem_singleton.mp hb]
    exact h.recent a ha
  · intro entry he
    rcases List.mem_append.mp he with he | he
    · exact h.recent entry he
    · rw [List.mem_singleton.mp he]

theorem ListOk.pop (h : ListOk limit now list) {isOpen : T → Bool} {expiration : Option ℕ}
    {e : Idle T} {entries : List (Idle T)} (hp : pop isOpen expiration now list = (some e,entries))
    (hne : entries ≠ []) : ListOk limit now entries := by
  obtain ⟨before,behind,rfl,_,_,hen⟩ := pop_some hp
  have hsub : before.Sublist (before ++ e :: behind) := List.sublist_append_left _ _
  have hlen := h.bounded
  rw [List.length_append,List.length_cons] at hlen
  cases hc : canShare e.value with
  | false =>
    rw [hc] at hen
    subst hen
    exact h.sublist hsub hne
  | true =>
    rw [hc,if_pos rfl] at hen
    subst hen
    by_cases hb : before = []
    · subst hb
      exact ListOk.singleton (by omega) e.value
    · have hone := h.oneShared
      rw [List.countP_append,List.countP_cons,if_pos hc] at hone
      exact (h.sublist hsub hb).push (by omega) (fun _ => by omega)

theorem ListOk.sweep (h : ListOk limit now list) {isOpen : T → Bool} {timeout : ℕ}
    {kept : List (Idle T)} (hs : Inner.sweep isOpen timeout now list = some kept) :
    ListOk limit now kept := by
  unfold Inner.sweep at hs
  dsimp only at hs
  split at hs
  · cases hs
  · rename_i hne
    cases hs
    exact h.sublist List.filter_sublist (fun he => hne (by rw [he]; rfl))

end Shape

section Invariant
variable [DecidableEq K] [Poolable T]

def IdleOk (limit : ℕ) (w : World T K) : Prop :=
  w.inner.maxIdlePerHost = limit ∧ ∀ k list, w.inner.idle k = some list → ListOk limit w.now list

/-- The clock the pool reads never goes back. -/
def ClockAdvances (w : World T K) : Action T K → Prop
  | .clock now => w.now ≤ now
  | _ => True

theorem Inner.PutOutcome.idleOk {vanish : ℕ → Bool} {now : ℕ} {inner inner' : Inner T K}
    {chans chans' : Channels T K} {key : K} {v : T} {kept : Bool}
    (ho : PutOutcome vanish now inner chans key v kept inner' chans') (hpos : 0 < inner.maxIdlePerHost)
    (h : ∀ k list, inner.idle k = some list → ListOk inner.maxIdlePerHost now list) :
    inner'.maxIdlePerHost = inner.maxIdlePerHost ∧
    ∀ k list, inner'.idle k = some list → ListOk inner.maxIdlePerHost now list := by
  cases ho with
  | refused | handed => exact ⟨rfl,h⟩
  | full hh hs hfull =>
    refine ⟨rfl,?_⟩
    intro k list hl
    by_cases hk : k = key
    · subst hk
      dsimp only at hl
      rw [mapSet_self] at hl
      cases hl
      -- a full list is present: an absent one would have room
      cases hi : inner.idle k with
      | none => simp [idleList,hi] at hfull; omega
      | some list => simpa [idleList,hi] using h k list hi
    · simp only [mapSet_ne _ _ hk] at hl
      exact h k list hl
  | stored hh hs hroom =>
    refine ⟨rfl,?_⟩
    intro k list hl
    by_cases hk : k = key
    · subst hk
      dsimp only at hl
      rw [mapSet_self] at hl
      cases hl
      cases hi : inner.idle k with
      | none => simpa [idleList,hi] using ListOk.singleton hpos v
      | some list =>
        have hlist : inner.idleList k = list := by simp [idleList,hi]
        rw [hlist] at hroom ⊢
        refine (h k list hi).push hroom ?_
        intro hv
        have hn := hs hv
        rw [hi] at hn
        cases hn
    · simp only [mapSet_ne _ _ hk] at hl
      exact h k list hl

theorem Transition.idleOk {limit : ℕ} (hpos : 0 < limit) {w w' : World T K} {a : Action T K}
    (ht : Transition w a w') (hc : ClockAdvances w a) (h : IdleOk limit w) : IdleOk limit w' := by
  obtain ⟨rfl,h⟩ := h
  cases ht with
  | pooledShared hg hp hs ho => exact ho.idleOk hpos h
  | alpnRelease | droppedClosed =>
    dsimp only [IdleOk]
    rw [Inner.apply_releaseH1Slot Inner.releaseH1Slot_maxIdlePerHost,
      Inner.apply_releaseH1Slot Inner.releaseH1Slot_idle]
    exact ⟨rfl,h⟩
  | @popped c checkout list entries entry hc hr hi hp =>
    refine ⟨rfl,?_⟩
    intro k l hl
    by_cases hk : k = checkout.key
    · rw [hk] at hl
      dsimp only at hl
      rw [mapSet_self] at hl
      split at hl
      · cases hl
      · rename_i hne
        cases hl
        exact (h checkout.key list hi).pop hp (fun he => hne (by rw [he]; rfl))
    · simp only [mapSet_ne _ _ hk] at hl
      exact h k l hl
  | @missed c i checkout | @registered c checkout =>
    refine ⟨rfl,?_⟩
    intro k l hl
    by_cases hk : k = checkout.key
    · simp [hk] at hl
    · simp only [mapSet_ne _ _ hk] at hl
      exact h k l hl
  | droppedPut hi ho hp hout =>
    dsimp only [IdleOk]
    rw [Inner.apply_releaseH1Slot Inner.releaseH1Slot_maxIdlePerHost,
      Inner.apply_releaseH1Slot Inner.releaseH1Slot_idle]
    exact hout.idleOk hpos h
  | @cleanCheckout c i checkout hc hw hcan =>
    obtain ⟨waiters,he⟩ := Inner.cleanWaiters_eq w.inner w.chans checkout.key
    dsimp only [IdleOk]
    rw [he]
    exact ⟨rfl,h⟩
  | @dropConnecting g guard hg hp =>
    refine ⟨?_,?_⟩
    · cases hs : guard.h1Slot <;> simp [Inner.connectingCancelled,Inner.removeWaiters]
    · dsimp only
      rw [Inner.connectingCancelled_idle]
      exact h
  | clearExpired ht =>
    refine ⟨rfl,?_⟩
    intro k l hl
    obtain ⟨list,hi,hs⟩ := Option.bind_eq_some_iff.mp hl
    exact (h k list hi).sweep hs
  | clock => exact ⟨rfl,fun k list hl => (h k list hl).later hc⟩
  | _ => exact ⟨rfl,h⟩

/-- The representation invariant of the idle pool, in every reachable state of an
enabled pool under a clock that does not go back. -/
theorem idle_representation {config : Config} {timer : Bool} {w₀ w : World T K}
    (h₀ : World.new config timer = some w₀) (h : Reaches World.step ClockAdvances w₀ w)
    (key : K) (list : List (Idle T)) (hl : w.inner.idle key = some list) :
    list ≠ [] ∧ list.length ≤ config.maxIdlePerHost ∧
    list.countP (fun entry => canShare entry.value) ≤ 1 ∧
    list.Pairwise (fun a b => a.idleAt ≤ b.idleAt) ∧
    ∀ i ∈ w.inner.queue key, w.chans.isCanceled i = true := by
  have hnew : 0 < config.maxIdlePerHost ∧ IdleOk config.maxIdlePerHost w₀ := by
    unfold World.new at h₀
    split at h₀
    · rename_i he
      cases h₀
      exact ⟨by simpa [Config.enabled] using he,rfl,fun k list hl => by cases hl⟩
    · cases h₀
  have hidle := Reaches.invariant
    (fun hi hc hs => (step_transition hs).idleOk hnew.1 hc hi) hnew.2 h
  have hdrained := (reaches_drained h₀ h).2
  have hok := hidle.2 key list hl
  exact ⟨hok.nonempty,hok.bounded,hok.oneShared,hok.ordered,hdrained key (by rw [hl]; rfl)⟩

/-- Three connections are made and the first is returned. -/
def threeMade : List (Action PoolClient ℕ) :=
  [.connecting 0 .http1,.connecting 0 .http1,.connecting 0 .http1,.pooled 0 ⟨.http1 7⟩ fun _ => false,
    .pooled 1 ⟨.http1 8⟩ fun _ => false,.pooled 2 ⟨.http1 9⟩ fun _ => false,.dropPooled 0 fun _ => false]

/-- The others are returned later, and the last is closed while it is idle. -/
theorem idle_representation_returned : ∃ w₀ w : World PoolClient ℕ,
    World.new ⟨none,3,3⟩ false = some w₀ ∧ Reaches World.step ClockAdvances w₀ w ∧
    w.isOpen ⟨.http1 9⟩ = false ∧ ∃ list, w.inner.idle 0 = some list ∧
      list = [⟨⟨.http1 7⟩,0⟩,⟨⟨.http1 8⟩,2⟩,⟨⟨.http1 9⟩,2⟩] ∧ list ≠ [] ∧ list.length ≤ 3 ∧
      list.countP (fun entry => canShare entry.value) ≤ 1 ∧
      list.Pairwise (fun a b => a.idleAt ≤ b.idleAt) ∧
      ∀ i ∈ w.inner.queue 0, w.chans.isCanceled i = true := by
  obtain ⟨w₀,w₁,w₂,w,h₀,hrun₁,hnow,hclock,hrun₂,hclosed,hidle⟩ : ∃ w₀ w₁ w₂ w : World PoolClient ℕ,
      World.new ⟨none,3,3⟩ false = some w₀ ∧ runActions World.step w₀ threeMade = some w₁ ∧ w₁.now = 0 ∧
      w₁.step (.clock 2) = some w₂ ∧
      runActions World.step w₂ [.dropPooled 1 fun _ => false,.dropPooled 2 fun _ => false,
        .readiness fun value => value ≠ ⟨.http1 9⟩] = some w ∧ w.isOpen ⟨.http1 9⟩ = false ∧
      w.inner.idle 0 = some [⟨⟨.http1 7⟩,0⟩,⟨⟨.http1 8⟩,2⟩,⟨⟨.http1 9⟩,2⟩] :=
    ⟨_,_,_,_,rfl,rfl,rfl,rfl,rfl,rfl,rfl⟩
  have hr₁ : Reaches World.step ClockAdvances w₀ w₁ :=
    .ofRun (allowedAlong_of_forall (by simp [ClockAdvances,threeMade])) hrun₁
  have hr₂ : Reaches World.step ClockAdvances w₀ w₂ := by
    refine hr₁.step ?_ hclock
    change w₁.now ≤ 2
    rw [hnow]
    decide
  have hr : Reaches World.step ClockAdvances w₀ w :=
    hr₂.trans (.ofRun (allowedAlong_of_forall (by simp [ClockAdvances])) hrun₂)
  exact ⟨w₀,w,h₀,hr,hclosed,_,hidle,rfl,idle_representation h₀ hr 0 _ hidle⟩

end Invariant
end H12Tiny.Pool
