import H12Tiny.Pool.Queues

/-! # The channel invariant of the pool

Along every run the queues and channels agree, every checkout that waits owns a
channel filed under its own key, and no two checkouts own the same channel. From
it follows the invariant that a key never has both idle connections and a waiter
that could take one.
-/
namespace H12Tiny.Pool
variable {T K : Type*} [DecidableEq K]

namespace Inner

theorem queue_setWaiters (inner : Inner T K) (key : K) (v : Option (List ℕ)) :
    queue { inner with waiters := mapSet inner.waiters key v } = mapSet inner.queue key (v.getD []) := by
  funext k
  by_cases hk : k = key <;> simp [queue,mapSet_apply,hk]

theorem getD_nonempty (rest : List ℕ) : (if rest.isEmpty then none else some rest).getD [] = rest := by
  cases rest <;> rfl

theorem releaseH1Slot_eq (inner : Inner T K) (key : K) :
    ∃ counters flag, inner.releaseH1Slot key =
      { inner with h1Connections := counters, releasedAtZero := flag } := by
  unfold releaseH1Slot
  dsimp only
  split
  · exact ⟨_,_,rfl⟩
  · split
    · exact ⟨_,_,rfl⟩
    · exact ⟨_,_,rfl⟩

@[simp] theorem releaseH1Slot_connecting (inner : Inner T K) (key : K) :
    (inner.releaseH1Slot key).connecting = inner.connecting := by
  obtain ⟨_,_,h⟩ := releaseH1Slot_eq inner key; rw [h]
@[simp] theorem releaseH1Slot_idle (inner : Inner T K) (key : K) :
    (inner.releaseH1Slot key).idle = inner.idle := by
  obtain ⟨_,_,h⟩ := releaseH1Slot_eq inner key; rw [h]
@[simp] theorem releaseH1Slot_waiters (inner : Inner T K) (key : K) :
    (inner.releaseH1Slot key).waiters = inner.waiters := by
  obtain ⟨_,_,h⟩ := releaseH1Slot_eq inner key; rw [h]
@[simp] theorem releaseH1Slot_queue (inner : Inner T K) (key : K) :
    (inner.releaseH1Slot key).queue = inner.queue := by
  unfold queue; rw [releaseH1Slot_waiters]
@[simp] theorem releaseH1Slot_maxIdlePerHost (inner : Inner T K) (key : K) :
    (inner.releaseH1Slot key).maxIdlePerHost = inner.maxIdlePerHost := by
  obtain ⟨_,_,h⟩ := releaseH1Slot_eq inner key; rw [h]
@[simp] theorem releaseH1Slot_maxH1ConnectionsPerHost (inner : Inner T K) (key : K) :
    (inner.releaseH1Slot key).maxH1ConnectionsPerHost = inner.maxH1ConnectionsPerHost := by
  obtain ⟨_,_,h⟩ := releaseH1Slot_eq inner key; rw [h]

theorem apply_releaseH1Slot {V : Type*} {f : Inner T K → V} (h : ∀ inner key, f (releaseH1Slot inner key) = f inner)
    (flag : Bool) (inner : Inner T K) (key : K) :
    f (if flag = true then inner.releaseH1Slot key else inner) = f inner := by
  split
  · exact h inner key
  · rfl

theorem removeWaiters_queue (inner : Inner T K) (chans : Channels T K) (key : K) :
    (inner.removeWaiters chans key).1.queue = mapSet inner.queue key [] :=
  queue_setWaiters inner key none
@[simp] theorem removeWaiters_chans (inner : Inner T K) (chans : Channels T K) (key : K) :
    (inner.removeWaiters chans key).2 = chans.dropSenders (inner.queue key) := rfl

theorem connected_queue (inner : Inner T K) (chans : Channels T K) (key : K) :
    (inner.connected chans key).1.queue = mapSet inner.queue key [] := removeWaiters_queue _ _ _
theorem connected_chans (inner : Inner T K) (chans : Channels T K) (key : K) :
    (inner.connected chans key).2 = chans.dropSenders (inner.queue key) := rfl

theorem connectingCancelled_queue (inner : Inner T K) (chans : Channels T K) (key : K) (h1Slot : Bool) :
    (inner.connectingCancelled chans key h1Slot).1.queue = mapSet inner.queue key [] := by
  unfold connectingCancelled
  dsimp only
  rw [removeWaiters_queue]
  split
  · rw [releaseH1Slot_queue]
  · rfl
theorem connectingCancelled_chans (inner : Inner T K) (chans : Channels T K) (key : K) (h1Slot : Bool) :
    (inner.connectingCancelled chans key h1Slot).2 = chans.dropSenders (inner.queue key) := by
  unfold connectingCancelled
  dsimp only
  rw [removeWaiters_chans]
  split
  · rw [releaseH1Slot_queue]
  · rfl

theorem cleanWaiters_queue (inner : Inner T K) (chans : Channels T K) (key : K) :
    (inner.cleanWaiters chans key).1.queue =
      mapSet inner.queue key ((inner.queue key).filter (fun i => !chans.isCanceled i)) := by
  unfold cleanWaiters
  cases hw : inner.waiters key with
  | none =>
    dsimp only
    rw [mapSet_eq_self]
    simp [queue,hw]
  | some q =>
    dsimp only
    rw [queue_setWaiters,getD_nonempty]
    simp [queue,hw]
theorem cleanWaiters_chans (inner : Inner T K) (chans : Channels T K) (key : K) :
    (inner.cleanWaiters chans key).2 =
      chans.dropSenders ((inner.queue key).filter (fun i => chans.isCanceled i)) := by
  unfold cleanWaiters
  cases hw : inner.waiters key with
  | none => simp [queue,hw,Channels.dropSenders]
  | some q => simp [queue,hw]

theorem cleanWaiters_eq (inner : Inner T K) (chans : Channels T K) (key : K) :
    ∃ waiters, (inner.cleanWaiters chans key).1 = { inner with waiters := waiters } := by
  unfold cleanWaiters
  split
  · exact ⟨inner.waiters,rfl⟩
  · exact ⟨_,rfl⟩


section Put
variable [Poolable T] {vanish : ℕ → Bool} {now : ℕ} {inner inner' : Inner T K}
variable {chans chans' : Channels T K} {key : K} {v : T} {kept : Bool}

theorem PutOutcome.queuesOk (ho : PutOutcome vanish now inner chans key v kept inner' chans')
    (h : QueuesOk inner.queue chans) : QueuesOk inner'.queue chans' := by
  cases ho with
  | refused => exact h
  | @handed rest _ hh =>
    have hq := hh.queuesOk rfl h
    rwa [queue_setWaiters,getD_nonempty]
  | full hh _ _ =>
    have hq := hh.queuesOk rfl h
    have he := queue_setWaiters inner key none
    exact he ▸ hq
  | stored hh _ _ =>
    have hq := hh.queuesOk rfl h
    have he := queue_setWaiters inner key none
    exact he ▸ hq

theorem PutOutcome.evolves (ho : PutOutcome vanish now inner chans key v kept inner' chans')
    (h : QueuesOk inner.queue chans) : Evolves chans chans' := by
  have hheld : ∀ i ∈ inner.queue key, ∀ x, chans.get i = some x → x.chan.sender = .held := by
    intro i hi x hx
    obtain ⟨y,hy,_,hs⟩ := h.queued hi
    rw [hx] at hy
    cases hy
    exact hs
  cases ho with
  | refused => exact .refl _
  | handed hh => exact hh.evolves hheld (h.nodup key)
  | full hh _ _ => exact hh.evolves hheld (h.nodup key)
  | stored hh _ _ => exact hh.evolves hheld (h.nodup key)

end Put
end Inner

/-- Queues, channels and checkouts agree. -/
structure ChannelsOk (w : World T K) : Prop where
  queues : QueuesOk w.inner.queue w.chans
  owned : ∀ {c y i}, w.checkouts.get c = some y → y.waiter = some i →
    ∃ x, w.chans.get i = some x ∧ x.key = y.key
  distinct : ∀ {c d y z i}, w.checkouts.get c = some y → w.checkouts.get d = some z →
    y.waiter = some i → z.waiter = some i → c = d

omit [DecidableEq K] in
theorem channelsOk_new {config : Config} {timer : Bool} {w : World T K}
    (h : World.new config timer = some w) : ChannelsOk w := by
  unfold World.new at h
  split at h
  · cases h
    constructor
    · constructor
      · intro k i hi; simp [Inner.queue] at hi
      · intro i x hx; simp at hx
      · intro k; simp [Inner.queue]
      · intro i x hx; simp at hx
    · intro c y i hc; simp at hc
    · intro c d y z i hc; simp at hc
  · cases h

/-- What one step may do to the checkouts: a waiter is taken, or registered on the
fresh channel. -/
def CheckoutsStep (w w' : World T K) : Prop :=
  ∀ c y, w'.checkouts.get c = some y → ∀ i, y.waiter = some i →
    (∃ z, w.checkouts.get c = some z ∧ z.waiter = some i ∧ z.key = y.key) ∨
    (i = w.chans.next ∧ w'.chans.get i = some ⟨y.key,Oneshot.channel⟩ ∧
      ∀ d z, w'.checkouts.get d = some z → z.waiter = some i → d = c)

omit [DecidableEq K] in
theorem CheckoutsStep.of_eq {w w' : World T K} (h : w'.checkouts = w.checkouts) :
    CheckoutsStep w w' := by
  intro c y hy i hi
  rw [h] at hy
  exact Or.inl ⟨y,hy,hi,rfl⟩

omit [DecidableEq K] in
theorem CheckoutsStep.of_remove {w w' : World T K} {c : ℕ}
    (h : w'.checkouts = w.checkouts.remove c) : CheckoutsStep w w' := by
  intro d y hy i hi
  rw [h] at hy
  exact Or.inl ⟨y,(Table.get_of_remove hy).2,hi,rfl⟩

omit [DecidableEq K] in
theorem CheckoutsStep.of_take {w w' : World T K} {c : ℕ}
    (h : w'.checkouts = w.checkouts.modify c (fun checkout => { checkout with waiter := none })) :
    CheckoutsStep w w' := by
  intro d y hy i hi
  rw [h] at hy
  rcases Table.get_modify_cases hy with ⟨_,z,_,rfl⟩ | ⟨_,hy⟩
  · cases hi
  · exact Or.inl ⟨y,hy,hi,rfl⟩

omit [DecidableEq K] in
/-- The three parts of the channel invariant follow from their effects. -/
theorem ChannelsOk.step {w w' : World T K} (h : ChannelsOk w)
    (hq : QueuesOk w'.inner.queue w'.chans) (he : Evolves w.chans w'.chans)
    (hc : CheckoutsStep w w') : ChannelsOk w' := by
  refine ⟨hq,?_,?_⟩
  · intro c y i hy hi
    rcases hc c y hy i hi with ⟨z,hz,hzi,hk⟩ | ⟨_,hn,_⟩
    · obtain ⟨x,hx,hxk⟩ := h.owned hz hzi
      obtain ⟨x',hx',hk',_⟩ := he hx
      exact ⟨x',hx',hk'.trans (hxk.trans hk)⟩
    · exact ⟨_,hn,rfl⟩
  · intro c d y z i hy hz hyi hzi
    rcases hc c y hy i hyi with ⟨y',hy',hyi',_⟩ | ⟨_,_,hu⟩
    · rcases hc d z hz i hzi with ⟨z',hz',hzi',_⟩ | ⟨_,_,hu⟩
      · exact h.distinct hy' hz' hyi' hzi'
      · exact hu c y hy hyi
    · exact (hu d z hz hzi).symm

section Step
variable [Poolable T] {w w' : World T K} {a : Action T K}

omit [Poolable T] in
theorem dropQueue_queuesOk {inner : Inner T K} {chans : Channels T K} (h : QueuesOk inner.queue chans)
    (key : K) : QueuesOk (mapSet inner.queue key []) (chans.dropSenders (inner.queue key)) :=
  h.dropSenders key (List.nil_sublist _) (fun _ hi => Or.inr hi) (fun _ _ => List.not_mem_nil)
    (fun _ hi => hi)

theorem Transition.evolves (ht : Transition w a w') (h : ChannelsOk w) :
    Evolves w.chans w'.chans := by
  cases ht with
  | pooledShared hg hp hs ho =>
    exact (ho.evolves h.queues).trans (Evolves.dropSenders _ _)
  | pollOpen | pollClosed | pollDropped | cancelCheckout => exact Evolves.received _ _
  | registered => exact Evolves.alloc _ _
  | droppedPut hi ho hp hout => exact hout.evolves h.queues
  | cleanCheckout hc hw hcan =>
    dsimp only
    rw [Inner.cleanWaiters_chans]
    exact Evolves.dropSenders _ _
  | dropConnecting hg hp =>
    dsimp only
    rw [Inner.connectingCancelled_chans]
    exact Evolves.dropSenders _ _
  | _ => exact .refl _

theorem Transition.queuesOk (ht : Transition w a w') (h : ChannelsOk w) :
    QueuesOk w'.inner.queue w'.chans := by
  have hq := h.queues
  cases ht with
  | pooledShared hg hp hs ho =>
    dsimp only
    rw [Inner.connected_queue,Inner.connected_chans]
    exact dropQueue_queuesOk (ho.queuesOk hq) _
  | alpnRelease | droppedClosed =>
    dsimp only
    rw [Inner.apply_releaseH1Slot Inner.releaseH1Slot_queue]
    exact hq
  | pollOpen | pollClosed | pollDropped | cancelCheckout => exact hq.received _
  | @registered c checkout hc hw hn =>
    have hr := hq.register checkout.key
    have he := Inner.queue_setWaiters w.inner checkout.key
      (some (w.inner.queue checkout.key ++ [w.chans.next]))
    exact he ▸ hr
  | droppedPut hi ho hp hout =>
    dsimp only
    rw [Inner.apply_releaseH1Slot Inner.releaseH1Slot_queue]
    exact hout.queuesOk hq
  | @cleanCheckout c i checkout hc hw hcan =>
    dsimp only
    rw [Inner.cleanWaiters_queue,Inner.cleanWaiters_chans]
    refine hq.dropSenders checkout.key List.filter_sublist ?_ ?_ ?_
    · intro j hj
      cases hcj : w.chans.isCanceled j with
      | true => exact Or.inr (List.mem_filter.mpr ⟨hj,hcj⟩)
      | false => exact Or.inl (List.mem_filter.mpr ⟨hj,by simp [hcj]⟩)
    · intro j hj hk
      have h1 := (List.mem_filter.mp hj).2
      have h2 := (List.mem_filter.mp hk).2
      simp [h1] at h2
    · intro j hj
      exact (List.mem_filter.mp hj).1
  | dropConnecting hg hp =>
    dsimp only
    rw [Inner.connectingCancelled_queue,Inner.connectingCancelled_chans]
    exact dropQueue_queuesOk hq _
  | _ => exact hq

theorem Transition.checkoutsStep (ht : Transition w a w') (h : ChannelsOk w) : CheckoutsStep w w' := by
  cases ht with
  | @newCheckout key =>
    intro c y hy i hi
    rcases Table.get_alloc_cases hy with ⟨_,rfl⟩ | hy
    · cases hi
    · exact Or.inl ⟨y,hy,hi,rfl⟩
  | pollOpen | pollClosed | pollDropped => exact CheckoutsStep.of_take rfl
  | @registered c checkout hc hw hn =>
    have hold : ∀ d z, w.checkouts.get d = some z → z.waiter ≠ some w.chans.next := by
      intro d z hz hzi
      obtain ⟨x,hx,_⟩ := h.owned hz hzi
      have hlt := Table.lt_next hx
      omega
    intro d y hy i hi
    rcases Table.get_modify_cases hy with ⟨hd,z,hz,rfl⟩ | ⟨_,hy⟩
    · cases hi
      refine Or.inr ⟨rfl,?_,?_⟩
      · rw [hc] at hz
        cases hz
        exact Table.get_alloc_self _ _
      · intro e z' hz' hzi
        rcases Table.get_modify_cases hz' with ⟨he,_⟩ | ⟨_,hz'⟩
        · exact he.trans hd.symm
        · exact absurd hzi (hold e z' hz')
    · exact Or.inl ⟨y,hy,hi,rfl⟩
  | dropCheckout | cleanCheckout => exact CheckoutsStep.of_remove rfl
  | _ => exact CheckoutsStep.of_eq rfl

theorem Transition.channelsOk (ht : Transition w a w') (h : ChannelsOk w) : ChannelsOk w' :=
  h.step (ht.queuesOk h) (ht.evolves h) (ht.checkoutsStep h)

/-- Queues, channels and checkouts agree in every reachable state. -/
theorem reaches_channelsOk {allowed : World T K → Action T K → Prop} {config : Config} {timer : Bool}
    {w₀ : World T K} (h₀ : World.new config timer = some w₀)
    (h : Reaches World.step allowed w₀ w) : ChannelsOk w :=
  Reaches.invariant (fun hi _ hs => (step_transition hs).channelsOk hi) (channelsOk_new h₀) h

end Step
end H12Tiny.Pool
