import H12Tiny.Pool.SlotBounds

/-! # The single owner of an H2 establishment

The marker of a key in `connecting` and the live H2 guards of the key are tied by
counting: one guard when the marker is set and none otherwise. When such a guard
ends, whether its connection was pooled or not, the queue of the key is emptied,
and with the channel invariant no sender of the key is left unused.
-/
namespace H12Tiny.Pool
variable {T K : Type*} [DecidableEq K]

def Connecting.ownsMarker (guard : Connecting K) : Bool := guard.pool && !guard.h1Slot

def markerOwners (guards : Table (Connecting K)) (k : K) : ℕ :=
  guards.count (fun guard => guard.ownsMarker && decide (guard.key = k))

theorem markerOwners_alloc (guards : Table (Connecting K)) (guard : Connecting K) (k : K) :
    markerOwners (guards.alloc guard) k =
      markerOwners guards k + slotAt guard.key guard.ownsMarker k :=
  Table.count_alloc _ _ _
theorem markerOwners_remove {guards : Table (Connecting K)} {g : ℕ} {guard : Connecting K}
    (h : guards.get g = some guard) (k : K) :
    markerOwners (guards.remove g) k + slotAt guard.key guard.ownsMarker k = markerOwners guards k :=
  Table.count_remove _ _ h
theorem markerOwners_clear {guards : Table (Connecting K)} {g : ℕ} {guard : Connecting K} (pool : Bool)
    (h : guards.get g = some guard) (k : K) :
    markerOwners (guards.modify g (fun guard => { guard with h1Slot := false, pool := pool })) k +
      slotAt guard.key guard.ownsMarker k = markerOwners guards k + slotAt guard.key pool k := by
  have hc := Table.count_modify
    (fun guard : Connecting K => guard.ownsMarker && decide (guard.key = k)) guards
    (fun guard => { guard with h1Slot := false, pool := pool }) h
  have he : (Connecting.mk guard.key pool false).ownsMarker = pool := by simp [Connecting.ownsMarker]
  dsimp only at hc
  rw [he] at hc
  exact hc

/-- The marker is set exactly when one live H2 guard exists. -/
def MarkerOk (w : World T K) : Prop :=
  ∀ k, markerOwners w.guards k = (w.inner.connecting k).toNat

section Steps
variable {w w' : World T K}

theorem MarkerOk.of_same (h : MarkerOk w) (hg : w'.guards = w.guards)
    (hc : w'.inner.connecting = w.inner.connecting) : MarkerOk w' := by
  intro k
  rw [hg,hc]
  exact h k

theorem MarkerOk.set (h : MarkerOk w) {key : K} (hclear : w.inner.connecting key = false)
    (hg : ∀ k, markerOwners w'.guards k = markerOwners w.guards k + slotAt key true k)
    (hc : w'.inner.connecting = mapSet w.inner.connecting key true) : MarkerOk w' := by
  intro k
  have hk := h k
  rw [hg k,hk,hc,mapSet_apply]
  by_cases he : k = key
  · subst he
    simp [hclear,slotAt]
  · have hne : key ≠ k := fun h => he h.symm
    simp [he,hne,slotAt]

theorem MarkerOk.clear (h : MarkerOk w) (key : K)
    (hg : ∀ k, markerOwners w'.guards k + slotAt key true k = markerOwners w.guards k)
    (hc : w'.inner.connecting = mapSet w.inner.connecting key false) : MarkerOk w' := by
  intro k
  have hk := h k
  have hgk := hg k
  rw [hc,mapSet_apply]
  by_cases he : k = key
  · subst he
    have hle : (w.inner.connecting k).toNat ≤ 1 := Bool.toNat_le _
    have hone : slotAt k true k = 1 := by simp [slotAt]
    rw [if_pos rfl]
    simp only [Bool.toNat_false]
    omega
  · have hzero : slotAt key true k = 0 := by
      have hne : key ≠ k := fun h => he h.symm
      simp [slotAt,hne]
    rw [if_neg he]
    omega

theorem MarkerOk.release (h : MarkerOk w) (guard : Connecting K) (hown : guard.ownsMarker = false)
    (hg : ∀ k, markerOwners w'.guards k + slotAt guard.key guard.ownsMarker k = markerOwners w.guards k)
    (hc : w'.inner.connecting = w.inner.connecting) : MarkerOk w' := by
  intro k
  have hgk := hg k
  rw [hown,slotAt_false,Nat.add_zero] at hgk
  rw [hgk,hc]
  exact h k

theorem Inner.connectingCancelled_connecting (inner : Inner T K) (chans : Channels T K) (key : K)
    (h1Slot : Bool) :
    (inner.connectingCancelled chans key h1Slot).1.connecting =
      if h1Slot then inner.connecting else mapSet inner.connecting key false := by
  cases h1Slot with
  | false => rfl
  | true => exact releaseH1Slot_connecting inner key

theorem Inner.PutOutcome.connecting_eq [Poolable T] {vanish : ℕ → Bool} {now : ℕ}
    {inner inner' : Inner T K} {chans chans' : Channels T K} {key : K} {v : T} {kept : Bool}
    (ho : PutOutcome vanish now inner chans key v kept inner' chans') :
    inner'.connecting = inner.connecting := by
  cases ho <;> rfl

variable [Poolable T] {a : Action T K}

theorem Transition.markerOk (ht : Transition w a w') (hi : Issued w a) (h : MarkerOk w) :
    MarkerOk w' := by
  cases ht with
  | @marked key hc =>
    refine h.set hc ?_ rfl
    intro k
    exact markerOwners_alloc w.guards ⟨key,true,false⟩ k
  | @reserved key protocol hp hm =>
    refine h.release ⟨key,true,true⟩ rfl ?_ rfl
    intro k
    exact markerOwners_alloc w.guards ⟨key,true,true⟩ k
  | @pooledShared g guard value vanish kept inner chans hg hp hs ho =>
    have hown : guard.ownsMarker = true := by
      have hslot := hi guard hg
      rw [hs] at hslot
      simp [Connecting.ownsMarker,hp,hslot]
    refine h.clear guard.key ?_ ?_
    · intro k
      have hr := markerOwners_remove hg k
      rw [hown] at hr
      exact hr
    · change mapSet inner.connecting guard.key false = _
      rw [ho.connecting_eq]
  | @pooledUnique g guard value vanish hg hp hs =>
    have hown : guard.ownsMarker = false := by
      have hslot := hi guard hg
      rw [hs] at hslot
      simp [Connecting.ownsMarker,hslot]
    exact h.release guard hown (markerOwners_remove hg) rfl
  | @alpnRelease g guard hg hp =>
    have hslot := hi guard hg
    have hown : guard.ownsMarker = false := by simp [Connecting.ownsMarker,hslot]
    refine h.release guard hown (fun k => ?_) ?_
    · have hr := markerOwners_clear false hg k
      rw [slotAt_false,Nat.add_zero] at hr
      exact hr
    · simp [hslot]
  | @alpnLost g guard hg hp hc =>
    have hown : guard.ownsMarker = false := by simp [Connecting.ownsMarker,hp]
    exact h.release guard hown (markerOwners_remove hg) rfl
  | @alpnWon g guard hg hp hc =>
    refine h.set hc ?_ rfl
    intro k
    have hown : guard.ownsMarker = false := by simp [Connecting.ownsMarker,hp]
    have hr := markerOwners_clear true hg k
    rw [hown,slotAt_false,Nat.add_zero] at hr
    exact hr
  | @dropConnecting g guard hg hp =>
    have hcc := Inner.connectingCancelled_connecting w.inner w.chans guard.key guard.h1Slot
    cases hslot : guard.h1Slot with
    | true =>
      have hown : guard.ownsMarker = false := by simp [Connecting.ownsMarker,hslot]
      rw [hslot,if_pos rfl] at hcc
      exact h.release guard hown (markerOwners_remove hg) hcc
    | false =>
      have hown : guard.ownsMarker = true := by simp [Connecting.ownsMarker,hp,hslot]
      rw [hslot,if_neg Bool.false_ne_true] at hcc
      refine h.clear guard.key (fun k => ?_) hcc
      have hr := markerOwners_remove hg k
      rw [hown] at hr
      exact hr
  | droppedClosed =>
    exact h.of_same rfl (Inner.apply_releaseH1Slot Inner.releaseH1Slot_connecting _ _ _)
  | droppedPut hi ho hp hout =>
    refine h.of_same rfl ?_
    rw [Inner.apply_releaseH1Slot Inner.releaseH1Slot_connecting,hout.connecting_eq]
  | @cleanCheckout c i checkout hc hw hcan =>
    obtain ⟨waiters,he⟩ := Inner.cleanWaiters_eq w.inner w.chans checkout.key
    refine h.of_same rfl ?_
    dsimp only
    rw [he]
  | _ => exact h.of_same rfl rfl

omit [DecidableEq K] [Poolable T] in
/-- A key with an empty queue has no unused sender. -/
theorem ChannelsOk.senders_used (h : ChannelsOk w) {key : K} (hq : w.inner.queue key = []) {i : ℕ}
    {x : Waiter T K} (hx : w.chans.get i = some x) (hk : x.key = key) :
    x.chan.sender = .sent ∨ x.chan.sender = .dropped := by
  cases hs : x.chan.sender with
  | sent => exact Or.inl rfl
  | dropped => exact Or.inr rfl
  | held =>
    have hmem := h.queues.held hx hs
    rw [hk,hq] at hmem
    cases hmem

/-- The queue of the key is empty after the step that ends an H2 guard. -/
theorem Transition.queue_of_ended (ht : Transition w a w') (hi : Issued w a) {g : ℕ}
    {guard : Connecting K} (hg : w.guards.get g = some guard) (hown : guard.ownsMarker = true)
    (hend : w'.guards.get g = none) : w'.inner.queue guard.key = [] := by
  have hpool : guard.pool = true := by
    rw [Connecting.ownsMarker,Bool.and_eq_true] at hown
    exact hown.1
  have hslot : guard.h1Slot = false := by
    rw [Connecting.ownsMarker,Bool.and_eq_true] at hown
    simpa using hown.2
  have hother : ∀ {g' : ℕ}, (w.guards.remove g').get g = none → g = g' := by
    intro g' hn
    by_cases he : g = g'
    · exact he
    · rw [Table.get_remove_ne _ he,hg] at hn
      cases hn
  have hmodified : ∀ {g' : ℕ} {f : Connecting K → Connecting K},
      (w.guards.modify g' f).get g ≠ none := by
    intro g' f hn
    rw [Table.get_modify] at hn
    split at hn
    · rename_i he
      rw [← he,hg] at hn
      cases hn
    · rw [hg] at hn
      cases hn
  cases ht with
  | @pooledShared g' guard' value vanish kept inner chans hg' hp hs ho =>
    obtain rfl := hother hend
    rw [hg] at hg'
    cases hg'
    dsimp only
    rw [Inner.connected_queue,mapSet_self]
  | @pooledUnique g' guard' value vanish hg' hp hs =>
    obtain rfl := hother hend
    have hmatch := hi guard hg
    rw [hslot,hs] at hmatch
    cases hmatch
  | @alpnLost g' guard' hg' hp hc =>
    obtain rfl := hother hend
    rw [hg] at hg'
    cases hg'
    rw [hpool] at hp
    cases hp
  | @dropConnecting g' guard' hg' hp =>
    obtain rfl := hother hend
    rw [hg] at hg'
    cases hg'
    dsimp only
    rw [Inner.connectingCancelled_queue,mapSet_self]
  | marked | reserved =>
    rw [Table.get_alloc_of_some _ hg] at hend
    cases hend
  | alpnRelease | alpnWon => exact absurd hend hmodified
  | _ =>
    have hsame : w.guards.get g = none := hend
    rw [hg] at hsame
    cases hsame

/-- Under an H2 guard only shareable values are pooled; nothing is said about the guards
that hold an H1 slot. -/
def SharedUnderH2 (w : World T K) : Action T K → Prop
  | .pooled g value _ => ∀ guard, w.guards.get g = some guard → guard.h1Slot = false →
      canShare value = true
  | _ => True

section Run
variable {config : Config} {timer : Bool} {w₀ : World T K}

/-- In every reachable state a key is marked exactly when it has one live H2 guard,
and when that guard ends no sender registered for the key is left unused. -/
theorem single_h2_owner (h₀ : World.new config timer = some w₀)
    (h : Reaches World.step Issued w₀ w) :
    (∀ key, w.guards.count (fun guard => guard.ownsMarker && decide (guard.key = key)) =
      if w.inner.connecting key then 1 else 0) ∧
    ∀ a w', Issued w a → w.step a = some w' → ∀ g guard, w.guards.get g = some guard →
      guard.ownsMarker = true → w'.guards.get g = none →
      ∀ i x, w.chans.get i = some x → x.key = guard.key →
        ∃ x', w'.chans.get i = some x' ∧ (x'.chan.sender = .sent ∨ x'.chan.sender = .dropped) := by
  have hok := reaches_channelsOk h₀ h
  have hnew : MarkerOk w₀ := by
    unfold World.new at h₀
    split at h₀
    · cases h₀
      exact fun k => rfl
    · cases h₀
  have hmark : MarkerOk w :=
    Reaches.invariant (fun hm hi hs => (step_transition hs).markerOk hi hm) hnew h
  refine ⟨?_,?_⟩
  · intro key
    have hk := hmark key
    unfold markerOwners at hk
    rw [hk]
    cases w.inner.connecting key <;> rfl
  · intro a w' hi hs g guard hg hown hend i x hx hk
    have ht := step_transition hs
    have hq := ht.queue_of_ended hi hg hown hend
    obtain ⟨x',hx',hk',_⟩ := ht.evolves hok hx
    exact ⟨x',hx',(ht.channelsOk hok).senders_used hq hx' (hk'.trans hk)⟩

/-- Two guards race through `alpn_h2` while a request waits. The winner owns the
marker alone, and when it is cancelled the waiter's sender is dropped. -/
theorem single_h2_owner_race : ∃ w₀ w w' : World PoolClient ℕ,
    World.new ⟨none,1,2⟩ false = some w₀ ∧ Reaches World.step Issued w₀ w ∧
    w.inner.connecting 0 = true ∧
    (∀ key, w.guards.count (fun guard => guard.ownsMarker && decide (guard.key = key)) =
      if w.inner.connecting key then 1 else 0) ∧
    w.step (.dropConnecting 0) = some w' ∧
    ∃ x', w'.chans.get 0 = some x' ∧ (x'.chan.sender = .sent ∨ x'.chan.sender = .dropped) := by
  obtain ⟨w₀,u₁,u₂,u₃,w,w',h₀,hrun,hg₀,hs₁,hg₁,hs₂,hrace,hmark,hg,hstep,hend,hx⟩ :
      ∃ w₀ u₁ u₂ u₃ w w' : World PoolClient ℕ, World.new ⟨none,1,2⟩ false = some w₀ ∧
      runActions World.step w₀ [.connecting 0 .auto,.connecting 0 .auto,.newCheckout 0,.checkout 0] =
        some u₁ ∧
      u₁.guards.get 0 = some ⟨0,true,true⟩ ∧ u₁.step (.alpnRelease 0) = some u₂ ∧
      u₂.guards.get 1 = some ⟨0,true,true⟩ ∧ u₂.step (.alpnRelease 1) = some u₃ ∧
      runActions World.step u₃ [.alpnMark 0,.alpnMark 1] = some w ∧ w.inner.connecting 0 = true ∧
      w.guards.get 0 = some ⟨0,true,false⟩ ∧ w.step (.dropConnecting 0) = some w' ∧
      w'.guards.get 0 = none ∧ w.chans.get 0 = some ⟨0,Oneshot.channel⟩ :=
    ⟨_,_,_,_,_,_,rfl,rfl,rfl,rfl,rfl,rfl,rfl,rfl,rfl,rfl,rfl,rfl⟩
  have hissued : ∀ {u : World PoolClient ℕ} {g : ℕ}, u.guards.get g = some ⟨0,true,true⟩ →
      Issued u (.alpnRelease g) := by
    intro u g hg guard hget
    rw [hg] at hget
    cases hget
    rfl
  have hr₁ : Reaches World.step Issued w₀ u₁ :=
    .ofRun (allowedAlong_of_forall (by simp [Issued])) hrun
  have hr₃ : Reaches World.step Issued w₀ u₃ := (hr₁.step (hissued hg₀) hs₁).step (hissued hg₁) hs₂
  have hr : Reaches World.step Issued w₀ w :=
    hr₃.trans (.ofRun (allowedAlong_of_forall (by simp [Issued])) hrace)
  have howner := single_h2_owner h₀ hr
  have hlast : Issued w (.dropConnecting 0) := trivial
  exact ⟨w₀,w,w',h₀,hr,hmark,howner.1,hstep,
    howner.2 _ w' hlast hstep 0 _ hg rfl hend 0 _ hx rfl⟩

/-- Nothing else than what the caller does keeps the marker with its guard: a shareable
value pooled under a guard with an H1 slot clears the marker of another live guard, and
an H2 guard passed through `alpn_h2` leaves its marker behind. -/
theorem single_h2_owner_lost :
    (∃ w₀ w : World PoolClient ℕ, World.new ⟨none,1,2⟩ false = some w₀ ∧
      Reaches World.step SharedUnderH2 w₀ w ∧ w.guards.get 0 = some ⟨0,true,false⟩ ∧ ¬ MarkerOk w) ∧
    ∃ w₀ w : World PoolClient ℕ, World.new ⟨none,1,2⟩ false = some w₀ ∧
      Reaches World.step SharedUnderH2 w₀ w ∧ w.guards.get 0 = none ∧ ¬ MarkerOk w := by
  constructor
  · obtain ⟨w₀,u,w,h₀,hrun,hguard,hpooled,hlive,hcount,hmark⟩ : ∃ w₀ u w : World PoolClient ℕ,
        World.new ⟨none,1,2⟩ false = some w₀ ∧
        runActions World.step w₀ [.connecting 0 .http2,.connecting 0 .auto] = some u ∧
        u.guards.get 1 = some ⟨0,true,true⟩ ∧
        u.step (.pooled 1 ⟨.http2 7⟩ (fun _ => false)) = some w ∧
        w.guards.get 0 = some ⟨0,true,false⟩ ∧
        markerOwners w.guards 0 = 1 ∧ w.inner.connecting 0 = false :=
      ⟨_,_,_,rfl,rfl,rfl,rfl,rfl,rfl,rfl⟩
    have hshared : SharedUnderH2 u (.pooled 1 ⟨.http2 7⟩ (fun _ => false)) := by
      intro guard hg hslot
      rw [hguard] at hg
      cases hg
      cases hslot
    have hr : Reaches World.step SharedUnderH2 w₀ u :=
      .ofRun (allowedAlong_of_forall (by simp [SharedUnderH2])) hrun
    refine ⟨w₀,w,h₀,hr.step hshared hpooled,hlive,?_⟩
    intro h
    have hzero := h 0
    rw [hcount,hmark] at hzero
    cases hzero
  · obtain ⟨w₀,w,h₀,hrun,hgone,hcount,hmark⟩ : ∃ w₀ w : World PoolClient ℕ,
        World.new ⟨none,1,2⟩ false = some w₀ ∧
        runActions World.step w₀ [.connecting 0 .http2,.alpnRelease 0,.alpnMark 0] = some w ∧
        w.guards.get 0 = none ∧ markerOwners w.guards 0 = 0 ∧ w.inner.connecting 0 = true :=
      ⟨_,_,rfl,rfl,rfl,rfl,rfl⟩
    have hr : Reaches World.step SharedUnderH2 w₀ w :=
      .ofRun (allowedAlong_of_forall (by simp [SharedUnderH2])) hrun
    refine ⟨w₀,w,h₀,hr,hgone,?_⟩
    intro h
    have hzero := h 0
    rw [hcount,hmark] at hzero
    cases hzero

end Run
end Steps
end H12Tiny.Pool
