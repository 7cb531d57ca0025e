import H12Tiny.Pool.SlotBalance

/-! # The bounds on H1 connections

The counter of a key is compared with the connections that hold its slots. Issued
the way the client issues them, the operations never let more connections hold a
slot than the counter says, and the counter never passes the cap. The converse,
that no slot is lost, fails: a connection found closed or expired by the popper,
the sweeper or the waiter it was handed to, or left behind in an abandoned
checkout, goes away with its slot still counted.
-/
namespace H12Tiny.Pool
variable {T K : Type*} [DecidableEq K] [Poolable T] {w w' : World T K} {a : Action T K}

/-- The way `connect_to` uses guards: a connection is pooled under the kind of
guard it needs, and only a guard that holds a slot is passed through `alpn_h2`. -/
def Issued (w : World T K) : Action T K → Prop
  | .pooled g value _ => ∀ guard, w.guards.get g = some guard → guard.h1Slot = !canShare value
  | .alpnRelease g => ∀ guard, w.guards.get g = some guard → guard.h1Slot = true
  | _ => True

omit [DecidableEq K] in
theorem ItemsOk.of_same (h : ItemsOk w) (hg : w'.guards = w.guards) (hp : w'.pooled = w.pooled) :
    ItemsOk w' :=
  ⟨fun hi => h.converting (hg ▸ hi),fun hi => h.slotted (hp ▸ hi)⟩

omit [DecidableEq K] in
theorem ItemsOk.reused (h : ItemsOk w) {value : T} {key : K} (hg : w'.guards = w.guards)
    (hp : w'.pooled = w.pooled.alloc ⟨value,true,key,!canShare value,!canShare value⟩) : ItemsOk w' := by
  refine ⟨fun hi => h.converting (hg ▸ hi),?_⟩
  intro p item hi hs
  rw [hp] at hi
  rcases Table.get_alloc_cases hi with ⟨_,rfl⟩ | hi
  · exact ⟨hs,by simpa using hs⟩
  · exact h.slotted hi hs

omit [DecidableEq K] in
theorem ItemsOk.dropped (h : ItemsOk w) {p : ℕ} (hg : w'.guards = w.guards)
    (hp : w'.pooled = w.pooled.remove p) : ItemsOk w' := by
  refine ⟨fun hi => h.converting (hg ▸ hi),?_⟩
  intro q item hi hs
  rw [hp] at hi
  exact h.slotted (Table.get_of_remove hi).2 hs

omit [DecidableEq K] in
theorem ItemsOk.guarded (h : ItemsOk w) {g : ℕ} (hg : w'.guards = w.guards.remove g)
    (hp : ∀ {p item}, w'.pooled.get p = some item → item.h1Slot = true →
      item.pool = true ∧ canShare item.value = false) : ItemsOk w' := by
  refine ⟨?_,hp⟩
  intro g' guard hi
  rw [hg] at hi
  exact h.converting (Table.get_of_remove hi).2

theorem Transition.itemsOk (ht : Transition w a w') (h : ItemsOk w) : ItemsOk w' := by
  have halloc : ∀ {key : K} {slot : Bool} {u : World T K},
      u.guards = w.guards.alloc ⟨key,true,slot⟩ → u.pooled = w.pooled → ItemsOk u := by
    intro key slot u hg hp
    refine ⟨?_,fun hi => h.slotted (hp ▸ hi)⟩
    intro g guard hi hpool
    rw [hg] at hi
    rcases Table.get_alloc_cases hi with ⟨_,rfl⟩ | hi
    · cases hpool
    · exact h.converting hi hpool
  have hclear : ∀ {g : ℕ} {pool : Bool} {u : World T K},
      u.guards = w.guards.modify g (fun guard => { guard with h1Slot := false, pool := pool }) →
      u.pooled = w.pooled → ItemsOk u := by
    intro g pool u hg hp
    refine ⟨?_,fun hi => h.slotted (hp ▸ hi)⟩
    intro g' guard hi hpool
    rw [hg] at hi
    rcases Table.get_modify_cases hi with ⟨_,b,_,rfl⟩ | ⟨_,hi⟩
    · rfl
    · exact h.converting hi hpool
  cases ht with
  | marked | reserved => exact halloc rfl rfl
  | pooledShared =>
    refine h.guarded rfl ?_
    intro p item hi hs
    rcases Table.get_alloc_cases hi with ⟨_,rfl⟩ | hi
    · cases hs
    · exact h.slotted hi hs
  | pooledUnique hg hp hs =>
    refine h.guarded rfl ?_
    intro p item hi hslot
    rcases Table.get_alloc_cases hi with ⟨_,rfl⟩ | hi
    · exact ⟨rfl,hs⟩
    · exact h.slotted hi hslot
  | alpnRelease | alpnWon => exact hclear rfl rfl
  | alpnLost | dropConnecting => exact h.guarded rfl (fun hi => h.slotted hi)
  | pollOpen | popped => exact h.reused rfl rfl
  | droppedClosed | droppedPut | droppedDetached => exact h.dropped rfl rfl
  | _ => exact h.of_same rfl rfl

theorem Transition.backed (ht : Transition w a w') (hi : Issued w a) (h : Backed w) : Backed w' := by
  have halloc : ∀ {item : Pooled T K} {u : World T K}, u.pooled = w.pooled.alloc item →
      (item.pool = true → item.h1Slot = true) → Backed u := by
    intro item u hp hb p it hget
    rw [hp] at hget
    rcases Table.get_alloc_cases hget with ⟨_,rfl⟩ | hget
    · exact hb
    · exact h p it hget
  have hremove : ∀ {p : ℕ} {u : World T K}, u.pooled = w.pooled.remove p → Backed u := by
    intro p u hp q it hget
    rw [hp] at hget
    exact h q it (Table.get_of_remove hget).2
  cases ht with
  | pooledShared => exact halloc rfl (fun hp => nomatch hp)
  | @pooledUnique g guard value vanish hg hp hs =>
    have hslot := hi guard hg
    rw [hs] at hslot
    exact halloc rfl (fun _ => hslot)
  | pollOpen | popped => exact halloc rfl id
  | droppedClosed | droppedPut | droppedDetached => exact hremove rfl
  | _ => exact h

section New
variable {config : Config} {timer : Bool} {w₀ : World T K}

theorem holders_new (h₀ : World.new config timer = some w₀) :
    ItemsOk w₀ ∧ Backed w₀ ∧ (∀ k, holders w₀ k = 0) ∧ (∀ k, w₀.inner.h1Count k = 0) ∧
    w₀.inner.releasedAtZero = false ∧
    w₀.inner.maxH1ConnectionsPerHost = config.maxH1ConnectionsPerHost := by
  unfold World.new at h₀
  split at h₀
  · cases h₀
    refine ⟨⟨?_,?_⟩,?_,fun k => rfl,fun k => rfl,rfl,rfl⟩
    · intro g guard hi
      cases hi
    · intro p item hi
      cases hi
    · intro p item hi
      cases hi
  · cases h₀

/-- Along a run that lets no connection go without its slot, the counter of a key
is at most the number of its live holders. -/
theorem h1_slots_retained (h₀ : World.new config timer = some w₀)
    (h : Reaches World.step Retains w₀ w) (key : K) : w.inner.h1Count key ≤ holders w key := by
  obtain ⟨hitems,_,hhold,hcount,_,_⟩ := holders_new h₀
  have hinv : (ChannelsOk w ∧ ItemsOk w) ∧ ∀ k, w.inner.h1Count k ≤ holders w k := by
    refine Reaches.invariant (I := fun u : World T K =>
      (ChannelsOk u ∧ ItemsOk u) ∧ ∀ k, u.inner.h1Count k ≤ holders u k) ?_ ?_ h
    · intro u b u' hu hb hs
      obtain ⟨⟨hok,hit⟩,hle⟩ := hu
      have ht := step_transition hs
      obtain ⟨_,_,_,_,he,hleak,_⟩ := ht.accounted hok
      exact ⟨⟨ht.channelsOk hok,ht.itemsOk hit⟩,he.count_le (hleak hit hb) hle⟩
    · exact ⟨⟨channelsOk_new h₀,hitems⟩,fun k => by rw [hcount k]; exact Nat.zero_le _⟩
  exact hinv.2 key

/-- A returned connection keeps its slot while it is idle. -/
theorem h1_slots_retained_idle : ∃ w₀ w : World PoolClient ℕ,
    World.new ⟨none,2,1⟩ false = some w₀ ∧ Reaches World.step Retains w₀ w ∧
    w.inner.h1Count 0 = 1 ∧ w.inner.h1Count 0 ≤ holders w 0 := by
  obtain ⟨w₀,w,h₀,hrun,hcount⟩ : ∃ w₀ w : World PoolClient ℕ,
      World.new ⟨none,2,1⟩ false = some w₀ ∧
      runActions World.step w₀ [.connecting 0 .http1,.pooled 0 ⟨.http1 7⟩ (fun _ => false),
        .dropPooled 0 (fun _ => false)] = some w ∧
      w.inner.h1Count 0 = 1 := ⟨_,_,rfl,rfl,rfl⟩
  have hcond : ∀ (u : World PoolClient ℕ), ∀ b ∈ ([.connecting 0 .http1,
      .pooled 0 ⟨.http1 7⟩ (fun _ => false),.dropPooled 0 (fun _ => false)] : List (Action PoolClient ℕ)),
      Retains u b := by
    intro u b hb
    simp only [List.mem_cons,List.not_mem_nil,or_false] at hb
    rcases hb with rfl | rfl | rfl
    · trivial
    · exact fun guard _ _ => rfl
    · trivial
  have hr : Reaches World.step Retains w₀ w := .ofRun (allowedAlong_of_forall hcond) hrun
  exact ⟨w₀,w,h₀,hr,hcount,h1_slots_retained h₀ hr 0⟩

/-- The connection of a cap of one is returned and closes while it is idle. The
next checkout evicts it, its slot stays counted, and no request can connect. -/
theorem h1_slot_leaked : ∃ w₀ w : World PoolClient ℕ,
    World.new ⟨none,2,1⟩ false = some w₀ ∧ Reaches World.step (fun _ _ => True) w₀ w ∧
    ¬ w.inner.h1Count 0 ≤ holders w 0 ∧ (w.connecting 0 .http1).1 = none := by
  obtain ⟨w₀,w,h₀,hrun,hcount,hhold,hnone⟩ : ∃ w₀ w : World PoolClient ℕ,
      World.new ⟨none,2,1⟩ false = some w₀ ∧
      runActions World.step w₀ [.connecting 0 .http1,.pooled 0 ⟨.http1 7⟩ (fun _ => false),
        .dropPooled 0 (fun _ => false),.readiness (fun _ => false),.newCheckout 0,.checkout 0] =
          some w ∧
      w.inner.h1Count 0 = 1 ∧ holders w 0 = 0 ∧ (w.connecting 0 .http1).1 = none :=
    ⟨_,_,rfl,rfl,rfl,rfl,rfl⟩
  refine ⟨w₀,w,h₀,.ofRun (allowedAlong_of_forall fun _ _ _ => trivial) hrun,?_,hnone⟩
  rw [hcount,hhold]
  decide

theorem reaches_itemsOk {allowed : World T K → Action T K → Prop}
    (h₀ : World.new config timer = some w₀) (h : Reaches World.step allowed w₀ w) : ItemsOk w :=
  Reaches.invariant (fun hi _ hs => (step_transition hs).itemsOk hi) (holders_new h₀).1 h

/-- However the operations are issued, a slot is only counted below the cap. -/
theorem reaches_count_le {allowed : World T K → Action T K → Prop} (h₀ : World.new config timer = some w₀)
    (h : Reaches World.step allowed w₀ w) (key : K) : w.inner.h1Count key ≤ w.inner.maxH1ConnectionsPerHost := by
  obtain ⟨_,_,_,hcount,_,_⟩ := holders_new h₀
  have hinv : ChannelsOk w ∧ ∀ k, w.inner.h1Count k ≤ w.inner.maxH1ConnectionsPerHost := by
    refine Reaches.invariant (I := fun u : World T K =>
      ChannelsOk u ∧ ∀ k, u.inner.h1Count k ≤ u.inner.maxH1ConnectionsPerHost) ?_ ?_ h
    · intro u b u' hu _ hs
      have ht := step_transition hs
      obtain ⟨_,_,_,_,he,_⟩ := ht.accounted hu.1
      exact ⟨ht.channelsOk hu.1,he.count_capped hu.2⟩
    · refine ⟨channelsOk_new h₀,fun k => ?_⟩
      rw [hcount k]
      exact Nat.zero_le _
  exact hinv.2 key

theorem reaches_capped (h₀ : World.new config timer = some w₀) (h : Reaches World.step Issued w₀ w) :
    w.inner.maxH1ConnectionsPerHost = config.maxH1ConnectionsPerHost ∧
    (∀ k, holders w k ≤ w.inner.h1Count k) ∧
    (∀ k, w.inner.h1Count k ≤ w.inner.maxH1ConnectionsPerHost) ∧
    w.inner.releasedAtZero = false := by
  obtain ⟨_,hback,hhold,hcount,hzero,hmax⟩ := holders_new h₀
  have hinv : (ChannelsOk w ∧ Backed w) ∧
      w.inner.maxH1ConnectionsPerHost = config.maxH1ConnectionsPerHost ∧
      (∀ k, holders w k ≤ w.inner.h1Count k) ∧
      (∀ k, w.inner.h1Count k ≤ w.inner.maxH1ConnectionsPerHost) ∧
      w.inner.releasedAtZero = false := by
    refine Reaches.invariant (I := fun u : World T K => (ChannelsOk u ∧ Backed u) ∧
      u.inner.maxH1ConnectionsPerHost = config.maxH1ConnectionsPerHost ∧
      (∀ k, holders u k ≤ u.inner.h1Count k) ∧
      (∀ k, u.inner.h1Count k ≤ u.inner.maxH1ConnectionsPerHost) ∧
      u.inner.releasedAtZero = false) ?_ ?_ h
    · intro u b u' hu hb hs
      obtain ⟨⟨hok,hbk⟩,hm,hle,hcap,hz⟩ := hu
      have ht := step_transition hs
      obtain ⟨_,_,_,_,he,_,hfound⟩ := ht.accounted hok
      exact ⟨⟨ht.channelsOk hok,ht.backed hb hbk⟩,he.cap.trans hm,
        he.capped (hfound hbk) hle hcap hz⟩
    · refine ⟨⟨channelsOk_new h₀,hback⟩,hmax,?_,?_,hzero⟩
      · intro k
        rw [hhold k]
        exact Nat.zero_le _
      · intro k
        rw [hcount k]
        exact Nat.zero_le _
  exact hinv.2

/-- The cap holds for the live holders of every key, and no slot is released
twice, however the operations of the client are interleaved. -/
theorem h1_cap_never_exceeded (h₀ : World.new config timer = some w₀)
    (h : Reaches World.step Issued w₀ w) :
    (∀ key, holders w key ≤ config.maxH1ConnectionsPerHost) ∧ w.inner.releasedAtZero = false := by
  obtain ⟨hm,hle,hcap,hz⟩ := reaches_capped h₀ h
  refine ⟨fun key => ?_,hz⟩
  calc holders w key ≤ w.inner.h1Count key := hle key
    _ ≤ w.inner.maxH1ConnectionsPerHost := hcap key
    _ = config.maxH1ConnectionsPerHost := hm

/-- With a cap of one, the connection in use is the only holder. -/
theorem h1_cap_never_exceeded_in_use : ∃ w₀ w : World PoolClient ℕ,
    World.new ⟨none,2,1⟩ false = some w₀ ∧ Reaches World.step Issued w₀ w ∧ holders w 0 = 1 ∧
    (∀ key, holders w key ≤ 1) ∧ w.inner.releasedAtZero = false := by
  obtain ⟨w₀,w₁,w₂,h₀,hs₁,hguard,hs₂,hhold⟩ : ∃ w₀ w₁ w₂ : World PoolClient ℕ,
      World.new ⟨none,2,1⟩ false = some w₀ ∧ w₀.step (.connecting 0 .auto) = some w₁ ∧
      w₁.guards.get 0 = some ⟨0,true,true⟩ ∧
      w₁.step (.pooled 0 ⟨.http1 7⟩ (fun _ => false)) = some w₂ ∧ holders w₂ 0 = 1 :=
    ⟨_,_,_,rfl,rfl,rfl,rfl,rfl⟩
  have hissued : Issued w₁ (.pooled 0 ⟨.http1 7⟩ (fun _ => false)) := by
    intro guard hg
    rw [hguard] at hg
    cases hg
    rfl
  have hfirst : Issued w₀ (.connecting 0 .auto) := trivial
  have hr : Reaches World.step Issued w₀ w₂ := .step (.step .refl hfirst hs₁) hissued hs₂
  exact ⟨w₀,w₂,h₀,hr,hhold,h1_cap_never_exceeded h₀ hr⟩

end New
end H12Tiny.Pool
