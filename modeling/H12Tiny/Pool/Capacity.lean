import H12Tiny.Pool.Establishment
import H12Tiny.Pool.Frames

/-! # Capacity to establish

A key has no capacity when its H1 counter is at the cap or an H2 establishment is
under way. Capacity appears in four ways: a guard ends, a returned connection does
not fit, a connection in use is dropped closed, or `alpn_h2` gives its slot back.
The first two empty the queue of the key; the last two do not look at it.
-/
namespace H12Tiny.Pool
variable {T K : Type*} [DecidableEq K]

def Exhausted (w : World T K) (key : K) : Prop :=
  w.inner.h1Count key = w.inner.maxH1ConnectionsPerHost ∨ w.inner.connecting key = true

/-- A guard of the key is between the two critical sections of `alpn_h2`. -/
def Converting (w : World T K) (key : K) : Prop :=
  ∃ g guard, w.guards.get g = some guard ∧ guard.key = key ∧ guard.pool = false

section Steps
variable [Poolable T] {w w' : World T K} {a : Action T K}

/-- The actions that free capacity without looking at the queue. -/
def FreesSilently (w : World T K) (a : Action T K) (key : K) : Prop :=
  (∃ p vanish item, a = .dropPooled p vanish ∧ w.pooled.get p = some item ∧
    w.isOpen item.value = false ∧ item.h1Slot = true ∧ item.key = key) ∨
  ∃ g guard, a = .alpnRelease g ∧ w.guards.get g = some guard ∧ guard.key = key

omit [DecidableEq K] [Poolable T] in
theorem Exhausted.of_same {key : K} (h : Exhausted w key)
    (hcount : w'.inner.h1Count key = w.inner.h1Count key)
    (hmax : w'.inner.maxH1ConnectionsPerHost = w.inner.maxH1ConnectionsPerHost)
    (hconn : w'.inner.connecting key = w.inner.connecting key) : Exhausted w' key := by
  unfold Exhausted
  rw [hcount,hmax,hconn]
  exact h

omit [Poolable T] in
theorem Exhausted.release {key : K} (h : Exhausted w key) (key' : K) (flag : Bool)
    (hc : w'.inner.counters = (w.inner.releaseIf flag key').counters)
    (hconn : w'.inner.connecting key = w.inner.connecting key) {R : Prop}
    (hr : flag = true → key' = key → R) : Exhausted w' key ∨ R := by
  rw [Inner.counters_releaseIf] at hc
  have hcount := congrFun (congrArg Prod.fst hc) key
  have hmax := congrArg (fun c => c.2.1) hc
  dsimp only [Inner.counters] at hcount hmax
  by_cases hz : slotAt key' flag key = 0
  · rw [hz,Nat.sub_zero] at hcount
    exact Or.inl (h.of_same hcount hmax hconn)
  · obtain ⟨hflag,hk⟩ := slotAt_pos (Nat.pos_of_ne_zero hz)
    exact Or.inr (hr hflag hk)

omit [Poolable T] in
theorem Exhausted.mark {key key' : K} (h : Exhausted w key)
    (hcount : w'.inner.h1Count key = w.inner.h1Count key)
    (hmax : w'.inner.maxH1ConnectionsPerHost = w.inner.maxH1ConnectionsPerHost)
    (hconn : w'.inner.connecting = mapSet w.inner.connecting key' true) : Exhausted w' key := by
  rcases h with h | h
  · exact Or.inl (hcount.trans (h.trans hmax.symm))
  · refine Or.inr ?_
    rw [hconn,mapSet_apply]
    split
    · rfl
    · exact h

/-- A connection with a slot that `put` did not keep found the idle list full, and
nobody waiting. -/
theorem Inner.PutOutcome.queue_refused {vanish : ℕ → Bool} {now : ℕ} {inner inner' : Inner T K}
    {chans chans' : Channels T K} {key : K} {v : T} {kept : Bool}
    (ho : PutOutcome vanish now inner chans key v kept inner' chans') (hk : kept = false)
    (hs : canShare v = false) : inner'.queue key = [] := by
  cases ho with
  | refused hshare =>
    rw [hs] at hshare
    cases hshare
  | handed => cases hk
  | full => simp [queue]
  | stored => cases hk

/-- A step that gives a key its capacity back empties its queue, or is one of the
two that do not look at it. -/
theorem Transition.frees (ht : Transition w a w') (hitems : ItemsOk w) {key : K}
    (h : Exhausted w key) :
    Exhausted w' key ∨ w'.inner.queue key = [] ∨
      (FreesSilently w a key ∧ w'.inner.connecting = w.inner.connecting) := by
  cases ht with
  | @marked key' hc =>
    exact Or.inl (h.mark rfl rfl rfl)
  | @reserveRefused key' protocol hp hm =>
    exact Or.inl (h.of_same (Inner.h1Count_set_self w.inner key' key) rfl rfl)
  | @reserved key' protocol hp hm =>
    refine Or.inl ?_
    rcases h with h | h
    · refine Or.inl ?_
      have hne : key ≠ key' := by
        rintro rfl
        omega
      dsimp only
      rw [Inner.h1Count_set,if_neg hne]
      exact h
    · exact Or.inr h
  | @pooledShared g guard value vanish kept inner chans hg hp hs ho =>
    by_cases hk : key = guard.key
    · refine Or.inr (Or.inl ?_)
      dsimp only
      rw [Inner.connected_queue,hk,mapSet_self]
    · have hc := ho.counters_eq
      refine Or.inl (h.of_same (congrFun (congrArg Prod.fst hc) key) (congrArg (fun c => c.2.1) hc) ?_)
      change mapSet inner.connecting guard.key false key = _
      rw [mapSet_ne _ _ hk,ho.connecting_eq]
  | @alpnRelease g guard hg hp =>
    have hconn := Inner.apply_releaseH1Slot Inner.releaseH1Slot_connecting guard.h1Slot w.inner guard.key
    refine h.release guard.key guard.h1Slot rfl (congrFun hconn key) ?_
    intro _ hk
    exact Or.inr ⟨Or.inr ⟨g,guard,rfl,hg,hk⟩,hconn⟩
  | @alpnWon g guard hg hp hc =>
    exact Or.inl (h.mark rfl rfl rfl)
  | @droppedClosed p item vanish hi ho =>
    have hconn := Inner.apply_releaseH1Slot Inner.releaseH1Slot_connecting (item.h1Slot && item.pool) w.inner item.key
    refine h.release item.key (item.h1Slot && item.pool) rfl (congrFun hconn key) ?_
    intro hflag hk
    rw [Bool.and_eq_true] at hflag
    exact Or.inr ⟨Or.inl ⟨p,vanish,item,rfl,hi,ho,hflag.1,hk⟩,hconn⟩
  | @droppedPut p item vanish kept inner chans hi ho hp hout =>
    have hconn : (if !kept && item.h1Slot then inner.releaseH1Slot item.key else inner).connecting =
        w.inner.connecting := by
      rw [Inner.apply_releaseH1Slot Inner.releaseH1Slot_connecting,hout.connecting_eq]
    refine h.release item.key (!kept && item.h1Slot) (Inner.releaseIf_congr hout.counters_eq _ _)
      (congrFun hconn key) ?_
    intro hflag hk
    rw [Bool.and_eq_true,Bool.not_eq_true'] at hflag
    have hq := hout.queue_refused hflag.1 (hitems.slotted hi hflag.2).2
    rw [hk] at hq
    refine Or.inl ?_
    rw [Inner.apply_releaseH1Slot Inner.releaseH1Slot_queue]
    exact hq
  | @cleanCheckout c i checkout hc hw hcan =>
    obtain ⟨waiters,he⟩ := Inner.cleanWaiters_eq w.inner w.chans checkout.key
    refine Or.inl (h.of_same ?_ ?_ ?_)
    all_goals
      dsimp only
      rw [he]
    rfl
  | @dropConnecting g guard hg hp =>
    by_cases hk : key = guard.key
    · refine Or.inr (Or.inl ?_)
      dsimp only
      rw [Inner.connectingCancelled_queue,hk,mapSet_self]
    · have hconn := congrFun
        (Inner.connectingCancelled_connecting w.inner w.chans guard.key guard.h1Slot) key
      refine h.release guard.key guard.h1Slot
        (Inner.connectingCancelled_counters w.inner w.chans guard.key guard.h1Slot) (hconn.trans ?_) ?_
      · split
        · rfl
        · exact mapSet_ne _ _ hk
      · intro _ he
        exact absurd he.symm hk
  | _ => exact Or.inl h

/-- A conversion ends with the marker of the key set, by its guard or by another. -/
theorem Transition.converts (ht : Transition w a w') {key : K} (h : Converting w key) :
    Converting w' key ∨ w'.inner.connecting key = true := by
  obtain ⟨g,guard,hg,hk,hpool⟩ := h
  by_cases hn : a.guard? = some g
  · cases ht with
    | pooledShared hg' hp | pooledUnique hg' hp | alpnRelease hg' hp | dropConnecting hg' hp =>
      cases hn
      cases hg.symm.trans hg'
      rw [hpool] at hp
      cases hp
    | alpnLost hg' _ hc =>
      cases hn
      cases hg.symm.trans hg'
      exact Or.inr (hk ▸ hc)
    | alpnWon hg' _ _ =>
      cases hn
      cases hg.symm.trans hg'
      refine Or.inr ?_
      dsimp only
      rw [hk,mapSet_self]
    | _ => cases hn
  · exact Or.inl ⟨g,guard,ht.guard_frame hg hn,hk,hpool⟩

end Steps
end H12Tiny.Pool
