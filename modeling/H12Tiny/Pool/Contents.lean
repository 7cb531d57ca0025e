import H12Tiny.Pool.SlotHolders

/-! # The connections in the pool's hands

A connection the pool answers for is checked out, idle, or sent to a waiter that
has not taken it. Only the end of an establishment brings a connection in, under
the key it was dialled for; afterwards it moves between these places of its key.
A connection that cannot be shared is never copied on the way, so the number of
its places never grows.
-/
namespace H12Tiny.Pool
variable {T K : Type*} [DecidableEq K]

/-- The pool answers for the connection under the key. -/
inductive Holds (w : World T K) (key : K) (v : T) : Prop
  | checkedOut {p : ℕ} {item : Pooled T K} : w.pooled.get p = some item → item.key = key →
      item.value = v → Holds w key v
  | idle {entry : Idle T} : entry ∈ w.inner.idleList key → entry.value = v → Holds w key v
  | sent {i : ℕ} {x : Waiter T K} : w.chans.get i = some x → x.key = key → x.chan.slot = some v →
      Holds w key v

def Makes (w : World T K) (a : Action T K) (key : K) (v : T) : Prop :=
  ∃ g vanish guard, a = .pooled g v vanish ∧ w.guards.get g = some guard ∧ guard.key = key

section Origin
variable [Poolable T] {w w' : World T K} {a : Action T K}

omit [DecidableEq K] in
theorem HandOver.slot {vanish : ℕ → Bool} {v : T} {q rest : List ℕ} {chans chans' : Channels T K}
    {left : Option T} (hh : HandOver vanish v q chans left rest chans') {i : ℕ} {x' : Waiter T K} {u : T}
    (hx : chans'.get i = some x') (hs : x'.chan.slot = some u) :
    ∃ x, chans.get i = some x ∧ x.key = x'.key ∧ (x.chan.slot = some u ∨ (u = v ∧ i ∈ q)) := by
  induction hh with
  | exhausted => exact ⟨x',hx,rfl,.inl hs⟩
  | @unique j ws chans =>
    rcases Table.get_modify_cases hx with ⟨rfl,y,hy,rfl⟩ | ⟨_,hx⟩
    · exact ⟨y,hy,rfl,.inr ⟨(Option.some.inj hs).symm,List.mem_cons_self⟩⟩
    · exact ⟨x',hx,rfl,.inl hs⟩
  | @canceled j ws rest chans chans' left hc _ ih =>
    obtain ⟨y,hy,hk,hy'⟩ := ih hx
    rcases Table.get_modify_cases hy with ⟨rfl,z,hz,rfl⟩ | ⟨_,hy⟩
    · refine ⟨z,hz,hk,hy'.imp ?_ (And.imp_right (List.mem_cons_of_mem _))⟩
      intro h
      rwa [Channels.abandoned,Oneshot.dropSender_slot] at h
    · exact ⟨y,hy,hk,hy'.imp_right (And.imp_right (List.mem_cons_of_mem _))⟩
  | @vanished j ws rest chans chans' left hc hv _ ih =>
    obtain ⟨y,hy,hk,hy'⟩ := ih hx
    rcases Table.get_modify_cases hy with ⟨rfl,z,hz,rfl⟩ | ⟨_,hy⟩
    · refine ⟨z,hz,hk,hy'.imp ?_ (And.imp_right (List.mem_cons_of_mem _))⟩
      intro h
      simp [Channels.vanished] at h
    · exact ⟨y,hy,hk,hy'.imp_right (And.imp_right (List.mem_cons_of_mem _))⟩
  | @shared j ws rest chans chans' left hc hv hs' _ ih =>
    obtain ⟨y,hy,hk,hy'⟩ := ih hx
    rcases Table.get_modify_cases hy with ⟨rfl,z,hz,rfl⟩ | ⟨_,hy⟩
    · refine ⟨z,hz,hk,.inr ?_⟩
      rcases hy' with h | h
      · exact ⟨(Option.some.inj h).symm,List.mem_cons_self⟩
      · exact ⟨h.1,List.mem_cons_self⟩
    · exact ⟨y,hy,hk,hy'.imp_right (And.imp_right (List.mem_cons_of_mem _))⟩

/-- After `put` the channels hold what they held before or the returned value,
which is sent under its own key only. -/
theorem Inner.PutOutcome.sent {vanish : ℕ → Bool} {now : ℕ} {inner inner' : Inner T K}
    {chans chans' : Channels T K} {key : K} {v : T} {kept : Bool}
    (ho : PutOutcome vanish now inner chans key v kept inner' chans') (hq : QueuesOk inner.queue chans)
    {i : ℕ} {x' : Waiter T K} {u : T} (hx : chans'.get i = some x') (hs : x'.chan.slot = some u) :
    (∃ x, chans.get i = some x ∧ x.key = x'.key ∧ x.chan.slot = some u) ∨ (u = v ∧ x'.key = key) := by
  have hand : ∀ {rest : List ℕ} {left : Option T},
      HandOver vanish v (inner.queue key) chans left rest chans' →
      (∃ x, chans.get i = some x ∧ x.key = x'.key ∧ x.chan.slot = some u) ∨ (u = v ∧ x'.key = key) := by
    intro rest left hh
    obtain ⟨x,hget,hk,h | ⟨hu,hi⟩⟩ := hh.slot hx hs
    · exact .inl ⟨x,hget,hk,h⟩
    · obtain ⟨y,hy,hyk,_⟩ := hq.queued hi
      rw [hget] at hy
      cases hy
      exact .inr ⟨hu,hk.symm.trans hyk⟩
  cases ho with
  | refused => exact .inl ⟨x',hx,rfl,hs⟩
  | handed hh => exact hand hh
  | full hh => exact hand hh
  | stored hh => exact hand hh

theorem Inner.PutOutcome.idleList_mem {vanish : ℕ → Bool} {now : ℕ} {inner inner' : Inner T K}
    {chans chans' : Channels T K} {key k : K} {v : T} {kept : Bool} {entry : Idle T}
    (ho : PutOutcome vanish now inner chans key v kept inner' chans') (h : entry ∈ inner'.idleList k) :
    entry ∈ inner.idleList k ∨ (entry.value = v ∧ k = key) := by
  cases ho with
  | refused | handed => exact .inl h
  | full =>
    by_cases hk : k = key
    · subst hk
      exact .inl (by simpa [idleList] using h)
    · exact .inl (by simpa [idleList,mapSet_ne _ _ hk] using h)
  | stored =>
    by_cases hk : k = key
    · subst hk
      have h' : entry ∈ inner.idleList k ++ [⟨v,now⟩] := by simpa [idleList] using h
      rcases List.mem_append.mp h' with h' | h'
      · exact .inl h'
      · exact .inr ⟨by rw [List.mem_singleton.mp h'],rfl⟩
    · exact .inl (by simpa [idleList,mapSet_ne _ _ hk] using h)

def Comes (w : World T K) (a : Action T K) (key : K) (v : T) : Prop := Holds w key v ∨ Makes w a key v

/-- Every checked-out connection, every idle entry and every undelivered value comes
from the action or from before. -/
structure Traced (w : World T K) (a : Action T K) (w' : World T K) : Prop where
  items : ∀ p item, w'.pooled.get p = some item → Comes w a item.key item.value
  entries : ∀ k entry, entry ∈ w'.inner.idleList k → Comes w a k entry.value
  slots : ∀ i x v, w'.chans.get i = some x → x.chan.slot = some v → Comes w a x.key v

omit [DecidableEq K] [Poolable T] in
theorem Traced.comes (ht : Traced w a w') {key : K} {v : T} (h : Holds w' key v) : Comes w a key v := by
  rcases h with ⟨hget,rfl,rfl⟩ | ⟨hm,rfl⟩ | ⟨hx,rfl,hs⟩
  · exact ht.items _ _ hget
  · exact ht.entries _ _ hm
  · exact ht.slots _ _ _ hx hs

omit [DecidableEq K] [Poolable T] in
theorem Traced.refl (w : World T K) (a : Action T K) : Traced w a w where
  items _ _ hget := .inl (.checkedOut hget rfl rfl)
  entries _ _ hm := .inl (.idle hm rfl)
  slots _ _ _ hx hs := .inl (.sent hx rfl hs)

omit [DecidableEq K] [Poolable T] in
theorem Traced.alloc {item : Pooled T K} (hitem : Comes w a item.key item.value) (p : ℕ) (it : Pooled T K)
    (hget : (w.pooled.alloc item).get p = some it) : Comes w a it.key it.value := by
  rcases Table.get_alloc_cases hget with ⟨_,rfl⟩ | hget
  · exact hitem
  · exact (Traced.refl w a).items p it hget

omit [DecidableEq K] [Poolable T] in
theorem Traced.removed {q : ℕ} (p : ℕ) (it : Pooled T K) (hget : (w.pooled.remove q).get p = some it) :
    Comes w a it.key it.value :=
  (Traced.refl w a).items p it (Table.get_of_remove hget).2

omit [DecidableEq K] [Poolable T] in
theorem Traced.received {j : ℕ} (i : ℕ) (x : Waiter T K) (v : T)
    (hx : (w.chans.modify j Channels.received).get i = some x) (hs : x.chan.slot = some v) :
    Comes w a x.key v := by
  rcases Table.get_modify_cases hx with ⟨_,y,_,rfl⟩ | ⟨_,hx⟩
  · cases hs
  · exact (Traced.refl w a).slots i x v hx hs

omit [DecidableEq K] [Poolable T] in
theorem Traced.dropSenders {chans : Channels T K} {ids : List ℕ}
    (h : ∀ i x v, chans.get i = some x → x.chan.slot = some v → Comes w a x.key v) (i : ℕ) (x : Waiter T K)
    (v : T) (hx : (chans.dropSenders ids).get i = some x) (hs : x.chan.slot = some v) : Comes w a x.key v := by
  rw [Channels.get_dropSenders] at hx
  split at hx
  · obtain ⟨y,hy,rfl⟩ := Option.map_eq_some_iff.mp hx
    exact h i y v hy (by simpa [Channels.abandoned] using hs)
  · exact h i x v hx hs

omit [Poolable T] in
theorem Traced.mapSet {key : K} {idle : Option (List (Idle T))}
    (h : ∀ entry ∈ idle.getD [], Holds w key entry.value) (k : K) (entry : Idle T)
    (hm : entry ∈ (mapSet w.inner.idle key idle k).getD []) : Comes w a k entry.value := by
  by_cases hk : k = key
  · subst hk
    rw [mapSet_self] at hm
    exact .inl (h entry hm)
  · rw [mapSet_ne _ _ hk] at hm
    exact .inl (.idle hm rfl)

omit [DecidableEq K] [Poolable T] in
theorem Traced.sameIdle {inner : Inner T K} (h : inner.idle = w.inner.idle) (k : K) (entry : Idle T)
    (hm : entry ∈ inner.idleList k) : Comes w a k entry.value := by
  rw [Inner.idleList,h] at hm
  exact .inl (.idle hm rfl)

theorem traced_pooledShared {g : ℕ} {guard : Connecting K} {value : T} {vanish : ℕ → Bool}
    {kept : Bool} {inner : Inner T K} {chans : Channels T K} (hok : ChannelsOk w)
    (hg : w.guards.get g = some guard)
    (ho : Inner.PutOutcome vanish w.now w.inner w.chans guard.key value kept inner chans) :
    Traced w (.pooled g value vanish)
      { w with
        inner := (inner.connected chans guard.key).1
        chans := (inner.connected chans guard.key).2
        guards := w.guards.remove g
        pooled := w.pooled.alloc ⟨value,false,guard.key,false,false⟩ } := by
  have hmade : Comes w (.pooled g value vanish) guard.key value := .inr ⟨g,vanish,guard,rfl,hg,rfl⟩
  refine ⟨Traced.alloc hmade,?_,?_⟩
  · intro k entry hm
    rcases ho.idleList_mem hm with hm | ⟨rfl,rfl⟩
    · exact .inl (.idle hm rfl)
    · exact hmade
  · dsimp only
    rw [Inner.connected_chans]
    refine Traced.dropSenders ?_
    intro i x v hx hs
    rcases ho.sent hok.queues hx hs with ⟨y,hy,hk,hys⟩ | ⟨rfl,hk⟩
    · exact .inl (.sent hy hk hys)
    · exact hk ▸ hmade

theorem traced_droppedPut {p : ℕ} {item : Pooled T K} {vanish : ℕ → Bool} {kept : Bool}
    {inner : Inner T K} {chans : Channels T K} (hok : ChannelsOk w) (hi : w.pooled.get p = some item)
    (ho : Inner.PutOutcome vanish w.now w.inner w.chans item.key item.value kept inner chans) :
    Traced w (.dropPooled p vanish)
      { w with
        pooled := w.pooled.remove p
        inner := if !kept && item.h1Slot then inner.releaseH1Slot item.key else inner
        chans := chans } := by
  have hitem : Holds w item.key item.value := .checkedOut hi rfl rfl
  refine ⟨Traced.removed,?_,?_⟩
  · intro k entry hm
    rw [Inner.idleList,Inner.apply_releaseH1Slot Inner.releaseH1Slot_idle] at hm
    rcases ho.idleList_mem hm with hm | ⟨hv,rfl⟩
    · exact .inl (.idle hm rfl)
    · exact .inl (hv ▸ hitem)
  · intro i x v hx hs
    rcases ho.sent hok.queues hx hs with ⟨y,hy,hk,hys⟩ | ⟨rfl,hk⟩
    · exact .inl (.sent hy hk hys)
    · exact .inl (hk ▸ hitem)

theorem traced_popped {c : ℕ} {checkout : Checkout K} {list entries : List (Idle T)} {entry : Idle T}
    (hi : w.inner.idle checkout.key = some list)
    (hp : pop w.isOpen w.inner.timeout w.now list = (some entry,entries)) :
    Traced w (.checkout c)
      { w with
        inner :=
          { w.inner with
            idle := mapSet w.inner.idle checkout.key (if entries.isEmpty then none else some entries) }
        pooled := w.pooled.alloc
          ⟨entry.value,true,checkout.key,!canShare entry.value,!canShare entry.value⟩ } := by
  obtain ⟨before,behind,hl,_,_,hen⟩ := pop_some hp
  have hlist : ∀ e ∈ list, Holds w checkout.key e.value := by
    intro e he
    exact .idle (by rw [Inner.idleList,hi]; exact he) rfl
  have hentry := hlist entry (by rw [hl]; simp)
  refine ⟨Traced.alloc (.inl hentry),Traced.mapSet ?_,(Traced.refl w _).slots⟩
  intro e he
  have hmem : e ∈ entries := by
    cases entries with
    | nil => cases he
    | cons => exact he
  rw [hen] at hmem
  split at hmem
  · rcases List.mem_append.mp hmem with hmem | hmem
    · exact hlist e (by rw [hl]; simp [hmem])
    · rw [List.mem_singleton.mp hmem]
      exact hentry
  · exact hlist e (by rw [hl]; simp [hmem])

omit [DecidableEq K] [Poolable T] in
theorem traced_clearExpired (timeout : ℕ) :
    Traced w a { w with inner := w.inner.clearExpired w.isOpen timeout w.now } := by
  refine ⟨(Traced.refl w a).items,?_,(Traced.refl w a).slots⟩
  intro k entry hm
  refine .inl (.idle ?_ rfl)
  unfold Inner.idleList Inner.clearExpired at hm
  unfold Inner.idleList
  dsimp only at hm
  cases hi : w.inner.idle k with
  | none =>
    rw [hi] at hm
    cases hm
  | some list =>
    rw [hi,Option.bind_some,Inner.sweep] at hm
    split at hm
    · cases hm
    · exact (List.mem_filter.mp hm).1

/-- A step moves connections between the places of their key; the only new one is
the one whose establishment it ends. -/
theorem Transition.traced (ht : Transition w a w') (hok : ChannelsOk w) : Traced w a w' := by
  have hw := Traced.refl w a
  cases ht with
  | pooledShared hg hp hs ho => exact traced_pooledShared hok hg ho
  | @pooledUnique g guard value vanish hg hp hs =>
    exact ⟨Traced.alloc (.inr ⟨g,vanish,guard,rfl,hg,rfl⟩),hw.entries,hw.slots⟩
  | pollOpen hc hcw hx hr hs ho =>
    obtain ⟨y,hy,hyk⟩ := hok.owned hc hcw
    rw [hx] at hy
    cases hy
    exact ⟨Traced.alloc (.inl (.sent hx hyk hs)),hw.entries,Traced.received⟩
  | pollClosed | pollDropped | cancelCheckout => exact ⟨hw.items,hw.entries,Traced.received⟩
  | popped hc hr hi hp => exact traced_popped hi hp
  | missed => exact ⟨hw.items,Traced.mapSet (fun _ he => nomatch he),hw.slots⟩
  | registered =>
    refine ⟨hw.items,Traced.mapSet (fun _ he => nomatch he),?_⟩
    intro i x v hx hs
    rcases Table.get_alloc_cases hx with ⟨_,rfl⟩ | hx
    · cases hs
    · exact hw.slots i x v hx hs
  | droppedPut hi ho hp hout => exact traced_droppedPut hok hi hout
  | droppedClosed =>
    exact ⟨Traced.removed,Traced.sameIdle (Inner.apply_releaseH1Slot Inner.releaseH1Slot_idle ..),hw.slots⟩
  | droppedDetached => exact ⟨Traced.removed,hw.entries,hw.slots⟩
  | alpnRelease =>
    exact ⟨hw.items,Traced.sameIdle (Inner.apply_releaseH1Slot Inner.releaseH1Slot_idle ..),hw.slots⟩
  | @cleanCheckout c i checkout hc hcw hcan =>
    obtain ⟨waiters,he⟩ := Inner.cleanWaiters_eq w.inner w.chans checkout.key
    refine ⟨hw.items,Traced.sameIdle (by rw [he]),?_⟩
    dsimp only
    rw [Inner.cleanWaiters_chans]
    exact Traced.dropSenders hw.slots
  | dropConnecting hg hp =>
    refine ⟨hw.items,Traced.sameIdle (Inner.connectingCancelled_idle _ w.chans _ _),?_⟩
    dsimp only
    rw [Inner.connectingCancelled_chans]
    exact Traced.dropSenders hw.slots
  | clearExpired => exact traced_clearExpired _
  | _ => exact ⟨hw.items,hw.entries,hw.slots⟩

theorem Transition.pooled_frame (ht : Transition w a w') {p : ℕ} {item : Pooled T K}
    (hp : w.pooled.get p = some item) (hn : ∀ vanish, a ≠ .dropPooled p vanish) :
    w'.pooled.get p = some item := by
  have hne : ∀ {q : ℕ} {vanish : ℕ → Bool}, a = .dropPooled q vanish → p ≠ q := by
    rintro q vanish rfl rfl
    exact hn vanish rfl
  cases ht with
  | pooledShared | pooledUnique | pollOpen | popped => exact Table.get_alloc_of_some _ hp
  | droppedClosed | droppedPut | droppedDetached => exact (Table.get_remove_ne _ (hne rfl)).trans hp
  | _ => exact hp

theorem Transition.isOpen_frame (ht : Transition w a w') (hn : ∀ isOpen, a ≠ .readiness isOpen) :
    w'.isOpen = w.isOpen := by
  cases ht with
  | readiness => exact absurd rfl (hn _)
  | _ => rfl

omit [DecidableEq K] [Poolable T] in
theorem not_holds_new {config : Config} {timer : Bool} (h : World.new config timer = some w) {key : K} {v : T} :
    ¬ Holds w key v := by
  unfold World.new at h
  split at h
  · cases h
    rintro (⟨hget,_,_⟩ | ⟨hm,_⟩ | ⟨hget,_,_⟩)
    · cases hget
    · cases hm
    · cases hget
  · cases h

end Origin

section Copies
variable [Poolable T] {p : T → Bool}

def heldCopies (p : T → Bool) (pooled : Table (Pooled T K)) (k : K) : ℕ :=
  pooled.count (fun item => p item.value && decide (item.key = k))
def idleCopies (p : T → Bool) (idle : K → Option (List (Idle T))) (k : K) : ℕ :=
  ((idle k).getD []).countP (fun entry => p entry.value)
def sentCopies (p : T → Bool) (chans : Channels T K) (k : K) : ℕ :=
  chans.count (fun x => x.chan.slot.any p && decide (x.key = k))

/-- The places in which the pool has a connection that passes the test, under one key. -/
def copies (p : T → Bool) (w : World T K) (k : K) : ℕ :=
  heldCopies p w.pooled k + idleCopies p w.inner.idle k + sentCopies p w.chans k

omit [Poolable T] in
theorem heldCopies_alloc (pooled : Table (Pooled T K)) (item : Pooled T K) (k : K) :
    heldCopies p (pooled.alloc item) k = heldCopies p pooled k + slotAt item.key (p item.value) k :=
  Table.count_alloc _ _ _

omit [Poolable T] in
theorem heldCopies_remove {pooled : Table (Pooled T K)} {i : ℕ} {item : Pooled T K}
    (h : pooled.get i = some item) (k : K) :
    heldCopies p (pooled.remove i) k + slotAt item.key (p item.value) k = heldCopies p pooled k :=
  Table.count_remove _ _ h

omit [Poolable T] in
theorem sentCopies_modify {chans : Channels T K} {i : ℕ} {x : Waiter T K} (f : Waiter T K → Waiter T K)
    (hx : chans.get i = some x) (hk : (f x).key = x.key) (k : K) :
    sentCopies p (chans.modify i f) k + slotAt x.key (x.chan.slot.any p) k =
      sentCopies p chans k + slotAt x.key ((f x).chan.slot.any p) k := by
  have h := Table.count_modify (fun x : Waiter T K => x.chan.slot.any p && decide (x.key = k)) chans f hx
  rw [hk] at h
  exact h

omit [Poolable T] in
theorem sentCopies_modify_le (chans : Channels T K) (i : ℕ) {f : Waiter T K → Waiter T K}
    (hk : ∀ x, (f x).key = x.key) (hf : ∀ x, (f x).chan.slot = x.chan.slot ∨ (f x).chan.slot = none) (k : K) :
    sentCopies p (chans.modify i f) k ≤ sentCopies p chans k := by
  cases hx : chans.get i with
  | none =>
    refine Nat.le_of_eq (Table.count_congr _ rfl ?_)
    intro j
    by_cases hj : j = i
    · subst hj
      rw [Table.get_modify_self,hx]
      rfl
    · rw [Table.get_modify_ne _ _ hj]
  | some x =>
    have h := sentCopies_modify (p := p) f hx (hk x) k
    rcases hf x with hs | hs
    · rw [hs] at h
      omega
    · rw [hs,Option.any_none,slotAt_false] at h
      omega

omit [Poolable T] in
theorem sentCopies_received (chans : Channels T K) (i : ℕ) (k : K) :
    sentCopies p (chans.modify i Channels.received) k ≤ sentCopies p chans k :=
  sentCopies_modify_le _ _ (f := Channels.received) (fun _ => rfl) (fun _ => .inr rfl) k

omit [Poolable T] in
theorem sentCopies_dropSenders (chans : Channels T K) (ids : List ℕ) (k : K) :
    sentCopies p (chans.dropSenders ids) k = sentCopies p chans k := by
  apply Table.count_congr
  · exact Channels.next_dropSenders chans ids
  · intro i
    rw [Channels.get_dropSenders]
    split
    · cases chans.get i with
      | none => rfl
      | some x => simp [Channels.abandoned]
    · rfl

/-- The hand-over sends one copy of a connection that cannot be shared, when it
uses it up. -/
theorem HandOver.sentCopies {vanish : ℕ → Bool} {v : T} {key : K} {q rest : List ℕ}
    {chans chans' : Channels T K} {left : Option T}
    (hh : HandOver vanish v q chans left rest chans') (hp : p v = true → canShare v = false)
    (hq : ∀ i ∈ q, ∃ x, chans.get i = some x ∧ x.key = key) (k : K) :
    sentCopies p chans' k ≤ Pool.sentCopies p chans k + slotAt key (left.isNone && p v) k := by
  have hrest : ∀ {i : ℕ} {ws : List ℕ} {chans : Channels T K} {f : Waiter T K → Waiter T K},
      (∀ x, (f x).key = x.key) → (∀ j ∈ i :: ws, ∃ x, chans.get j = some x ∧ x.key = key) →
      ∀ j ∈ ws, ∃ x, (chans.modify i f).get j = some x ∧ x.key = key := by
    intro i ws chans f hk hq j hj
    obtain ⟨x,hx,hxk⟩ := hq j (List.mem_cons_of_mem _ hj)
    by_cases he : j = i
    · subst he
      exact ⟨f x,by rw [Table.get_modify_self,hx]; rfl,(hk x).trans hxk⟩
    · exact ⟨x,by rw [Table.get_modify_ne _ _ he,hx],hxk⟩
  induction hh with
  | exhausted => simp
  | @unique i ws chans hc hv hs =>
    obtain ⟨x,hx,hxk⟩ := hq i List.mem_cons_self
    have h := sentCopies_modify (p := p) (Channels.delivered v) hx (Channels.delivered_key v x) k
    have hd : (Channels.delivered v x).chan.slot.any p = p v := rfl
    rw [hd,hxk] at h
    simp only [Option.isNone_none,Bool.true_and]
    omega
  | @canceled i ws rest chans chans' left hc _ ih =>
    have hle := sentCopies_modify_le (p := p) chans i Channels.abandoned_key
      (fun x => .inl (Oneshot.dropSender_slot x.chan)) k
    have := ih (hrest Channels.abandoned_key hq)
    omega
  | @vanished i ws rest chans chans' left hc hv _ ih =>
    have hle := sentCopies_modify_le (p := p) chans i Channels.vanished_key
      (fun x => .inr (by simp [Channels.vanished])) k
    have := ih (hrest Channels.vanished_key hq)
    omega
  | @shared i ws rest chans chans' left hc hv hs _ ih =>
    obtain ⟨x,hx,hxk⟩ := hq i List.mem_cons_self
    have h := sentCopies_modify (p := p) (Channels.delivered v) hx (Channels.delivered_key v x) k
    have hpv : p v = false := by
      cases hpv : p v with
      | false => rfl
      | true =>
        rw [hp hpv] at hs
        cases hs
    have hd : (Channels.delivered v x).chan.slot.any p = false := hpv
    rw [hd,slotAt_false] at h
    have := ih (hrest (Channels.delivered_key v) hq)
    omega

omit [Poolable T] in
theorem idleCopies_set (idle : K → Option (List (Idle T))) (key : K) (list : Option (List (Idle T)))
    (k : K) : idleCopies p (mapSet idle key list) k =
      if k = key then (list.getD []).countP (fun entry => p entry.value) else idleCopies p idle k := by
  unfold idleCopies
  rw [mapSet_apply]
  split <;> rfl

/-- `put` puts one copy of a connection that cannot be shared into one place, if any. -/
theorem Inner.PutOutcome.copies {vanish : ℕ → Bool} {now : ℕ} {inner inner' : Inner T K}
    {chans chans' : Channels T K} {key : K} {v : T} {kept : Bool}
    (ho : PutOutcome vanish now inner chans key v kept inner' chans')
    (h : QueuesOk inner.queue chans) (hp : p v = true → canShare v = false) (k : K) :
    idleCopies p inner'.idle k + sentCopies p chans' k ≤
      idleCopies p inner.idle k + sentCopies p chans k + slotAt key (p v) k := by
  have hq : ∀ i ∈ inner.queue key, ∃ x, chans.get i = some x ∧ x.key = key := by
    intro i hi
    obtain ⟨x,hx,hxk,_⟩ := h.queued hi
    exact ⟨x,hx,hxk⟩
  cases ho with
  | refused => omega
  | handed hh =>
    have hs := hh.sentCopies hp hq k
    simp only [Option.isNone_none,Bool.true_and] at hs ⊢
    omega
  | full hh =>
    have hs := hh.sentCopies hp hq k
    simp only [Option.isNone_some,Bool.false_and,slotAt_false] at hs
    have hi : idleCopies p (mapSet inner.idle key (some (inner.idleList key))) k = idleCopies p inner.idle k := by
      rw [idleCopies_set]
      split
      · rename_i hk
        rw [hk]
        rfl
      · rfl
    rw [hi]
    omega
  | stored hh =>
    have hs := hh.sentCopies hp hq k
    simp only [Option.isNone_some,Bool.false_and,slotAt_false] at hs
    have hi : idleCopies p (mapSet inner.idle key (some (inner.idleList key ++ [⟨v,now⟩]))) k =
        idleCopies p inner.idle k + slotAt key (p v) k := by
      rw [idleCopies_set]
      by_cases hk : k = key
      · subst hk
        rw [if_pos rfl,Option.getD_some,List.countP_append,List.countP_singleton]
        simp only [idleCopies,Inner.idleList,slotAt,decide_true,Bool.and_true]
        cases p v <;> rfl
      · have hne : key ≠ k := fun he => hk he.symm
        simp [hk,hne,slotAt]
    rw [hi]
    omega

theorem popped_copies {list entries : List (Idle T)} {entry : Idle T} {isOpen : T → Bool}
    {expiration : Option ℕ} {now : ℕ} (hp : ∀ v, p v = true → canShare v = false)
    (h : pop isOpen expiration now list = (some entry,entries)) :
    entries.countP (fun entry => p entry.value) + (p entry.value).toNat ≤
      list.countP (fun entry => p entry.value) := by
  obtain ⟨before,behind,hl,_,_,hen⟩ := pop_some h
  rw [hl,List.countP_append,List.countP_cons,hen]
  cases hpe : p entry.value with
  | false =>
    split
    · rw [List.countP_append,List.countP_singleton]
      simp [hpe]
    · simp
  | true =>
    rw [hp _ hpe]
    simp

variable {w w' : World T K} {a : Action T K}

/-- No step copies a connection that cannot be shared. -/
theorem Transition.copies (ht : Transition w a w') (hok : ChannelsOk w)
    (hp : ∀ v, p v = true → canShare v = false) (k : K) : copies p w' k ≤ Pool.copies p w k ∨
      ∃ v, p v = true ∧ Makes w a k v ∧ copies p w' k ≤ Pool.copies p w k + 1 := by
  have hshared : ∀ {v : T}, canShare v = true → p v = false := by
    intro v hs
    cases hpv : p v with
    | false => rfl
    | true =>
      rw [hp v hpv] at hs
      cases hs
  cases ht with
  | @pooledShared g guard value vanish kept inner chans hg hpool hs ho =>
    left
    have hput := ho.copies hok.queues (hp value) k
    have hheld := heldCopies_alloc (p := p) w.pooled ⟨value,false,guard.key,false,false⟩ k
    have hsent := sentCopies_dropSenders (p := p) chans (inner.queue guard.key) k
    have hi : (inner.connected chans guard.key).1.idle = inner.idle := rfl
    rw [hshared hs,slotAt_false] at hput hheld
    simp only [Pool.copies,Inner.connected_chans,hi]
    omega
  | @pooledUnique g guard value vanish hg hpool hs =>
    have hheld := heldCopies_alloc (p := p) w.pooled ⟨value,false,guard.key,true,guard.h1Slot⟩ k
    by_cases hmade : p value = true ∧ guard.key = k
    · refine .inr ⟨value,hmade.1,⟨g,vanish,guard,rfl,hg,hmade.2⟩,?_⟩
      have hle : slotAt guard.key (p value) k ≤ 1 := Bool.toNat_le _
      simp only [Pool.copies]
      dsimp only at hheld
      omega
    · left
      have hz : slotAt guard.key (p value) k = 0 := by
        by_contra hne
        exact hmade (slotAt_pos (Nat.pos_of_ne_zero hne))
      simp only [Pool.copies]
      dsimp only at hheld
      omega
  | @pollOpen c i checkout x value hc hcw hx hr hs ho =>
    left
    obtain ⟨y,hy,hyk⟩ := hok.owned hc hcw
    rw [hx] at hy
    cases hy
    have hsent := sentCopies_modify (p := p) Channels.received hx rfl k
    have hheld := heldCopies_alloc (p := p) w.pooled ⟨value,true,checkout.key,!canShare value,!canShare value⟩ k
    have hnone : (Channels.received x).chan.slot = none := rfl
    rw [hs,Option.any_some,hyk,hnone,Option.any_none,slotAt_false] at hsent
    simp only [Pool.copies]
    dsimp only at hheld
    omega
  | @pollClosed c i | @pollDropped c i | @cancelCheckout c i =>
    left
    have hsent := sentCopies_received (p := p) w.chans i k
    simp only [Pool.copies]
    omega
  | @popped c checkout list entries entry hc hr hi hpop =>
    left
    have hheld := heldCopies_alloc (p := p) w.pooled
      ⟨entry.value,true,checkout.key,!canShare entry.value,!canShare entry.value⟩ k
    have hset := idleCopies_set (p := p) w.inner.idle checkout.key
      (if entries.isEmpty then none else some entries) k
    have hget : (if entries.isEmpty then none else some entries).getD [] = entries := by
      cases entries <;> rfl
    have hcount := popped_copies hp hpop
    rw [hget] at hset
    simp only [Pool.copies]
    dsimp only at hheld
    by_cases hk : k = checkout.key
    · subst hk
      rw [if_pos rfl] at hset
      have hold : idleCopies p w.inner.idle checkout.key = list.countP (fun entry => p entry.value) := by
        simp only [idleCopies,hi,Option.getD_some]
      simp only [slotAt,decide_true,Bool.and_true] at hheld
      omega
    · have hne : checkout.key ≠ k := fun he => hk he.symm
      rw [if_neg hk] at hset
      simp only [slotAt,hne,decide_false,Bool.and_false,Bool.toNat_false] at hheld
      omega
  | @missed c i checkout hc hr hcw hn =>
    left
    have hset := idleCopies_set (p := p) w.inner.idle checkout.key none k
    simp only [Pool.copies]
    split at hset
    · rw [hset]
      simp
    · omega
  | @registered c checkout hc hcw hn =>
    left
    have hset := idleCopies_set (p := p) w.inner.idle checkout.key none k
    have hsent : sentCopies p (w.chans.alloc ⟨checkout.key,Oneshot.channel⟩) k = sentCopies p w.chans k :=
      Table.count_alloc _ _ _
    simp only [Pool.copies]
    split at hset
    · rw [hset,hsent]
      simp
    · omega
  | @droppedPut q item vanish kept inner chans hi ho hpool hout =>
    left
    have hput := hout.copies hok.queues (hp item.value) k
    have hheld := heldCopies_remove (p := p) hi k
    simp only [Pool.copies]
    rw [Inner.apply_releaseH1Slot Inner.releaseH1Slot_idle]
    omega
  | @droppedClosed q item vanish hi ho =>
    left
    have hheld := heldCopies_remove (p := p) hi k
    simp only [Pool.copies]
    rw [Inner.apply_releaseH1Slot Inner.releaseH1Slot_idle]
    omega
  | @droppedDetached q item vanish hi ho hpool =>
    left
    have hheld := heldCopies_remove (p := p) hi k
    simp only [Pool.copies]
    omega
  | alpnRelease =>
    left
    simp only [Pool.copies]
    rw [Inner.apply_releaseH1Slot Inner.releaseH1Slot_idle]
  | @cleanCheckout c i checkout hc hcw hcan =>
    left
    obtain ⟨waiters,he⟩ := Inner.cleanWaiters_eq w.inner w.chans checkout.key
    simp only [Pool.copies]
    rw [Inner.cleanWaiters_chans,sentCopies_dropSenders,he]
  | dropConnecting hg hpool =>
    left
    simp only [Pool.copies]
    rw [Inner.connectingCancelled_chans,sentCopies_dropSenders,Inner.connectingCancelled_idle]
  | @clearExpired timeout ht =>
    left
    have hidle : idleCopies p (w.inner.clearExpired w.isOpen timeout w.now).idle k ≤ idleCopies p w.inner.idle k := by
      unfold idleCopies Inner.clearExpired
      dsimp only
      cases w.inner.idle k with
      | none => exact Nat.le_refl _
      | some list =>
        rw [Option.bind_some,Inner.sweep]
        split
        · simp
        · exact List.Sublist.countP_le List.filter_sublist
    simp only [Pool.copies]
    omega
  | _ => exact .inl (Nat.le_refl _)

omit [Poolable T] in
theorem copies_pos_iff (k : K) : 0 < Pool.copies p w k ↔ ∃ v, p v = true ∧ Holds w k v := by
  unfold Pool.copies
  constructor
  · intro h
    rcases Nat.add_pos_iff_pos_or_pos.mp h with h | h
    · rcases Nat.add_pos_iff_pos_or_pos.mp h with h | h
      · obtain ⟨i,item,hget,ht⟩ := Table.count_pos_iff.mp h
        rw [Bool.and_eq_true,decide_eq_true_iff] at ht
        exact ⟨item.value,ht.1,.checkedOut hget ht.2 rfl⟩
      · obtain ⟨entry,hm,ht⟩ := List.countP_pos_iff.mp h
        exact ⟨entry.value,ht,.idle hm rfl⟩
    · obtain ⟨i,x,hget,ht⟩ := Table.count_pos_iff.mp h
      rw [Bool.and_eq_true,decide_eq_true_iff] at ht
      obtain ⟨v,hv,hpv⟩ := (Option.any_eq_true _ _).mp ht.1
      exact ⟨v,hpv,.sent hget ht.2 hv⟩
  · rintro ⟨v,hpv,h⟩
    rcases h with ⟨hget,hk,rfl⟩ | ⟨hm,rfl⟩ | ⟨hx,hk,hs⟩
    · have h : 0 < heldCopies p w.pooled k := Table.count_pos_iff.mpr ⟨_,_,hget,by simp [hpv,hk]⟩
      omega
    · have h : 0 < idleCopies p w.inner.idle k := List.countP_pos_iff.mpr ⟨_,hm,hpv⟩
      omega
    · have h : 0 < sentCopies p w.chans k := Table.count_pos_iff.mpr ⟨_,_,hx,by simp [hs,hpv,hk]⟩
      omega

end Copies

section Exclusive
variable [Poolable T] {w w' : World T K} {a : Action T K}

/-- The connection whose establishment ends is not one the pool still answers for. -/
def Fresh (w : World T K) : Action T K → Prop
  | .pooled _ v _ => canShare v = false → ∀ k, ¬ Holds w k v
  | _ => True

variable [DecidableEq T]

/-- The connection is in one place of one key. -/
structure Single (w : World T K) (v : T) : Prop where
  once : ∀ k, copies (fun u => decide (u = v)) w k ≤ 1
  key : ∀ {k k'}, Holds w k v → Holds w k' v → k = k'

theorem Transition.single (ht : Transition w a w') (hok : ChannelsOk w) (hf : Fresh w a) {v : T}
    (hv : canShare v = false) (h : Single w v) : Single w' v := by
  have hmade : ∀ {k}, Makes w a k v → ∀ k', ¬ Holds w k' v := by
    rintro k ⟨g,vanish,guard,rfl,_,_⟩
    exact hf hv
  constructor
  · intro k
    have hp : ∀ u, decide (u = v) = true → canShare u = false := by
      intro u hu
      rw [of_decide_eq_true hu]
      exact hv
    rcases ht.copies hok hp k with hle | ⟨u,hu,hm,hle⟩
    · exact hle.trans (h.once k)
    · rw [of_decide_eq_true hu] at hm
      have hz : ¬ 0 < Pool.copies (fun u => decide (u = v)) w k := by
        rw [copies_pos_iff]
        rintro ⟨u,hu,hold⟩
        rw [of_decide_eq_true hu] at hold
        exact hmade hm k hold
      omega
  · intro k k' hk hk'
    rcases (ht.traced hok).comes hk with hk | hm
    · rcases (ht.traced hok).comes hk' with hk' | hm
      · exact h.key hk hk'
      · exact absurd hk (hmade hm k)
    · rcases (ht.traced hok).comes hk' with hk' | hm'
      · exact absurd hk' (hmade hm k')
      · obtain ⟨g,_,guard,ha,hg,rfl⟩ := hm
        obtain ⟨g',_,guard',ha',hg',rfl⟩ := hm'
        cases ha.symm.trans ha'
        rw [hg] at hg'
        cases hg'
        rfl

omit [Poolable T] in
theorem Single.checkedOut {v : T} (h : Single w v) {p : ℕ} {item : Pooled T K} (hget : w.pooled.get p = some item)
    (hv : item.value = v) : (∀ {q it}, w.pooled.get q = some it → it.value = v → q = p) ∧
      (∀ k, ∀ entry ∈ w.inner.idleList k, entry.value ≠ v) ∧
      (∀ {i x}, w.chans.get i = some x → x.chan.slot ≠ some v) := by
  have hkey : ∀ {k}, Holds w k v → k = item.key := fun hk => h.key hk (.checkedOut hget rfl hv)
  have hone := h.once item.key
  unfold copies at hone
  have hheld : 0 < heldCopies (fun u => decide (u = v)) w.pooled item.key :=
    Table.count_pos_iff.mpr ⟨p,item,hget,by simp [hv]⟩
  refine ⟨?_,?_,?_⟩
  · intro q it hq hitv
    have hle : heldCopies (fun u => decide (u = v)) w.pooled item.key ≤ 1 := by omega
    refine Table.eq_of_count_le_one hle hq ?_ hget ?_
    · simp [hitv,hkey (.checkedOut hq rfl hitv)]
    · simp [hv]
  · intro k entry hm hev
    have hk := hkey (.idle hm hev)
    subst hk
    have hi : 0 < idleCopies (fun u => decide (u = v)) w.inner.idle item.key :=
      List.countP_pos_iff.mpr ⟨entry,hm,by simp [hev]⟩
    omega
  · intro i x hx hs
    have hk := hkey (.sent hx rfl hs)
    have hc : 0 < sentCopies (fun u => decide (u = v)) w.chans item.key :=
      Table.count_pos_iff.mpr ⟨i,x,hx,by simp [hs,hk]⟩
    omega

/-- A connection that is not open when its handle is dropped is nowhere any more. -/
theorem Single.discarded {v : T} (h : Single w v) {p : ℕ} {item : Pooled T K} {vanish : ℕ → Bool}
    (ht : Transition w (.dropPooled p vanish) w') (hget : w.pooled.get p = some item) (hv : item.value = v)
    (hclosed : w.isOpen v = false) (key : K) : ¬ Holds w' key v := by
  obtain ⟨hone,hidle,hsent⟩ := h.checkedOut hget hv
  subst hv
  cases ht with
  | droppedClosed hget' =>
    cases hget.symm.trans hget'
    rintro (⟨hq,_,hqv⟩ | ⟨hm,he⟩ | ⟨hx,_,hs⟩)
    · obtain ⟨hne,hq⟩ := Table.get_of_remove hq
      exact hne (hone hq hqv)
    · rw [Inner.idleList,Inner.apply_releaseH1Slot Inner.releaseH1Slot_idle] at hm
      exact hidle key _ hm he
    · exact hsent hx hs
  | droppedPut hget' hopen | droppedDetached hget' hopen =>
    cases hget.symm.trans hget'
    cases hclosed.symm.trans hopen

end Exclusive
end H12Tiny.Pool
