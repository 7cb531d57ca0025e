import H12Tiny.Pool.Steps

/-! # Waiter queues and channels agree

The queues hold exactly the senders that have not been used: a channel's sender
is held if and only if the channel stands in the queue of its key, and then
nothing has been sent. A channel only moves forward in its life: its key is
fixed, a dropped receiver stays dropped and a used sender stays used. Both facts
hold along every run, whatever the callers do.
-/
namespace H12Tiny.Pool
variable {T K : Type*}

/-- A channel only moves forward: keys and used senders are final, receivers are
dropped once and for all. -/
def Evolves (chans chans' : Channels T K) : Prop :=
  ∀ ⦃i x⦄, chans.get i = some x → ∃ y, chans'.get i = some y ∧ y.key = x.key ∧
    (x.chan.receiver = false → y.chan.receiver = false) ∧
    (x.chan.sender ≠ .held → y.chan.sender = x.chan.sender)

theorem Evolves.refl (chans : Channels T K) : Evolves chans chans :=
  fun _ x h => ⟨x,h,rfl,id,fun _ => rfl⟩

theorem Evolves.trans {a b c : Channels T K} (h : Evolves a b) (h' : Evolves b c) : Evolves a c := by
  intro i x hx
  obtain ⟨y,hy,hk,hr,hs⟩ := h hx
  obtain ⟨z,hz,hk',hr',hs'⟩ := h' hy
  refine ⟨z,hz,hk'.trans hk,fun h => hr' (hr h),fun h => ?_⟩
  have he := hs h
  rw [hs' (by rw [he]; exact h),he]

theorem Evolves.modify {chans : Channels T K} (i : ℕ) {f : Waiter T K → Waiter T K}
    (hk : ∀ x, (f x).key = x.key)
    (hr : ∀ x, x.chan.receiver = false → (f x).chan.receiver = false)
    (hs : ∀ x, chans.get i = some x → x.chan.sender ≠ .held → (f x).chan.sender = x.chan.sender) :
    Evolves chans (chans.modify i f) := by
  intro j x hx
  by_cases hj : j = i
  · subst hj
    exact ⟨f x,by simp [hx],hk x,hr x,hs x hx⟩
  · exact ⟨x,by rw [Table.get_modify_ne _ _ hj,hx],rfl,id,fun _ => rfl⟩

theorem Evolves.alloc (chans : Channels T K) (x : Waiter T K) : Evolves chans (chans.alloc x) :=
  fun _ y h => ⟨y,Table.get_alloc_of_some x h,rfl,id,fun _ => rfl⟩

theorem Evolves.received (chans : Channels T K) (i : ℕ) :
    Evolves chans (chans.modify i Channels.received) :=
  Evolves.modify i (fun _ => rfl) (fun _ _ => rfl) (fun _ _ _ => rfl)

private theorem abandoned_used {x : Waiter T K} (h : x.chan.sender ≠ .held) :
    (Channels.abandoned x).chan.sender = x.chan.sender := by
  rcases x with ⟨key,sender,receiver,slot⟩
  cases sender <;> first | exact absurd rfl h | rfl

theorem Evolves.dropSenders (chans : Channels T K) (ids : List ℕ) :
    Evolves chans (chans.dropSenders ids) := by
  intro i x hx
  refine ⟨_,Channels.get_dropSenders_of_some ids hx,?_,?_,?_⟩
  · split <;> rfl
  · intro hr
    split
    · simpa [Channels.abandoned] using hr
    · exact hr
  · intro hs
    split
    · exact abandoned_used hs
    · rfl

/-- The senders in the queues are exactly the unused ones. -/
structure QueuesOk (queue : K → List ℕ) (chans : Channels T K) : Prop where
  queued : ∀ {k i}, i ∈ queue k → ∃ x, chans.get i = some x ∧ x.key = k ∧ x.chan.sender = .held
  held : ∀ {i x}, chans.get i = some x → x.chan.sender = .held → i ∈ queue x.key
  nodup : ∀ k, (queue k).Nodup
  vacant : ∀ {i x}, chans.get i = some x → x.chan.sender = .held → x.chan.slot = none

section Queues
variable [DecidableEq K] {queue : K → List ℕ} {chans : Channels T K}

theorem mapSet_mapSet {V : Type*} (m : K → V) (key : K) (u v : V) :
    mapSet (mapSet m key u) key v = mapSet m key v := by
  funext k
  by_cases h : k = key <;> simp [mapSet_apply,h]

/-- Senders leave the queue of a key: the ones in `ids` are used by `f`, the others
stay in order. -/
theorem QueuesOk.leave (h : QueuesOk queue chans) (key : K) (kept ids : List ℕ)
    {chans' : Channels T K} (hsub : kept.Sublist (queue key))
    (hcover : ∀ i ∈ queue key, i ∈ kept ∨ i ∈ ids) (hdis : ∀ i ∈ ids, i ∉ kept)
    (hids : ∀ i ∈ ids, i ∈ queue key)
    (hsame : ∀ i, i ∉ ids → chans'.get i = chans.get i)
    (hused : ∀ i ∈ ids, ∀ y, chans'.get i = some y → y.chan.sender ≠ .held) :
    QueuesOk (mapSet queue key kept) chans' := by
  have hother : ∀ {k i}, k ≠ key → i ∈ queue k → i ∉ ids := by
    intro k i hk hi hmem
    obtain ⟨x,hx,hxk,_⟩ := h.queued hi
    obtain ⟨y,hy,hyk,_⟩ := h.queued (hids i hmem)
    rw [hx] at hy
    cases hy
    exact hk (hxk.symm.trans hyk)
  constructor
  · intro k i hi
    by_cases hk : k = key
    · subst hk
      rw [mapSet_self] at hi
      rw [hsame i (fun hm => hdis i hm hi)]
      exact h.queued (hsub.subset hi)
    · rw [mapSet_ne _ _ hk] at hi
      rw [hsame i (hother hk hi)]
      exact h.queued hi
  · intro i x hx hs
    have hni : i ∉ ids := fun hm => hused i hm x hx hs
    rw [hsame i hni] at hx
    have hq := h.held hx hs
    by_cases hk : x.key = key
    · rw [hk,mapSet_self]
      rw [hk] at hq
      exact (hcover i hq).resolve_right hni
    · rw [mapSet_ne _ _ hk]
      exact hq
  · intro k
    by_cases hk : k = key
    · subst hk
      rw [mapSet_self]
      exact (h.nodup k).sublist hsub
    · rw [mapSet_ne _ _ hk]
      exact h.nodup k
  · intro i x hx hs
    have hni : i ∉ ids := fun hm => hused i hm x hx hs
    rw [hsame i hni] at hx
    exact h.vacant hx hs

theorem QueuesOk.pop (h : QueuesOk queue chans) {key : K} {i : ℕ} {ws : List ℕ}
    (hq : queue key = i :: ws) {f : Waiter T K → Waiter T K}
    (hf : ∀ x, (f x).chan.sender ≠ .held) :
    QueuesOk (mapSet queue key ws) (chans.modify i f) := by
  have hn := h.nodup key
  rw [hq] at hn
  obtain ⟨hni,_⟩ := List.nodup_cons.mp hn
  refine h.leave key ws [i] ?_ ?_ ?_ ?_ ?_ ?_
  · rw [hq]; exact List.sublist_cons_self _ _
  · intro j hj
    rw [hq] at hj
    rcases List.mem_cons.mp hj with rfl | hj
    · exact Or.inr (List.mem_singleton.mpr rfl)
    · exact Or.inl hj
  · intro j hj
    rw [List.mem_singleton.mp hj]
    exact hni
  · intro j hj
    rw [List.mem_singleton.mp hj,hq]
    exact List.mem_cons_self
  · intro j hj
    exact Table.get_modify_ne _ _ (fun he => hj (List.mem_singleton.mpr he))
  · intro j hj y hy
    rw [List.mem_singleton.mp hj] at hy
    rcases Table.get_modify_cases hy with ⟨_,x,_,rfl⟩ | ⟨hne,_⟩
    · exact hf x
    · exact absurd rfl hne

theorem QueuesOk.dropSenders (h : QueuesOk queue chans) (key : K) {kept ids : List ℕ}
    (hsub : kept.Sublist (queue key)) (hcover : ∀ i ∈ queue key, i ∈ kept ∨ i ∈ ids)
    (hdis : ∀ i ∈ ids, i ∉ kept) (hids : ∀ i ∈ ids, i ∈ queue key) :
    QueuesOk (mapSet queue key kept) (chans.dropSenders ids) := by
  refine h.leave key kept ids hsub hcover hdis hids ?_ ?_
  · intro i hi
    rw [Channels.get_dropSenders,if_neg hi]
  · intro i hi y hy
    rw [Channels.get_dropSenders,if_pos hi] at hy
    obtain ⟨x,_,rfl⟩ := Option.map_eq_some_iff.mp hy
    exact Channels.abandoned_not_held x

theorem QueuesOk.register (h : QueuesOk queue chans) (key : K) :
    QueuesOk (mapSet queue key (queue key ++ [chans.next])) (chans.alloc ⟨key,Oneshot.channel⟩) := by
  have hlt : ∀ {k i}, i ∈ queue k → i < chans.next := by
    intro k i hi
    obtain ⟨x,hx,_⟩ := h.queued hi
    exact Table.lt_next hx
  constructor
  · intro k i hi
    by_cases hk : k = key
    · subst hk
      rw [mapSet_self] at hi
      rcases List.mem_append.mp hi with hi | hi
      · obtain ⟨x,hx,hxk,hs⟩ := h.queued hi
        exact ⟨x,Table.get_alloc_of_some _ hx,hxk,hs⟩
      · rw [List.mem_singleton.mp hi]
        exact ⟨⟨k,Oneshot.channel⟩,Table.get_alloc_self _ _,rfl,rfl⟩
    · rw [mapSet_ne _ _ hk] at hi
      obtain ⟨x,hx,hxk,hs⟩ := h.queued hi
      exact ⟨x,Table.get_alloc_of_some _ hx,hxk,hs⟩
  · intro i x hx hs
    rcases Table.get_alloc_cases hx with ⟨rfl,rfl⟩ | hx
    · simp
    · have hq := h.held hx hs
      by_cases hk : x.key = key
      · rw [hk] at hq ⊢
        rw [mapSet_self]
        exact List.mem_append_left _ hq
      · rw [mapSet_ne _ _ hk]
        exact hq
  · intro k
    by_cases hk : k = key
    · subst hk
      rw [mapSet_self,List.nodup_append]
      refine ⟨h.nodup k,List.nodup_singleton _,?_⟩
      intro a ha b hb
      have hl := hlt ha
      rw [List.mem_singleton.mp hb]
      omega
    · rw [mapSet_ne _ _ hk]
      exact h.nodup k
  · intro i x hx hs
    rcases Table.get_alloc_cases hx with ⟨_,rfl⟩ | hx
    · rfl
    · exact h.vacant hx hs

omit [DecidableEq K] in
theorem QueuesOk.received (h : QueuesOk queue chans) (i : ℕ) :
    QueuesOk queue (chans.modify i Channels.received) := by
  constructor
  · intro k j hj
    obtain ⟨x,hx,hk,hs⟩ := h.queued hj
    by_cases hij : j = i
    · subst hij
      exact ⟨Channels.received x,by simp [hx],hk,hs⟩
    · exact ⟨x,by rw [Table.get_modify_ne _ _ hij,hx],hk,hs⟩
  · intro j x hx hs
    rcases Table.get_modify_cases hx with ⟨rfl,y,hy,rfl⟩ | ⟨_,hx⟩
    · exact (h.held hy hs : j ∈ queue y.key)
    · exact h.held hx hs
  · exact h.nodup
  · intro j x hx hs
    rcases Table.get_modify_cases hx with ⟨rfl,y,hy,rfl⟩ | ⟨_,hx⟩
    · rfl
    · exact h.vacant hx hs

variable [Poolable T] {vanish : ℕ → Bool} {v : T}

theorem HandOver.queuesOk {key : K} {q rest : List ℕ} {chans' : Channels T K} {left : Option T}
    (hh : HandOver vanish v q chans left rest chans') (hq : queue key = q)
    (h : QueuesOk queue chans) : QueuesOk (mapSet queue key rest) chans' := by
  induction hh generalizing queue with
  | exhausted => rwa [mapSet_eq_self queue hq]
  | unique hc hv hs => exact h.pop hq (fun x => by simp [Channels.delivered])
  | canceled hc _ ih =>
    have h' := ih (mapSet_self _ _ _) (h.pop hq Channels.abandoned_not_held)
    rwa [mapSet_mapSet] at h'
  | vanished hc hv _ ih =>
    have h' := ih (mapSet_self _ _ _) (h.pop hq Channels.vanished_not_held)
    rwa [mapSet_mapSet] at h'
  | shared hc hv hs _ ih =>
    have h' := ih (mapSet_self _ _ _) (h.pop hq (fun x => by simp [Channels.delivered]))
    rwa [mapSet_mapSet] at h'

omit [DecidableEq K] in
theorem HandOver.evolves {q rest : List ℕ} {chans' : Channels T K} {left : Option T}
    (hh : HandOver vanish v q chans left rest chans')
    (hheld : ∀ i ∈ q, ∀ x, chans.get i = some x → x.chan.sender = .held) (hn : q.Nodup) :
    Evolves chans chans' := by
  have hstep : ∀ {i : ℕ} {ws : List ℕ} {chans : Channels T K} {f : Waiter T K → Waiter T K},
      (∀ x, (f x).key = x.key) → (∀ x, x.chan.receiver = false → (f x).chan.receiver = false) →
      (∀ j ∈ i :: ws, ∀ x, chans.get j = some x → x.chan.sender = .held) → (i :: ws).Nodup →
      Evolves chans (chans.modify i f) ∧
        ∀ j ∈ ws, ∀ x, (chans.modify i f).get j = some x → x.chan.sender = .held := by
    intro i ws chans f hk hr hheld hn
    refine ⟨Evolves.modify i hk hr ?_,?_⟩
    · intro x hx hs
      exact absurd (hheld i List.mem_cons_self x hx) hs
    · intro j hj x hx
      have hne : j ≠ i := fun he => (List.nodup_cons.mp hn).1 (he ▸ hj)
      rw [Table.get_modify_ne _ _ hne] at hx
      exact hheld j (List.mem_cons_of_mem _ hj) x hx
  induction hh with
  | exhausted => exact .refl _
  | unique => exact (hstep (Channels.delivered_key v) (fun _ h => h) hheld hn).1
  | canceled _ _ ih =>
    obtain ⟨he,hh⟩ := hstep Channels.abandoned_key
      (fun x h => by simpa [Channels.abandoned] using h) hheld hn
    exact he.trans (ih hh (List.nodup_cons.mp hn).2)
  | vanished _ _ _ ih =>
    obtain ⟨he,hh⟩ := hstep Channels.vanished_key
      (fun x _ => by simp [Channels.vanished]) hheld hn
    exact he.trans (ih hh (List.nodup_cons.mp hn).2)
  | shared _ _ _ _ ih =>
    obtain ⟨he,hh⟩ := hstep (Channels.delivered_key v) (fun _ h => h) hheld hn
    exact he.trans (ih hh (List.nodup_cons.mp hn).2)

end Queues
end H12Tiny.Pool
