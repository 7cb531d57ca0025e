import H12Tiny.Client.Interference
import H12Tiny.Pool.Contents

/-! # Where a request's connection comes from

A request that has been given a connection holds the handle of one live pooled
value, and no other request holds that handle. The value was established by a
handshake of some request of the same origin, and by the request's own handshake
unless the handle is marked as reused. So whatever the interleaving, a connection
dialled for one origin is never given to a request for another.
-/
namespace H12Tiny.Client
open Pool
variable {K : Type*} [DecidableEq K]

def Phase.connection? : Phase → Option ℕ
  | .leaving _ _ (.result (.ok p)) => some p
  | .done (.ok p) => some p
  | _ => none

section World
variable {w w' : World PoolClient K}

omit [DecidableEq K] in
theorem pollWaiter_ok {c p : ℕ} (h : w.pollWaiter c = some (.ready (some (.ok p)),w')) :
    ∃ checkout item, w.checkouts.get c = some checkout ∧ p = w.pooled.next ∧
      w'.pooled = w.pooled.alloc item ∧ item.key = checkout.key ∧ item.isReused = true := by
  unfold World.pollWaiter at h
  obtain ⟨checkout,hc,h⟩ := Option.bind_eq_some_iff.mp h
  split at h
  · cases h
  · obtain ⟨x,hx,h⟩ := Option.bind_eq_some_iff.mp h
    split at h
    · cases h
    · dsimp only at h
      split at h
      · split at h
        · cases h
          exact ⟨checkout,_,hc,rfl,rfl,rfl,rfl⟩
        · cases h
      · cases h
      · cases h

theorem checkout_some {c p : ℕ} (h : w.checkout c = some (some p,w')) :
    ∃ checkout item, w.checkouts.get c = some checkout ∧ p = w.pooled.next ∧
      w'.pooled = w.pooled.alloc item ∧ item.key = checkout.key ∧ item.isReused = true := by
  unfold World.checkout at h
  obtain ⟨checkout,hc,h⟩ := Option.bind_eq_some_iff.mp h
  split at h
  · dsimp only at h
    split at h
    · cases h
      exact ⟨checkout,_,hc,rfl,rfl,rfl,rfl⟩
    · split at h
      · cases h
      · cases h
  · cases h

theorem makePooled_some {g p : ℕ} {value : PoolClient} {vanish : ℕ → Bool}
    (h : w.makePooled g value vanish = some (p,w')) :
    ∃ guard item, w.guards.get g = some guard ∧ p = w.pooled.next ∧ w'.pooled = w.pooled.alloc item ∧
      item.key = guard.key ∧ item.value = value := by
  unfold World.makePooled at h
  obtain ⟨guard,hg,h⟩ := Option.bind_eq_some_iff.mp h
  split at h
  · rw [Poolable.reserve_eq] at h
    split at h
    · rename_i hr
      obtain ⟨⟨_,inner,chans⟩,_,he⟩ := Option.map_eq_some_iff.mp h
      cases he
      refine ⟨guard,_,hg,rfl,rfl,rfl,?_⟩
      dsimp only
      split at hr
      · cases hr
        rfl
      · cases hr
    · rename_i hr
      cases h
      refine ⟨guard,_,hg,rfl,rfl,rfl,?_⟩
      dsimp only
      split at hr
      · cases hr
      · cases hr
        rfl
  · cases h

end World

section Step
variable {s s' : State K} {a : Action K}

/-- The request has just been given the handle: the pool has allocated it under the
request's key, and unless it is marked as reused, the request's own handshake ended. -/
structure Gains (s : State K) (a : Action K) (s' : State K) (r p : ℕ) (key : K) : Prop where
  acting : a = .pollWaiter r ∨ a = .pollCheckout r ∨ ∃ outcome vanish, a = .handshaken r outcome vanish
  next : p = s.world.pooled.next
  handle : ∃ item, s'.world.pooled.get p = some item ∧ item.key = key ∧
    (item.isReused = true ∨ ∃ protocol n vanish, a = .handshaken r (some n) vanish ∧
      item.value = poolClient protocol n)

theorem Phase.connection?_selected {c p : ℕ} {k : Connect} {polled : Poll (Option (Except CheckoutError ℕ))}
    (h : (Phase.selected c k polled).connection? = some p) : polled = .ready (some (.ok p)) := by
  unfold Phase.selected at h
  split at h
  · cases h
    rfl
  · split at h <;> cases h
  · cases h

theorem Phase.connection?_awaited {c p : ℕ} {polled : Poll (Option (Except CheckoutError ℕ))}
    (h : (Phase.awaited c polled).connection? = some p) : polled = .ready (some (.ok p)) := by
  unfold Phase.awaited at h
  split at h <;> cases h
  rfl

theorem Phase.connection?_resume {k : Connect} {phase : Phase} {c : ℕ} {k' : Connect}
    (h : phase.establishing = some (c,k')) : (phase.resume k).connection? = none := by
  cases phase <;> first | rfl | cases h

theorem Phase.connection?_leaving (c g c' g' : Option ℕ) (next : Next) :
    (Phase.leaving c g next).connection? = (Phase.leaving c' g' next).connection? := by
  rcases next with (_ | _) | _ | _ <;> rfl

def Kept? (s : State K) (a : Action K) (s' : State K) (r p : ℕ) (q' : Request K) : Prop :=
  (∃ q, s.requests.get r = some q ∧ q.key = q'.key ∧ q.phase.connection? = some p) ∨
    Gains s a s' r p q'.key

omit [DecidableEq K] in
theorem kept_of_update {r₀ r p : ℕ} {w : World PoolClient K} {phase : Phase} {q' : Request K}
    (h : (s.update r₀ w phase).requests.get r = some q') (hp : q'.phase.connection? = some p)
    (hphase : ∀ q, s.requests.get r₀ = some q → phase.connection? = some p →
      q.phase.connection? = some p ∨ Gains s a s' r₀ p q.key) : Kept? s a s' r p q' := by
  rcases update_cases h with ⟨rfl,q,hq,hk,he⟩ | ⟨_,hq⟩
  · rw [he] at hp
    rcases hphase q hq hp with hold | hg
    · exact .inl ⟨q,hq,hk.symm,hold⟩
    · exact .inr (hk ▸ hg)
  · exact .inl ⟨q',hq,rfl,hp⟩

omit [DecidableEq K] in
theorem pollWaiter_kept {r₀ r p : ℕ} {q' : Request K} (hl : Linked s) (hs : s.pollWaiter r₀ = some s')
    (hq' : s'.requests.get r = some q') (hp : q'.phase.connection? = some p) :
    Kept? s (.pollWaiter r₀) s' r p q' := by
  have hgains : ∀ {q : Request K} {c : ℕ} {w : World PoolClient K}, s.requests.get r₀ = some q →
      q.phase.checkout? = some c → s.world.pollWaiter c = some (.ready (some (.ok p)),w) → s'.world = w →
      Gains s (.pollWaiter r₀) s' r₀ p q.key := by
    intro q c w hq hc hpoll hw
    obtain ⟨checkout,item,hget,hnext,hitem,hk,hr⟩ := pollWaiter_ok hpoll
    obtain ⟨checkout',hget',hkey⟩ := (hl.owned hq).checkout hc
    rw [hget] at hget'
    cases hget'
    refine ⟨.inl rfl,hnext,item,?_,hk.trans hkey,.inl hr⟩
    rw [hw,hitem,hnext]
    exact Table.get_alloc_self _ _
  unfold State.pollWaiter at hs
  obtain ⟨q,hq,hs⟩ := Option.bind_eq_some_iff.mp hs
  split at hs
  · rename_i c k hphase
    split at hs
    · obtain ⟨⟨polled,w⟩,hpoll,rfl⟩ := Option.map_eq_some_iff.mp hs
      refine kept_of_update hq' hp ?_
      intro q₁ hq₁ hc
      rw [hq] at hq₁
      cases hq₁
      cases Phase.connection?_selected hc
      exact .inr (hgains hq (by rw [hphase]; rfl) hpoll rfl)
    · cases hs
  · rename_i c hphase
    obtain ⟨⟨polled,w⟩,hpoll,rfl⟩ := Option.map_eq_some_iff.mp hs
    refine kept_of_update hq' hp ?_
    intro q₁ hq₁ hc
    rw [hq] at hq₁
    cases hq₁
    cases Phase.connection?_awaited hc
    exact .inr (hgains hq (by rw [hphase]; rfl) hpoll rfl)
  · cases hs

theorem pollCheckout_kept {r₀ r p : ℕ} {q' : Request K} (hl : Linked s) (hs : s.pollCheckout r₀ = some s')
    (hq' : s'.requests.get r = some q') (hp : q'.phase.connection? = some p) :
    Kept? s (.pollCheckout r₀) s' r p q' := by
  have hgains : ∀ {q : Request K} {c : ℕ} {found : Option ℕ} {w : World PoolClient K} (g : Option ℕ)
      (pending : Phase), s.requests.get r₀ = some q → q.phase.checkout? = some c → pending.connection? = none →
      s.world.checkout c = some (found,w) →
      found.elim (s.update r₀ w pending) (fun p => s.update r₀ w (.leaving (some c) g (.result (.ok p)))) = s' →
      Kept? s (.pollCheckout r₀) s' r p q' := by
    intro q c found w g pending hq hc hpend hcheck hs
    cases found with
    | none =>
      subst hs
      refine kept_of_update hq' hp ?_
      intro _ _ h
      rw [hpend] at h
      cases h
    | some p₀ =>
      subst hs
      refine kept_of_update hq' hp ?_
      intro q₁ hq₁ h
      rw [hq] at hq₁
      cases hq₁
      cases h
      obtain ⟨checkout,item,hget,hnext,hitem,hk,hr⟩ := checkout_some hcheck
      obtain ⟨checkout',hget',hkey⟩ := (hl.owned hq).checkout hc
      rw [hget] at hget'
      cases hget'
      refine .inr ⟨.inr (.inl rfl),hnext,item,?_,hk.trans hkey,.inl hr⟩
      change w.pooled.get p = some item
      rw [hitem,hnext]
      exact Table.get_alloc_self _ _
  unfold State.pollCheckout at hs
  obtain ⟨q,hq,hs⟩ := Option.bind_eq_some_iff.mp hs
  split at hs
  · rename_i c hphase
    obtain ⟨⟨found,w⟩,hcheck,hs⟩ := Option.map_eq_some_iff.mp hs
    refine hgains none (.registered c) hq (by rw [hphase]; rfl) rfl hcheck ?_
    cases found <;> exact hs
  · rename_i c k hphase
    split at hs
    · obtain ⟨⟨found,w⟩,hcheck,hs⟩ := Option.map_eq_some_iff.mp hs
      refine hgains (some k.guard) (.racing c k) hq (by rw [hphase]; rfl) rfl hcheck ?_
      cases found <;> exact hs
    · cases hs
  · rename_i c hphase
    obtain ⟨⟨found,w⟩,hcheck,hs⟩ := Option.map_eq_some_iff.mp hs
    refine hgains none (.waiting c) hq (by rw [hphase]; rfl) rfl hcheck ?_
    cases found <;> exact hs
  · cases hs

theorem handshaken_kept {r₀ r p : ℕ} {outcome : Option ℕ} {vanish : ℕ → Bool} {q' : Request K}
    (hl : Linked s) (hs : s.handshaken r₀ outcome vanish = some s') (hq' : s'.requests.get r = some q')
    (hp : q'.phase.connection? = some p) : Kept? s (.handshaken r₀ outcome vanish) s' r p q' := by
  unfold State.handshaken at hs
  obtain ⟨q,hq,hs⟩ := Option.bind_eq_some_iff.mp hs
  split at hs
  · rename_i c g protocol hest
    split at hs
    · cases hs
      rcases Table.get_modify_cases hq' with ⟨_,_,_,rfl⟩ | ⟨_,hq'⟩
      · cases hp
      · exact .inl ⟨q',hq',rfl,hp⟩
    · rename_i n _
      obtain ⟨⟨p₀,w⟩,hpool,rfl⟩ := Option.map_eq_some_iff.mp hs
      refine kept_of_update hq' hp ?_
      intro q₁ hq₁ h
      rw [hq] at hq₁
      cases hq₁
      cases h
      obtain ⟨guard,item,hget,hnext,hitem,hk,hv⟩ := makePooled_some hpool
      obtain ⟨guard',hget',hkey,_⟩ := (hl.owned hq).guard (Phase.establishing_spec hest).2
      cases hget.symm.trans hget'
      refine .inr ⟨.inr (.inr ⟨_,_,rfl⟩),hnext,item,?_,hk.trans hkey,.inr ⟨protocol,n,vanish,rfl,hv⟩⟩
      change w.pooled.get p = some item
      rw [hitem,hnext]
      exact Table.get_alloc_self _ _
  · cases hs

theorem Transition.kept (ht : Transition s a s') (hpw : ∀ r₀, a ≠ .pollWaiter r₀)
    (hpc : ∀ r₀, a ≠ .pollCheckout r₀) (hh : ∀ r₀ outcome vanish, a ≠ .handshaken r₀ outcome vanish)
    {r p : ℕ} {q' : Request K} (hq' : s'.requests.get r = some q') (hp : q'.phase.connection? = some p) :
    Kept? s a s' r p q' := by
  have hfail : ∀ {r₀ c g : ℕ} {error : Error}, s' = s.fail r₀ c g error → Kept? s a s' r p q' := by
    rintro r₀ c g error rfl
    rcases Table.get_modify_cases hq' with ⟨_,_,_,rfl⟩ | ⟨_,hq'⟩
    · cases hp
    · exact .inl ⟨q',hq',rfl,hp⟩
  have hleave : ∀ {r₀ : ℕ} {w : World PoolClient K} {phase : Phase} {q : Request K},
      s.requests.get r₀ = some q → (phase.connection? = some p → q.phase.connection? = some p) →
      s' = s.update r₀ w phase → Kept? s a s' r p q' := by
    rintro r₀ w phase q hq himp rfl
    refine kept_of_update hq' hp ?_
    intro q₁ hq₁ h
    rw [hq] at hq₁
    cases hq₁
    exact .inl (himp h)
  have hgone : ∀ {r₀ : ℕ} {w : World PoolClient K} {phase : Phase} {q : Request K},
      s.requests.get r₀ = some q → phase.connection? = none → s' = s.update r₀ w phase →
      Kept? s a s' r p q' := by
    intro r₀ w phase q hq hnone
    refine hleave hq ?_
    rw [hnone]
    exact nofun
  cases ht with
  | served | closed | unwanted | retried | idle => exact absurd rfl (hpw _)
  | found | parked => exact absurd rfl (hpc _)
  | handshakeFailed | pooled => exact absurd rfl (hh _ _ _)
  | request =>
    rcases Table.get_alloc_cases hq' with ⟨_,rfl⟩ | hq'
    · cases hp
    · exact .inl ⟨q',hq',rfl,hp⟩
  | granted hq | refused hq | cancel hq | cancelled hq | again hq | gaveUp hq | release hq =>
    exact hgone hq rfl rfl
  | dialFailed => exact hfail rfl
  | opened hq hest | converting hq hest | won hq hest => exact hgone hq (Phase.connection?_resume hest) rfl
  | lost hq hest =>
    refine hgone hq ?_ rfl
    rcases Phase.establishing_cases hest with hphase | hphase <;> rw [hphase] <;> rfl
  | dropReceiver hq hphase | dropCheckout hq hphase | dropGuard hq hphase =>
    refine hleave hq ?_ rfl
    intro h
    rw [hphase]
    exact (Phase.connection?_leaving ..).trans h
  | @finished _ result _ hq hphase =>
    refine hleave hq ?_ rfl
    rw [hphase]
    cases result <;> exact id
  | clearExpired | readiness | clock => exact .inl ⟨q',hq',rfl,hp⟩

theorem step_kept (hl : Linked s) (hs : s.step a = some s') {r p : ℕ} {q' : Request K}
    (hq' : s'.requests.get r = some q') (hp : q'.phase.connection? = some p) : Kept? s a s' r p q' := by
  have ht := step_transition hs
  cases a with
  | pollWaiter r₀ => exact pollWaiter_kept hl hs hq' hp
  | pollCheckout r₀ => exact pollCheckout_kept hl hs hq' hp
  | handshaken r₀ outcome vanish => exact handshaken_kept hl hs hq' hp
  | _ => exact ht.kept nofun nofun nofun hq' hp

theorem Transition.request_key (ht : Transition s a s') {r : ℕ} {q : Request K}
    (hq : s.requests.get r = some q) : ∃ q', s'.requests.get r = some q' ∧ q'.key = q.key := by
  have hupdate : ∀ {r₀ : ℕ} {f : Request K → Request K}, (∀ q, (f q).key = q.key) →
      ∃ q', (s.requests.modify r₀ f).get r = some q' ∧ q'.key = q.key := by
    intro r₀ f hf
    by_cases hr : r = r₀
    · subst hr
      exact ⟨f q,by rw [Table.get_modify_self,hq]; rfl,hf q⟩
    · exact ⟨q,by rw [Table.get_modify_ne _ _ hr,hq],rfl⟩
  cases ht with
  | request => exact ⟨q,Table.get_alloc_of_some _ hq,rfl⟩
  | clearExpired | readiness | clock => exact ⟨q,hq,rfl⟩
  | _ => exact hupdate (fun _ => rfl)

/-- The pool action behind a step brings in only the connection of a handshake, for
the key of its request, and drops only the handle of a request that returns it. -/
structure Supplies (s : State K) (a : Action K) (b : Pool.Action PoolClient K) : Prop where
  made : ∀ {g v vanish}, b = .pooled g v vanish → ∃ r q c protocol n vanish guard,
    a = .handshaken r (some n) vanish ∧ v = poolClient protocol n ∧ s.requests.get r = some q ∧
    q.phase.establishing = some (c,.handshaking g protocol) ∧ s.world.guards.get g = some guard ∧
    guard.key = q.key
  dropped : ∀ {p vanish}, b = .dropPooled p vanish → ∃ r q vanish, a = .release r vanish ∧
    s.requests.get r = some q ∧ q.phase = .done (.ok p)
  observed : ∀ {isOpen}, b = .readiness isOpen → a = .readiness isOpen

theorem Transition.supplies (ht : Transition s a s') (h : Linked s) :
    ∃ b, Supplies s a b ∧ s.world.step b = some s'.world := by
  cases ht with
  | @pooled r c g p n q protocol vanish w hq hest hs =>
    refine ⟨_,⟨?_,fun he => (by cases he),fun he => (by cases he)⟩,hs⟩
    intro g' v vanish' he
    cases he
    obtain ⟨guard,hget,hkey,_⟩ := (h.owned hq).guard (Phase.establishing_spec hest).2
    exact ⟨r,q,c,protocol,n,vanish,guard,rfl,rfl,hq,hest,hget,hkey⟩
  | @release r p q vanish w hq hphase hs =>
    refine ⟨_,⟨fun he => (by cases he),?_,fun he => (by cases he)⟩,hs⟩
    intro p' vanish' he
    cases he
    exact ⟨r,q,vanish,rfl,hq,hphase⟩
  | idle | dialFailed | opened | handshakeFailed | cancel | finished | cancelled | gaveUp =>
    exact ⟨.clock s.world.now,
      ⟨fun he => (by cases he),fun he => (by cases he),fun he => (by cases he)⟩,rfl⟩
  | request hs | served _ _ hs | closed _ _ _ hs | unwanted _ _ _ _ _ _ _ _ _ hs | retried _ _ hs
    | found _ _ hs | parked _ _ hs | granted _ _ hs | refused _ _ hs | converting _ _ _ hs | won _ _ hs
    | lost _ _ hs | dropReceiver _ _ hs | dropCheckout _ _ hs | dropGuard _ _ hs | again _ _ hs
    | clearExpired hs | clock hs =>
    exact ⟨_,⟨fun he => (by cases he),fun he => (by cases he),fun he => (by cases he)⟩,hs⟩
  | readiness hs =>
    refine ⟨_,⟨fun he => (by cases he),fun he => (by cases he),?_⟩,hs⟩
    intro isOpen he
    cases he
    rfl

def ContractKept (protocol : Protocol) (actions : List (Action K)) : Prop := ∀ a ∈ actions, Compatible protocol a

omit [DecidableEq K] in
theorem ContractKept.before {protocol : Protocol} {actions : List (Action K)} {a : Action K}
    (h : ContractKept protocol (actions ++ [a])) : ContractKept protocol actions ∧ Compatible protocol a :=
  ⟨fun b hb => h b (List.mem_append_left _ hb),h a (List.mem_append_right _ List.mem_cons_self)⟩

/-- What is known about the connections after a run with these actions. -/
structure Provenance (actions : List (Action K)) (s : State K) : Prop where
  selects : ContractKept s.protocol actions → ∀ {r q}, s.requests.get r = some q → Selects s.protocol q.phase
  established : ∀ {key v}, Holds s.world key v → ∃ r q protocol n vanish, v = poolClient protocol n ∧
    (ContractKept s.protocol actions → Permits s.protocol protocol) ∧
    Action.handshaken r (some n) vanish ∈ actions ∧ s.requests.get r = some q ∧ q.key = key
  held : ∀ {r q p}, s.requests.get r = some q → q.phase.connection? = some p →
    ∃ item, s.world.pooled.get p = some item ∧ item.key = q.key ∧
      (item.isReused = true ∨ ∃ protocol n vanish, item.value = poolClient protocol n ∧
        Action.handshaken r (some n) vanish ∈ actions)
  distinct : ∀ {r r' q q' p}, s.requests.get r = some q → s.requests.get r' = some q' →
    q.phase.connection? = some p → q'.phase.connection? = some p → r = r'

section Preservation
variable {actions : List (Action K)}

theorem Provenance.established_step (h : Provenance actions s) (hsound : Sound s) (hs : s.step a = some s')
    {key : K} {v : PoolClient} (hv : Holds s'.world key v) :
    ∃ r q protocol n vanish, v = poolClient protocol n ∧
      (ContractKept s'.protocol (actions ++ [a]) → Permits s'.protocol protocol) ∧
      Action.handshaken r (some n) vanish ∈ actions ++ [a] ∧ s'.requests.get r = some q ∧ q.key = key := by
  have ht := step_transition hs
  rw [ht.settings.1]
  obtain ⟨b,hb,hw⟩ := ht.supplies hsound.linked
  rcases ((Pool.step_transition hw).traced hsound.channels).comes hv with hold | ⟨g,_,guard,he,hguard,rfl⟩
  · obtain ⟨r,q,protocol,n,vanish,he,hp,hm,hq,hk⟩ := h.established hold
    obtain ⟨q',hq',hk'⟩ := ht.request_key hq
    exact ⟨r,q',protocol,n,vanish,he,fun hkept => hp hkept.before.1,List.mem_append_left _ hm,hq',hk'.trans hk⟩
  · obtain ⟨r,q,c,protocol,n,vanish,guard',rfl,hv,hq,hest,hguard',hk⟩ := hb.made he
    cases hguard.symm.trans hguard'
    obtain ⟨q',hq',hk'⟩ := ht.request_key hq
    exact ⟨r,q',protocol,n,vanish,hv,fun hkept => (h.selects hkept.before.1 hq).1 hest,by simp,hq',hk'.trans hk.symm⟩

theorem Provenance.handle_frame (h : Provenance actions s) (hl : Linked s) (hs : s.step a = some s') {r p : ℕ}
    {q q' : Request K} {item : Pooled PoolClient K} (hq : s.requests.get r = some q)
    (hp : q.phase.connection? = some p) (hq' : s'.requests.get r = some q')
    (hp' : q'.phase.connection? = some p) (hitem : s.world.pooled.get p = some item) :
    s'.world.pooled.get p = some item := by
  obtain ⟨b,hb,hw⟩ := (step_transition hs).supplies hl
  refine (Pool.step_transition hw).pooled_frame hitem ?_
  -- a handle is dropped by the one request that holds it, which then has none
  rintro vanish rfl
  obtain ⟨r₀,q₀,vanish,rfl,hq₀,hphase⟩ := hb.dropped rfl
  have hr := h.distinct hq hq₀ hp (by rw [hphase]; rfl)
  subst hr
  cases step_transition hs with
  | release =>
    rcases update_cases hq' with ⟨_,_,_,_,he⟩ | ⟨hne,_⟩
    · rw [he] at hp'
      cases hp'
    · exact hne rfl

theorem Provenance.distinct_step (h : Provenance actions s) (hl : Linked s) (hs : s.step a = some s')
    {r r' p : ℕ} {q q' : Request K} (hq : s'.requests.get r = some q) (hq' : s'.requests.get r' = some q')
    (hp : q.phase.connection? = some p) (hp' : q'.phase.connection? = some p) : r = r' := by
  have hold : ∀ {r q}, s.requests.get r = some q → q.phase.connection? = some p →
      p ≠ s.world.pooled.next := by
    intro r q hq hp he
    obtain ⟨item,hitem,_⟩ := h.held hq hp
    have hlt := Table.lt_next hitem
    omega
  rcases step_kept hl hs hq hp with ⟨q₁,hq₁,_,hp₁⟩ | hg
  · rcases step_kept hl hs hq' hp' with ⟨q₂,hq₂,_,hp₂⟩ | hg'
    · exact h.distinct hq₁ hq₂ hp₁ hp₂
    · exact absurd hg'.next (hold hq₁ hp₁)
  · rcases step_kept hl hs hq' hp' with ⟨q₂,hq₂,_,hp₂⟩ | hg'
    · exact absurd hg.next (hold hq₂ hp₂)
    · rcases hg.acting with rfl | rfl | ⟨outcome,vanish,rfl⟩ <;>
        rcases hg'.acting with he | he | ⟨_,_,he⟩ <;> cases he <;> rfl

theorem Provenance.step (h : Provenance actions s) (hsound : Sound s) (hs : s.step a = some s') :
    Provenance (actions ++ [a]) s' := by
  have hl := hsound.linked
  have ht := step_transition hs
  refine ⟨?_,h.established_step hsound hs,?_,h.distinct_step hl hs⟩
  · rw [ht.settings.1]
    exact fun hkept => ht.settings.1 ▸ ht.selects hkept.before.2 (h.selects hkept.before.1)
  intro r q' p hq' hp'
  rcases step_kept hl hs hq' hp' with ⟨q,hq,hk,hp⟩ | hg
  · obtain ⟨item,hitem,hkey,hr⟩ := h.held hq hp
    refine ⟨item,h.handle_frame hl hs hq hp hq' hp' hitem,hkey.trans hk,hr.imp_right ?_⟩
    rintro ⟨protocol,n,vanish,he,hm⟩
    exact ⟨protocol,n,vanish,he,List.mem_append_left _ hm⟩
  · obtain ⟨item,hitem,hkey,hr⟩ := hg.handle
    refine ⟨item,hitem,hkey,hr.imp_right ?_⟩
    rintro ⟨protocol,n,vanish,rfl,he⟩
    exact ⟨protocol,n,vanish,he,by simp⟩

end Preservation
end Step

section Run
variable {s₀ s : State K} {config : Config} {protocol : Protocol} {retry timer : Bool}
variable {actions : List (Action K)}

omit [DecidableEq K] in
theorem provenance_new (h₀ : State.new config protocol retry timer = some s₀) : Provenance [] s₀ := by
  obtain ⟨hw,_,_,hr⟩ := new_spec h₀
  have hnone : ∀ {r q}, s₀.requests.get r ≠ some q := by
    intro r q hq
    rw [hr] at hq
    cases hq
  refine ⟨fun _ _ _ hq => absurd hq hnone,?_,fun hq => absurd hq hnone,fun hq => absurd hq hnone⟩
  intro key v hv
  exact absurd hv (not_holds_new hw)

/-- A run keeps both what ties the requests to the pool and where the connections are from. -/
theorem trace_provenance (h₀ : State.new config protocol retry timer = some s₀)
    (h : Trace State.step s₀ actions s) : Sound s ∧ Provenance actions s := by
  induction h with
  | nil => exact ⟨sound_new h₀,provenance_new h₀⟩
  | snoc _ hs ih => exact ⟨ih.1.step hs,ih.2.step ih.1 hs⟩

theorem trace_protocol (h₀ : State.new config protocol retry timer = some s₀)
    (h : Trace State.step s₀ actions s) : s.protocol = protocol := by
  induction h with
  | nil => exact (new_spec h₀).2.1
  | snoc _ hs ih => exact (step_transition hs).settings.1.trans ih

/-- Whatever the interleaving, the connection that a request holds is a live handle
under the request's key, for a value that a handshake of some request with that key
brought in. It was the request's own handshake unless the handle is marked as reused. -/
theorem connection_has_origin (h₀ : State.new config protocol retry timer = some s₀)
    (h : Trace State.step s₀ actions s) {r p : ℕ} {q : Request K} (hq : s.requests.get r = some q)
    (hp : q.phase.connection? = some p) : ∃ item r' q' selected n vanish,
      s.world.pooled.get p = some item ∧ item.key = q.key ∧ item.value = poolClient selected n ∧
      Action.handshaken r' (some n) vanish ∈ actions ∧ s.requests.get r' = some q' ∧ q'.key = q.key ∧
      (item.isReused = false → r' = r) := by
  obtain ⟨_,hprov⟩ := trace_provenance h₀ h
  obtain ⟨item,hitem,hkey,hr⟩ := hprov.held hq hp
  rcases hr with hreused | ⟨selected,n,vanish,hv,hm⟩
  · obtain ⟨r',q',selected,n,vanish,hv,_,hm,hq',hk'⟩ := hprov.established (.checkedOut hitem rfl rfl)
    refine ⟨item,r',q',selected,n,vanish,hitem,hkey,hv,hm,hq',hk'.trans hkey,fun hf => ?_⟩
    cases hreused.symm.trans hf
  · exact ⟨item,r,q,selected,n,vanish,hitem,hkey,hv,hm,hq,rfl,fun _ => rfl⟩

/-- A first request establishes a connection and returns it, and a second one for the
same key finds it idle. -/
def reusing : List (Action ℕ) :=
  [.request 3,.pollCheckout 0,.connect 0,.dialed 0 (.ok .http1),.handshaken 0 (some 7) (fun _ => false),
    .dropReceiver 0,.dropCheckout 0,.finish 0,.readiness (fun _ => true),.release 0 (fun _ => false),
    .request 3,.pollCheckout 1]

theorem connection_has_origin_reusing : ∃ (s₀ s : State ℕ) (item : Pooled PoolClient ℕ) (r' n : ℕ)
    (vanish : ℕ → Bool), State.new ⟨none,1,1⟩ .http1 true false = some s₀ ∧
    Trace State.step s₀ reusing s ∧ s.world.pooled.get 1 = some item ∧ item.isReused = true ∧
    item.key = 3 ∧ .handshaken r' (some n) vanish ∈ reusing := by
  obtain ⟨s₀,s,q,item,h₀,hrun,hq,hkey,hp,hitem,hreused⟩ : ∃ (s₀ s : State ℕ) (q : Request ℕ)
      (item : Pooled PoolClient ℕ), State.new ⟨none,1,1⟩ .http1 true false = some s₀ ∧
      runActions State.step s₀ reusing = some s ∧ s.requests.get 1 = some q ∧ q.key = 3 ∧
      q.phase.connection? = some 1 ∧ s.world.pooled.get 1 = some item ∧ item.isReused = true :=
    ⟨_,_,_,_,rfl,rfl,rfl,rfl,rfl,rfl,rfl⟩
  have htrace := Trace.ofRun hrun
  obtain ⟨item',r',_,_,n,vanish,hitem',hkey',_,hm,_⟩ := connection_has_origin h₀ htrace hq hp
  cases hitem.symm.trans hitem'
  exact ⟨s₀,s,item,r',n,vanish,h₀,htrace,hitem,hreused,hkey'.trans hkey,hm⟩

/-- With a dialer that keeps its contract, a client speaks only what its policy permits: every
connection it has in use, keeps idle or is handing over came out of a handshake for a
permitted protocol. -/
theorem protocol_policy (h₀ : State.new config protocol retry timer = some s₀)
    (h : Trace State.step s₀ actions s) (hdialer : ContractKept protocol actions)
    {key : K} {v : PoolClient} (hv : Holds s.world key v) :
    ∃ selected n, v = poolClient selected n ∧ Permits protocol selected := by
  obtain ⟨_,_,selected,n,_,he,hp,_⟩ := (trace_provenance h₀ h).2.established hv
  rw [trace_protocol h₀ h] at hp
  exact ⟨selected,n,he,hp hdialer⟩

/-- Two requests share the connection of the first one. -/
def multiplexing : List (Action ℕ) :=
  [.readiness (fun _ => true),.request 3,.request 3,.pollCheckout 0,.connect 0,.dialed 0 (.ok .http2),
    .handshaken 0 (some 7) (fun _ => false),.pollCheckout 1]

theorem protocol_policy_multiplexing : ∃ (s₀ s : State ℕ) (v : PoolClient),
    State.new ⟨none,1,1⟩ .http2 true false = some s₀ ∧ Trace State.step s₀ multiplexing s ∧
    ContractKept .http2 multiplexing ∧ Holds s.world 3 v ∧
    ∃ selected n, v = poolClient selected n ∧ Permits .http2 selected := by
  obtain ⟨s₀,s,item,h₀,hrun,hitem,hkey⟩ : ∃ (s₀ s : State ℕ) (item : Pooled PoolClient ℕ),
      State.new ⟨none,1,1⟩ .http2 true false = some s₀ ∧ runActions State.step s₀ multiplexing = some s ∧
      s.world.pooled.get 1 = some item ∧ item.key = 3 :=
    ⟨_,_,_,rfl,rfl,rfl,rfl⟩
  have hv : Holds s.world 3 item.value := .checkedOut hitem hkey rfl
  have hdialer : ContractKept .http2 multiplexing := by simp [ContractKept,multiplexing,Compatible]
  exact ⟨s₀,s,item.value,h₀,.ofRun hrun,hdialer,hv,protocol_policy h₀ (.ofRun hrun) hdialer hv⟩

def Action.connection? : Action K → Option ℕ
  | .handshaken _ outcome _ => outcome
  | _ => none

omit [DecidableEq K] in
theorem poolClient_inj {selected selected' : ConnectionProtocol} {n n' : ℕ}
    (h : poolClient selected n = poolClient selected' n') : selected = selected' ∧ n = n' := by
  cases selected <;> cases selected' <;> cases h <;> exact ⟨rfl,rfl⟩

/-- If every handshake gives a connection of its own, an HTTP/1 connection is in one
place at a time. -/
theorem trace_single (h₀ : State.new config protocol retry timer = some s₀)
    (h : Trace State.step s₀ actions s) (hd : (actions.filterMap Action.connection?).Nodup) (n : ℕ) :
    Single s.world (poolClient .http1 n) := by
  induction h with
  | nil =>
    refine ⟨fun k => ?_,fun hk => absurd hk (not_holds_new (new_spec h₀).1)⟩
    have hzero : ¬ 0 < copies (fun u => decide (u = poolClient .http1 n)) s₀.world k := by
      rw [copies_pos_iff]
      rintro ⟨v,_,hv⟩
      exact not_holds_new (new_spec h₀).1 hv
    omega
  | @snoc actions t u a ht hs ih =>
    rw [List.filterMap_append] at hd
    obtain ⟨hsound,hprov⟩ := trace_provenance h₀ ht
    obtain ⟨b,hb,hw⟩ := (step_transition hs).supplies hsound.linked
    refine (Pool.step_transition hw).single hsound.channels ?_ rfl (ih hd.of_append_left)
    cases b with
    | pooled g v vanish =>
      intro _ k hk
      -- the same number was in an earlier handshake
      obtain ⟨r,q,c,selected,m,vanish',guard,rfl,rfl,_⟩ := hb.made rfl
      obtain ⟨r',q',selected',m',vanish'',he,_,hm,_⟩ := hprov.established hk
      obtain ⟨_,rfl⟩ := poolClient_inj he
      refine List.disjoint_of_nodup_append hd (List.mem_filterMap.mpr ⟨_,hm,rfl⟩) ?_
      simp [Action.connection?]
    | _ => trivial

/-- An HTTP/1 connection that a request holds is held by no other request, lies in no
idle list and is on its way to no waiter, whatever the interleaving. -/
theorem http1_connection_exclusive (h₀ : State.new config protocol retry timer = some s₀)
    (h : Trace State.step s₀ actions s) (hd : (actions.filterMap Action.connection?).Nodup)
    {r p n : ℕ} {q : Request K} {item : Pooled PoolClient K} (hq : s.requests.get r = some q)
    (hp : q.phase.connection? = some p) (hitem : s.world.pooled.get p = some item)
    (hv : item.value = poolClient .http1 n) :
    (∀ r' q' p' item', s.requests.get r' = some q' → q'.phase.connection? = some p' →
      s.world.pooled.get p' = some item' → item'.value = item.value → r' = r) ∧
    (∀ key, ∀ entry ∈ s.world.inner.idleList key, entry.value ≠ item.value) ∧
    ∀ i x, s.world.chans.get i = some x → x.chan.slot ≠ some item.value := by
  obtain ⟨_,hprov⟩ := trace_provenance h₀ h
  obtain ⟨hone,hidle,hsent⟩ := (trace_single h₀ h hd n).checkedOut hitem hv
  rw [hv]
  refine ⟨?_,hidle,fun i x => hsent⟩
  intro r' q' p' item' hq' hp' hitem' hv'
  cases hone hitem' hv'
  exact hprov.distinct hq' hq hp' hp

theorem http1_connection_exclusive_reusing : ∃ (s₀ s : State ℕ) (item : Pooled PoolClient ℕ),
    State.new ⟨none,1,1⟩ .http1 true false = some s₀ ∧ Trace State.step s₀ reusing s ∧
    s.world.pooled.get 1 = some item ∧ item.value = poolClient .http1 7 ∧
    ∀ key, ∀ entry ∈ s.world.inner.idleList key, entry.value ≠ item.value := by
  obtain ⟨s₀,s,q,item,h₀,hrun,hq,hp,hitem,hv⟩ : ∃ (s₀ s : State ℕ) (q : Request ℕ)
      (item : Pooled PoolClient ℕ), State.new ⟨none,1,1⟩ .http1 true false = some s₀ ∧
      runActions State.step s₀ reusing = some s ∧ s.requests.get 1 = some q ∧
      q.phase.connection? = some 1 ∧ s.world.pooled.get 1 = some item ∧
      item.value = poolClient .http1 7 :=
    ⟨_,_,_,_,rfl,rfl,rfl,rfl,rfl,rfl⟩
  have hd : (reusing.filterMap Action.connection?).Nodup := by decide
  exact ⟨s₀,s,item,h₀,.ofRun hrun,hitem,hv,
    (http1_connection_exclusive h₀ (.ofRun hrun) hd hq hp hitem hv).2.1⟩

end Run
end H12Tiny.Client
