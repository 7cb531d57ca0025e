import H12Tiny.Client.Exchange

/-! # Exchanges on one connection do not overlap

A busy HTTP/1 connection that the pool still answers for is in the hands of the call
that made it busy. It is not ready, so dropping its handle early, with the caller's
future or with the background task, discards it instead of returning it to the pool. A
further message is therefore handed over only after the driver has settled the last
exchange, whatever the interleaving of the calls.
-/
namespace H12Tiny.Client
open Pool
open Normalize (OriginKey)
variable {B R : Type}

section Client
variable {K : Type*} [DecidableEq K] {s s' : State K} {a : Action K}

/-- A request that is done stays so until it returns its connection. -/
theorem Transition.done_frame (ht : Transition s a s') {r : ℕ} {q : Request K} {result : Except Error ℕ}
    (hq : s.requests.get r = some q) (hphase : q.phase = .done result)
    (hn : ∀ vanish, a ≠ .release r vanish) : s'.requests.get r = some q := by
  have hother : ∀ {r₀ : ℕ} {q₀ : Request K} {f : Request K → Request K},
      s.requests.get r₀ = some q₀ → q₀.phase ≠ q.phase → (s.requests.modify r₀ f).get r = some q := by
    intro r₀ q₀ f hq₀ hne
    rw [Table.get_modify_ne,hq]
    rintro rfl
    cases hq₀.symm.trans hq
    exact hne rfl
  cases ht with
  | request => exact Table.get_alloc_of_some _ hq
  | served hq₀ hp | found hq₀ hp | parked hq₀ hp =>
    refine hother hq₀ fun he => ?_
    rw [he,hphase] at hp
    cases hp
  | closed hq₀ hp | unwanted hq₀ hp | retried hq₀ hp | granted hq₀ hp | refused hq₀ hp | dropReceiver hq₀ hp
    | dropCheckout hq₀ hp | dropGuard hq₀ hp | finished hq₀ hp | cancelled hq₀ hp | again hq₀ hp
    | gaveUp hq₀ hp =>
    refine hother hq₀ fun he => ?_
    rw [he,hphase] at hp
    cases hp
  | dialFailed hq₀ hp | opened hq₀ hp | converting hq₀ hp | won hq₀ hp | lost hq₀ hp | handshakeFailed hq₀ hp
    | pooled hq₀ hp | cancel hq₀ hp =>
    refine hother hq₀ fun he => ?_
    rw [he,hphase] at hp
    cases hp
  | @idle r₀ q₀ hq₀ =>
    by_cases hr : r = r₀
    · subst hr
      cases hq₀.symm.trans hq
      rw [update_get_self hq]
    · rw [update_get_ne hr,hq]
  | @release r₀ _ _ vanish _ hq₀ =>
    rw [update_get_ne,hq]
    rintro rfl
    exact hn vanish rfl
  | clearExpired | readiness | clock => exact hq

theorem Transition.request_before (ht : Transition s a s') {r : ℕ} {q' : Request K}
    (hq' : s'.requests.get r = some q') :
    (a = .request q'.key ∧ r = s.requests.next) ∨ ∃ q, s.requests.get r = some q ∧ q'.key = q.key := by
  have hupdate : ∀ {r₀ : ℕ} {f : Request K → Request K}, (∀ q, (f q).key = q.key) →
      (s.requests.modify r₀ f).get r = some q' → ∃ q, s.requests.get r = some q ∧ q'.key = q.key := by
    intro r₀ f hf hq'
    rcases Table.get_modify_cases hq' with ⟨rfl,q,hq,rfl⟩ | ⟨_,hq⟩
    · exact ⟨q,hq,hf q⟩
    · exact ⟨q',hq,rfl⟩
  cases ht with
  | request =>
    rcases Table.get_alloc_cases hq' with ⟨hr,rfl⟩ | hq
    · exact .inl ⟨rfl,hr⟩
    · exact .inr ⟨q',hq,rfl⟩
  | clearExpired | readiness | clock => exact .inr ⟨q',hq',rfl⟩
  | _ =>
    refine .inr (hupdate ?_ hq')
    exact fun _ => rfl

theorem Provenance.done_handle {actions : List (Action K)} (h : Provenance actions s) (hl : Linked s)
    (hs : s.step a = some s') {r p : ℕ} {q : Request K} {item : Pooled PoolClient K}
    (hq : s.requests.get r = some q) (hphase : q.phase = .done (.ok p))
    (hn : ∀ vanish, a ≠ .release r vanish) (hitem : s.world.pooled.get p = some item) :
    s'.world.pooled.get p = some item := by
  have hp : q.phase.connection? = some p := by
    rw [hphase]
    rfl
  exact h.handle_frame hl hs hq hp ((step_transition hs).done_frame hq hphase hn) hp hitem

end Client

def Uses (e : Exchanges B R) (c n : ℕ) : Prop :=
  ∃ call p item, e.calls.get c = some call ∧ call.stage.handle? = some p ∧
    e.client.world.pooled.get p = some item ∧ item.value = poolClient .http1 n

structure Attempts (client : State OriginKey) (call : Call B R) (q : Request OriginKey) : Prop where
  request : client.requests.get call.attempt = some q
  key : q.key = call.origin.key
  handle : ∀ {p}, call.stage.handle? = some p → q.phase = .done (.ok p)

structure Orderly (s₀ : State OriginKey) (actions : List (Action OriginKey)) (e : Exchanges B R) : Prop where
  run : Trace State.step s₀ actions e.client
  attempt : ∀ {c call}, e.calls.get c = some call → ∃ q, Attempts e.client call q
  distinct : ∀ {c c' call call'}, e.calls.get c = some call → e.calls.get c' = some call' →
    call.attempt = call'.attempt → c = c'
  quiet : ∀ {value}, e.client.world.isOpen value = true → isBusy e.busy value = false
  known : ∀ {n}, e.busy n = true → n ∈ actions.filterMap Action.connection?
  used : ∀ {key n}, e.busy n = true → Holds e.client.world key (poolClient .http1 n) → ∃ c, Uses e c n

theorem modified_call {calls : Table (Call B R)} {c c' : ℕ} {call call' : Call B R}
    {f : Call B R → Call B R} (hc : calls.get c = some call) (hattempt : (f call).attempt = call.attempt)
    (hc' : (calls.modify c f).get c' = some call') :
    ∃ call₀, calls.get c' = some call₀ ∧ call'.attempt = call₀.attempt := by
  rcases Table.get_modify_cases hc' with ⟨rfl,call₀,hc₀,rfl⟩ | ⟨_,hc'⟩
  · cases hc.symm.trans hc₀
    exact ⟨call,hc,hattempt⟩
  · exact ⟨call',hc',rfl⟩

theorem occupy_cases {busy : ℕ → Bool} {value : PoolClient} {n : ℕ} (h : occupy busy value n = true) :
    busy n = true ∨ value = poolClient .http1 n := by
  rcases value with ⟨m | m⟩
  · by_cases hne : n = m
    · subst hne
      exact .inr rfl
    · refine .inl ?_
      change Function.update busy m true n = true at h
      rwa [Function.update_of_ne hne] at h
  · exact .inl h

section Moves
variable {s₀ : State OriginKey} {actions : List (Action OriginKey)} {e : Exchanges B R}
variable {config : Config} {protocol : Protocol} {retry timer : Bool}
variable (h₀ : State.new config protocol retry timer = some s₀)
include h₀

/-- A step that is not the end of its establishment finds a busy connection where it was. -/
theorem Orderly.held_before (h : Orderly s₀ actions e) {a : Action OriginKey} {client : State OriginKey}
    (hs : e.client.step a = some client) (hd : ((actions ++ [a]).filterMap Action.connection?).Nodup)
    {key : OriginKey} {n : ℕ} (hbusy : e.busy n = true) (hv : Holds client.world key (poolClient .http1 n)) :
    Holds e.client.world key (poolClient .http1 n) := by
  obtain ⟨hsound,_⟩ := trace_provenance h₀ h.run
  obtain ⟨b,hb,hw⟩ := (step_transition hs).supplies hsound.linked
  rcases ((Pool.step_transition hw).traced hsound.channels).comes hv with hold | ⟨g,_,_,he,_⟩
  · exact hold
  · obtain ⟨r,_,_,_,m,vanish,_,rfl,hm,_⟩ := hb.made he
    obtain ⟨_,rfl⟩ := poolClient_inj hm
    rw [List.filterMap_append] at hd
    exact absurd List.mem_cons_self (List.disjoint_of_nodup_append hd (h.known hbusy))

theorem Orderly.client (h : Orderly s₀ actions e) {a : Action OriginKey} {client : State OriginKey}
    (hs : e.client.step a = some client) (hn : ∀ r vanish, a ≠ .release r vanish)
    (hr : ∀ isOpen, a ≠ .readiness isOpen) (hd : ((actions ++ [a]).filterMap Action.connection?).Nodup) :
    Orderly s₀ (actions ++ [a]) { e with client := client } := by
  obtain ⟨hsound,hprov⟩ := trace_provenance h₀ h.run
  have ht := step_transition hs
  refine ⟨h.run.snoc hs,?_,h.distinct,?_,?_,?_⟩
  · intro c call hc
    obtain ⟨q,hq⟩ := h.attempt hc
    cases hstage : call.stage.handle? with
    | none =>
      obtain ⟨q',hq',hk⟩ := ht.request_key hq.request
      refine ⟨q',hq',hk.trans hq.key,fun hp => ?_⟩
      cases hstage.symm.trans hp
    | some p => exact ⟨q,ht.done_frame hq.request (hq.handle hstage) (hn _),hq.key,hq.handle⟩
  · intro value hopen
    obtain ⟨b,hb,hw⟩ := ht.supplies hsound.linked
    refine h.quiet ?_
    rw [← (Pool.step_transition hw).isOpen_frame fun f he => hr f (hb.observed he)]
    exact hopen
  · intro n hbusy
    rw [List.filterMap_append]
    exact List.mem_append_left _ (h.known hbusy)
  · intro key n hbusy hv
    obtain ⟨c,call,p,item,hc,hp,hitem,hvalue⟩ := h.used hbusy (h.held_before h₀ hs hd hbusy hv)
    obtain ⟨q,hq⟩ := h.attempt hc
    exact ⟨c,call,p,item,hc,hp,hprov.done_handle hsound.linked hs hq.request (hq.handle hp) (hn _) hitem,hvalue⟩

/-- The call returns its connection. A busy one is discarded. -/
theorem Orderly.release (h : Orderly s₀ actions e) {c : ℕ} {call : Call B R} {vanish : ℕ → Bool}
    {client : State OriginKey} {f : Call B R → Call B R} (hc : e.calls.get c = some call)
    (hs : e.client.step (.release call.attempt vanish) = some client)
    (hd : (actions.filterMap Action.connection?).Nodup) (hattempt : (f call).attempt = call.attempt)
    (horigin : (f call).origin = call.origin) (hstage : (f call).stage.handle? = none) :
    Orderly s₀ (actions ++ [Action.release call.attempt vanish]) (e.update c client f) := by
  obtain ⟨hsound,hprov⟩ := trace_provenance h₀ h.run
  have ht := step_transition hs
  have hd' : ((actions ++ [Action.release call.attempt vanish]).filterMap Action.connection?).Nodup := by
    rw [List.filterMap_append]
    exact (List.append_nil _).symm ▸ hd
  -- other calls have other attempts
  have hother : ∀ {c' call'}, c' ≠ c → e.calls.get c' = some call' → ∀ vanish',
      (.release call.attempt vanish : Action OriginKey) ≠ .release call'.attempt vanish' := by
    intro c' call' hne hc' vanish' he
    injection he with he
    exact hne (h.distinct hc' hc he.symm)
  obtain ⟨b,hb,hw⟩ := ht.supplies hsound.linked
  refine ⟨h.run.snoc hs,?_,?_,?_,?_,?_⟩
  · intro c' call' hc'
    rcases Table.get_modify_cases hc' with ⟨rfl,call₁,hc₁,rfl⟩ | ⟨hne,hc'⟩
    · cases hc.symm.trans hc₁
      obtain ⟨q,hq⟩ := h.attempt hc
      obtain ⟨q',hq',hk⟩ := ht.request_key hq.request
      refine ⟨q',hattempt ▸ hq',hk.trans (hq.key.trans (congrArg _ horigin.symm)),fun hp => ?_⟩
      cases hstage.symm.trans hp
    · obtain ⟨q,hq⟩ := h.attempt hc'
      cases hstage' : call'.stage.handle? with
      | none =>
        obtain ⟨q',hq',hk⟩ := ht.request_key hq.request
        refine ⟨q',hq',hk.trans hq.key,fun hp => ?_⟩
        cases hstage'.symm.trans hp
      | some p =>
        exact ⟨q,ht.done_frame hq.request (hq.handle hstage') (hother hne hc'),hq.key,hq.handle⟩
  · intro c₁ c₂ call₁ call₂ hc₁ hc₂ he
    obtain ⟨_,hold₁,ha₁⟩ := modified_call hc hattempt hc₁
    obtain ⟨_,hold₂,ha₂⟩ := modified_call hc hattempt hc₂
    exact h.distinct hold₁ hold₂ (ha₁.symm.trans (he.trans ha₂))
  · intro value hopen
    refine h.quiet ?_
    rw [← (Pool.step_transition hw).isOpen_frame fun f he => (by cases hb.observed he)]
    exact hopen
  · intro n hbusy
    rw [List.filterMap_append]
    exact List.mem_append_left _ (h.known hbusy)
  · intro key n hbusy hv
    obtain ⟨c',call',p,item,hc',hp,hitem,hvalue⟩ := h.used hbusy (h.held_before h₀ hs hd' hbusy hv)
    obtain ⟨q,hq⟩ := h.attempt hc'
    by_cases hne : c' = c
    · subst hne
      cases hc.symm.trans hc'
      have hclosed : e.client.world.isOpen (poolClient .http1 n) = false := by
        refine Bool.eq_false_iff.mpr fun hopen => ?_
        cases hbusy.symm.trans (h.quiet hopen)
      cases ht with
      | release hq₀ hphase hw₀ =>
        cases hq₀.symm.trans hq.request
        cases hphase.symm.trans (hq.handle hp)
        exact absurd hv ((trace_single h₀ h.run hd n).discarded (Pool.step_transition hw₀) hitem hvalue hclosed key)
    · refine ⟨c',call',p,item,?_,hp,?_,hvalue⟩
      · exact (Table.get_modify_ne _ _ hne).trans hc'
      · exact hprov.done_handle hsound.linked hs hq.request (hq.handle hp) (hother hne hc') hitem

omit h₀ in
theorem Orderly.proceed (h : Orderly s₀ actions e) {c : ℕ} {call : Call B R} {f : Call B R → Call B R}
    (hc : e.calls.get c = some call) (hattempt : (f call).attempt = call.attempt)
    (horigin : (f call).origin = call.origin) (hstage : (f call).stage.handle? = call.stage.handle?) :
    Orderly s₀ actions (e.update c e.client f) := by
  refine ⟨h.run,?_,?_,h.quiet,h.known,?_⟩
  · intro c' call' hc'
    rcases Table.get_modify_cases hc' with ⟨rfl,call₁,hc₁,rfl⟩ | ⟨_,hc'⟩
    · cases hc.symm.trans hc₁
      obtain ⟨q,hq⟩ := h.attempt hc
      exact ⟨q,hattempt ▸ hq.request,hq.key.trans (congrArg _ horigin.symm),fun hp => hq.handle (hstage ▸ hp)⟩
    · exact h.attempt hc'
  · intro c₁ c₂ call₁ call₂ hc₁ hc₂ he
    obtain ⟨_,hold₁,ha₁⟩ := modified_call hc hattempt hc₁
    obtain ⟨_,hold₂,ha₂⟩ := modified_call hc hattempt hc₂
    exact h.distinct hold₁ hold₂ (ha₁.symm.trans (he.trans ha₂))
  · intro key n hbusy hv
    obtain ⟨c',call',p,item,hc',hp,hitem,hvalue⟩ := h.used hbusy hv
    by_cases hne : c' = c
    · subst hne
      cases hc.symm.trans hc'
      refine ⟨c',f call,p,item,?_,hstage.trans hp,hitem,hvalue⟩
      exact (Table.get_modify_self ..).trans (congrArg _ hc)
    · exact ⟨c',call',p,item,(Table.get_modify_ne _ _ hne).trans hc',hp,hitem,hvalue⟩

omit h₀ in
theorem Orderly.settled (h : Orderly s₀ actions e) (n : ℕ) :
    Orderly s₀ actions { e with busy := Function.update e.busy n false } := by
  have hbusy : ∀ {m}, Function.update e.busy n false m = true → e.busy m = true := by
    intro m hm
    by_cases hne : m = n
    · subst hne
      rw [Function.update_self] at hm
      cases hm
    · rwa [Function.update_of_ne hne] at hm
  refine ⟨h.run,h.attempt,h.distinct,?_,fun hm => h.known (hbusy hm),fun hm hv => h.used (hbusy hm) hv⟩
  intro value hopen
  have hold := h.quiet hopen
  rcases value with ⟨m | m⟩
  · refine Bool.eq_false_iff.mpr fun hm => ?_
    cases hold.symm.trans (hbusy hm)
  · rfl

theorem Orderly.readiness (h : Orderly s₀ actions e) {isOpen : PoolClient → Bool} {client : State OriginKey}
    (hs : e.client.step (.readiness isOpen) = some client)
    (hd : (actions.filterMap Action.connection?).Nodup)
    (hquiet : ∀ {value}, isOpen value = true → isBusy e.busy value = false) :
    Orderly s₀ (actions ++ [Action.readiness isOpen]) { e with client := client } := by
  have hd' : ((actions ++ [(.readiness isOpen : Action OriginKey)]).filterMap Action.connection?).Nodup := by
    rw [List.filterMap_append]
    exact (List.append_nil _).symm ▸ hd
  have hbefore : ∀ {key n}, e.busy n = true → Holds client.world key (poolClient .http1 n) →
      Holds e.client.world key (poolClient .http1 n) := h.held_before h₀ hs hd'
  have hrun := h.run.snoc hs
  cases hs
  refine ⟨hrun,?_,h.distinct,hquiet,?_,fun hn hv => h.used hn (hbefore hn hv)⟩
  · intro c call hc
    obtain ⟨q,hq⟩ := h.attempt hc
    exact ⟨q,hq.request,hq.key,hq.handle⟩
  · intro n hn
    rw [List.filterMap_append]
    exact List.mem_append_left _ (h.known hn)

theorem Orderly.occupy (h : Orderly s₀ actions e) {c p : ℕ} {call : Call B R} {f : Call B R → Call B R}
    {q : Request OriginKey} {item : Pooled PoolClient OriginKey} (hc : e.calls.get c = some call)
    (hstage : call.stage.handle? = none) (hq : e.client.requests.get call.attempt = some q)
    (hphase : q.phase = .done (.ok p)) (hitem : e.client.world.pooled.get p = some item)
    (hattempt : (f call).attempt = call.attempt) (horigin : (f call).origin = call.origin)
    (hsending : (f call).stage.handle? = some p)
    (hquiet : ∀ {value}, e.client.world.isOpen value = true → isBusy (occupy e.busy item.value) value = false) :
    Orderly s₀ actions { e with busy := occupy e.busy item.value, calls := e.calls.modify c f } := by
  have hself : (e.calls.modify c f).get c = some (f call) :=
    (Table.get_modify_self ..).trans (congrArg _ hc)
  refine ⟨h.run,?_,?_,hquiet,?_,?_⟩
  · intro c' call' hc'
    rcases Table.get_modify_cases hc' with ⟨rfl,call₁,hc₁,rfl⟩ | ⟨_,hc'⟩
    · cases hc.symm.trans hc₁
      obtain ⟨q',hq'⟩ := h.attempt hc
      cases hq.symm.trans hq'.request
      refine ⟨q,hattempt ▸ hq,hq'.key.trans (congrArg _ horigin.symm),fun hp => ?_⟩
      cases hsending.symm.trans hp
      exact hphase
    · exact h.attempt hc'
  · intro c₁ c₂ call₁ call₂ hc₁ hc₂ he
    obtain ⟨_,hold₁,ha₁⟩ := modified_call hc hattempt hc₁
    obtain ⟨_,hold₂,ha₂⟩ := modified_call hc hattempt hc₂
    exact h.distinct hold₁ hold₂ (ha₁.symm.trans (he.trans ha₂))
  · intro n hn
    rcases occupy_cases hn with hn | hn
    · exact h.known hn
    · obtain ⟨r,_,_,m,vanish,hm,_,hmem,_⟩ := (trace_provenance h₀ h.run).2.established (.checkedOut hitem rfl hn)
      obtain ⟨_,rfl⟩ := poolClient_inj hm
      exact List.mem_filterMap.mpr ⟨_,hmem,rfl⟩
  · intro key n hn hv
    rcases occupy_cases hn with hn | hn
    · obtain ⟨c',call',p',item',hc',hp,hitem',hvalue⟩ := h.used hn hv
      have hne : c' ≠ c := by
        rintro rfl
        cases hc.symm.trans hc'
        cases hstage.symm.trans hp
      exact ⟨c',call',p',item',(Table.get_modify_ne _ _ hne).trans hc',hp,hitem',hvalue⟩
    · exact ⟨c,f call,p,item,hself,hsending,hitem,hn⟩

omit h₀ in
theorem Orderly.attempt_lt (h : Orderly s₀ actions e) {c : ℕ} {call : Call B R}
    (hc : e.calls.get c = some call) : call.attempt < e.client.requests.next := by
  obtain ⟨q,hq⟩ := h.attempt hc
  exact Table.lt_next hq.request

omit h₀ in
theorem request_attempts {client client' : State OriginKey} {call : Call B R}
    (hs : client.step (.request call.origin.key) = some client') (hattempt : call.attempt = client.requests.next)
    (hstage : call.stage.handle? = none) : ∃ q, Attempts client' call q := by
  cases hs
  refine ⟨_,hattempt ▸ Table.get_alloc_self _ _,rfl,fun hp => ?_⟩
  cases hstage.symm.trans hp

theorem Orderly.start (h : Orderly s₀ actions e) {call : Call B R} {client : State OriginKey}
    (hs : e.client.step (.request call.origin.key) = some client)
    (hattempt : call.attempt = e.client.requests.next) (hstage : call.stage.handle? = none)
    (hd : (actions.filterMap Action.connection?).Nodup) :
    Orderly s₀ (actions ++ [Action.request call.origin.key])
      { e with client := client, calls := e.calls.alloc call } := by
  have hd' : ((actions ++ [Action.request call.origin.key]).filterMap Action.connection?).Nodup := by
    rw [List.filterMap_append]
    exact (List.append_nil _).symm ▸ hd
  have hnext := h.client h₀ hs (fun _ _ he => by cases he) (fun _ he => by cases he) hd'
  refine ⟨hnext.run,?_,?_,hnext.quiet,hnext.known,?_⟩
  · intro c' call' hc'
    rcases Table.get_alloc_cases hc' with ⟨_,rfl⟩ | hc'
    · exact request_attempts hs hattempt hstage
    · exact hnext.attempt hc'
  · intro c₁ c₂ call₁ call₂ hc₁ hc₂ he
    rcases Table.get_alloc_cases hc₁ with ⟨rfl,rfl⟩ | hold₁ <;>
      rcases Table.get_alloc_cases hc₂ with ⟨rfl,rfl⟩ | hold₂
    · rfl
    · have hlt := h.attempt_lt hold₂
      omega
    · have hlt := h.attempt_lt hold₁
      omega
    · exact h.distinct hold₁ hold₂ he
  · intro key n hn hv
    obtain ⟨c',call',p,item,hc',hp,hitem,hvalue⟩ := hnext.used hn hv
    exact ⟨c',call',p,item,Table.get_alloc_of_some _ hc',hp,hitem,hvalue⟩

theorem Orderly.restart (h : Orderly s₀ actions e) {c : ℕ} {call : Call B R} {f : Call B R → Call B R}
    {client : State OriginKey} (hc : e.calls.get c = some call) (hstage : call.stage.handle? = none)
    (hs : e.client.step (.request (f call).origin.key) = some client)
    (hattempt : (f call).attempt = e.client.requests.next) (hstage' : (f call).stage.handle? = none)
    (hd : (actions.filterMap Action.connection?).Nodup) :
    Orderly s₀ (actions ++ [Action.request (f call).origin.key]) (e.update c client f) := by
  have hd' : ((actions ++ [Action.request (f call).origin.key]).filterMap Action.connection?).Nodup := by
    rw [List.filterMap_append]
    exact (List.append_nil _).symm ▸ hd
  have hnext := h.client h₀ hs (fun _ _ he => by cases he) (fun _ he => by cases he) hd'
  have hcases : ∀ {c' call'}, (e.calls.modify c f).get c' = some call' →
      (c' = c ∧ call' = f call) ∨ e.calls.get c' = some call' := by
    intro c' call' hc'
    rcases Table.get_modify_cases hc' with ⟨rfl,call₁,hc₁,rfl⟩ | ⟨_,hc'⟩
    · cases hc.symm.trans hc₁
      exact .inl ⟨rfl,rfl⟩
    · exact .inr hc'
  refine ⟨hnext.run,?_,?_,hnext.quiet,hnext.known,?_⟩
  · intro c' call' hc'
    rcases hcases hc' with ⟨_,rfl⟩ | hc'
    · exact request_attempts hs hattempt hstage'
    · exact hnext.attempt hc'
  · intro c₁ c₂ call₁ call₂ hc₁ hc₂ he
    rcases hcases hc₁ with ⟨rfl,rfl⟩ | hold₁ <;> rcases hcases hc₂ with ⟨rfl,rfl⟩ | hold₂
    · rfl
    · have hlt := h.attempt_lt hold₂
      omega
    · have hlt := h.attempt_lt hold₁
      omega
    · exact h.distinct hold₁ hold₂ he
  · intro key n hn hv
    obtain ⟨c',call',p,item,hc',hp,hitem,hvalue⟩ := hnext.used hn hv
    have hne : c' ≠ c := by
      rintro rfl
      cases hc.symm.trans hc'
      cases hstage.symm.trans hp
    exact ⟨c',call',p,item,(Table.get_modify_ne _ _ hne).trans hc',hp,hitem,hvalue⟩

/-- The steps of the client behind an event: the handshakes among them are the event's. -/
structure Behind (event : Event B R) (more : List (Action OriginKey)) : Prop where
  connections : more.filterMap Action.connection? = event.connection?.toList
  handshakes : ∀ {r n vanish}, .handshaken r (some n) vanish ∈ more →
    event = .connection (.handshaken r (some n) vanish)

omit h₀ in
theorem behind_quiet {event : Event B R} {more : List (Action OriginKey)} (hevent : event.connection? = none)
    (h : ∀ a ∈ more, a.connection? = none) : Behind event more := by
  refine ⟨?_,fun hm => ?_⟩
  · rw [hevent]
    exact List.filterMap_eq_nil_iff.mpr h
  · cases h _ hm

omit h₀ in
theorem Event.connection?_of_call {event : Event B R} {c : ℕ} (h : event.call? = some c) :
    event.connection? = none := by
  cases event with
  | connection => cases h
  | _ => rfl

theorem Exchanged.orderly {e' : Exchanges B R} {event : Event B R} (hx : Exchanged e event e')
    (h : Orderly s₀ actions e)
    (hd : (actions.filterMap Action.connection? ++ event.connection?.toList).Nodup) :
    ∃ more, Behind event more ∧ Orderly s₀ (actions ++ more) e' := by
  have hnodup := hd.of_append_left
  have hsame : ∀ {event : Event B R} {e' : Exchanges B R}, event.connection? = none →
      Orderly s₀ actions e' → ∃ more, Behind event more ∧ Orderly s₀ (actions ++ more) e' := by
    intro event e' hevent he
    refine ⟨[],behind_quiet hevent (fun _ hm => by cases hm),?_⟩
    rw [List.append_nil]
    exact he
  cases hx with
  | request _ hs => exact ⟨_,behind_quiet rfl (by simp [Action.connection?]),h.start h₀ hs rfl rfl hnodup⟩
  | @connection action client hinternal hs =>
    refine ⟨[action],⟨?_,?_⟩,h.client h₀ hs ?_ ?_ ?_⟩
    · cases hc : action.connection? <;> simp [Event.connection?,hc]
    · intro r n vanish hm
      rw [List.mem_singleton.mp hm]
    · rintro r vanish rfl
      cases hinternal
    · rintro isOpen rfl
      cases hinternal
    · rw [List.filterMap_append]
      cases hc : action.connection? <;> simpa [Event.connection?,hc] using hd
  | refused hc hstage =>
    refine hsame rfl (h.proceed hc rfl rfl ?_)
    rw [hstage]
    rfl
  | @handOver c p vanish call q item message client hc hstage hq hphase hitem _ hs =>
    have hready := h.readiness h₀ hs hnodup fun hopen => h.quiet (Bool.and_eq_true_iff.mp hopen).1
    cases hs
    refine ⟨_,behind_quiet rfl ?_,hready.occupy h₀ hc (by rw [hstage]; rfl) hq hphase hitem rfl rfl rfl ?_⟩
    · simp [Action.connection?]
    · intro value hopen
      simpa using (Bool.and_eq_true_iff.mp hopen).2
  | leave hc _ hevent hs =>
    exact ⟨_,behind_quiet (Event.connection?_of_call hevent) (by simp [Action.connection?]),
      h.release h₀ hc hs hnodup rfl rfl rfl⟩
  | keep hc hstage =>
    refine hsame rfl (h.proceed hc rfl rfl ?_)
    rw [hstage]
    rfl
  | @again c p vanish call client next hc hstage _ hs hn =>
    refine ⟨[.release call.attempt vanish,.request call.origin.key],behind_quiet rfl (by simp [Action.connection?]),?_⟩
    -- first the connection goes back, then the call starts over
    have hreleased := h.release h₀ hc hs hnodup (f := fun call => { call with stage := .connecting }) rfl rfl rfl
    have hc' : (e.update c client fun call => { call with stage := .connecting }).calls.get c =
        some { call with stage := .connecting } := (Table.get_modify_self ..).trans (congrArg _ hc)
    have hrestarted := hreleased.restart h₀ hc' rfl (f := fun call =>
      { call with
        attempt := client.requests.next
        request := { call.request with uri := call.absoluteUri }
        attempts := call.attempts ++ [client.requests.next] }) hn rfl rfl ?_
    · rw [List.append_assoc] at hrestarted
      have hmodify : (e.calls.modify c fun call => { call with stage := .connecting }).modify c (fun call =>
            { call with
              attempt := client.requests.next
              request := { call.request with uri := call.absoluteUri }
              attempts := call.attempts ++ [client.requests.next] }) =
          e.calls.modify c fun call =>
            { call with
              stage := .connecting
              attempt := client.requests.next
              request := { call.request with uri := call.absoluteUri }
              attempts := call.attempts ++ [client.requests.next] } := Table.modify_modify ..
      unfold Exchanges.update at hrestarted
      rw [hmodify] at hrestarted
      exact hrestarted
    · rw [List.filterMap_append]
      exact (List.append_nil _).symm ▸ hnodup
  | @cancel c vanish call client hc hstage hs =>
    have hd' : ((actions ++ [(.cancel call.attempt : Action OriginKey)]).filterMap Action.connection?).Nodup := by
      rw [List.filterMap_append]
      exact (List.append_nil _).symm ▸ hnodup
    refine ⟨[.cancel call.attempt],behind_quiet rfl (by simp [Action.connection?]),?_⟩
    refine (h.client h₀ hs (fun _ _ he => by cases he) (fun _ he => by cases he) hd').proceed hc rfl rfl ?_
    rw [hstage]
    rfl
  | settled => exact hsame rfl (h.settled _)
  | readiness hs =>
    refine ⟨_,behind_quiet rfl (by simp [Action.connection?]),h.readiness h₀ hs hnodup ?_⟩
    intro value hopen
    simpa using (Bool.and_eq_true_iff.mp hopen).2

end Moves

section Run
variable {config : Config} {protocol : Protocol} {setHost retry timer : Bool}
variable {e₀ e : Exchanges B R} {events : List (Event B R)}

theorem exchanges_new (h₀ : Exchanges.new config protocol setHost retry timer = some e₀) :
    State.new config protocol retry timer = some e₀.client ∧ e₀.setHost = setHost ∧ e₀.calls = .empty ∧
      e₀.busy = fun _ => false := by
  obtain ⟨client,hclient,rfl⟩ := Option.map_eq_some_iff.mp h₀
  exact ⟨hclient,rfl,rfl,rfl⟩

/-- Forgetting the calls, a run is a run of the client with the same handshakes, and it
keeps the calls in order. -/
theorem trace_orderly (h₀ : Exchanges.new config protocol setHost retry timer = some e₀)
    (h : Trace Exchanges.step e₀ events e) (hd : (events.filterMap Event.connection?).Nodup) :
    ∃ actions, Orderly e₀.client actions e ∧
      actions.filterMap Action.connection? = events.filterMap Event.connection? ∧
      ∀ r n vanish, .handshaken r (some n) vanish ∈ actions →
        .connection (.handshaken r (some n) vanish) ∈ events := by
  obtain ⟨hnew,_,hcalls,hbusy⟩ := exchanges_new h₀
  induction h with
  | nil =>
    refine ⟨[],⟨.nil,?_,?_,?_,?_,?_⟩,rfl,nofun⟩
    · intro c call hc
      rw [hcalls] at hc
      cases hc
    · intro c c' call call' hc
      rw [hcalls] at hc
      cases hc
    · intro value _
      rw [hbusy]
      rcases value with ⟨_ | _⟩ <;> rfl
    · intro n hn
      rw [hbusy] at hn
      cases hn
    · intro key n hn
      rw [hbusy] at hn
      cases hn
  | @snoc events t u event _ hs ih =>
    rw [List.filterMap_append] at hd
    obtain ⟨actions,horderly,hconnections,hhandshakes⟩ := ih hd.of_append_left
    have hevent : [event].filterMap Event.connection? = event.connection?.toList := by
      cases hc : event.connection? <;> simp [hc]
    obtain ⟨more,hbehind,hmore⟩ := (step_exchanged hs).orderly hnew horderly
      (by rw [hconnections,← hevent]; exact hd)
    refine ⟨actions ++ more,hmore,?_,?_⟩
    · rw [List.filterMap_append,List.filterMap_append,hconnections,hbehind.connections,hevent]
    · intro r n vanish hm
      rcases List.mem_append.mp hm with hm | hm
      · exact List.mem_append_left _ (hhandshakes r n vanish hm)
      · rw [hbehind.handshakes hm]
        exact List.mem_append_right _ List.mem_cons_self

theorem Orderly.sole_user {s₀ : State OriginKey} {actions : List (Action OriginKey)}
    (h : Orderly s₀ actions e) (h₀ : State.new config protocol retry timer = some s₀)
    (hd : (actions.filterMap Action.connection?).Nodup) {c c' p n : ℕ} {call : Call B R} {q : Request OriginKey}
    {item : Pooled PoolClient OriginKey} (hc : e.calls.get c = some call)
    (hq : e.client.requests.get call.attempt = some q) (hphase : q.phase = .done (.ok p))
    (hitem : e.client.world.pooled.get p = some item) (hvalue : item.value = poolClient .http1 n)
    (huses : Uses e c' n) : c' = c := by
  obtain ⟨call',p',item',hc',hp',hitem',hvalue'⟩ := huses
  obtain ⟨q',hq'⟩ := h.attempt hc'
  cases ((trace_single h₀ h.run hd n).checkedOut hitem hvalue).1 hitem' hvalue'
  refine h.distinct hc' hc ((trace_provenance h₀ h.run).2.distinct (p := p) hq'.request hq ?_ ?_)
  · rw [hq'.handle hp']
    rfl
  · rw [hphase]
    rfl

/-- Exchanges on an HTTP/1 connection do not overlap: when a call hands its message to
one, the driver has settled the exchange before, and no other call has a handle of the
connection. -/
theorem exchanges_do_not_overlap (h₀ : Exchanges.new config protocol setHost retry timer = some e₀)
    (h : Trace Exchanges.step e₀ events e) (hd : (events.filterMap Event.connection?).Nodup)
    {e' : Exchanges B R} {c n : ℕ} {vanish : ℕ → Bool} (hs : e.step (.send c vanish) = some e')
    (huses : Uses e' c n) : e.busy n = false ∧ ∀ c', ¬ Uses e c' n := by
  obtain ⟨hnew,_⟩ := exchanges_new h₀
  obtain ⟨actions,horderly,hconnections,_⟩ := trace_orderly h₀ h hd
  obtain ⟨call',p',item',hc',hp',hitem',hvalue'⟩ := huses
  have hended : ∀ {client : State OriginKey} {f : Call B R → Call B R}, (∀ call, (f call).stage.handle? = none) →
      (e.update c client f).calls.get c ≠ some call' := by
    intro client f hf hc'
    rcases Table.get_modify_cases hc' with ⟨_,call₁,_,rfl⟩ | ⟨hne,_⟩
    · cases (hf call₁).symm.trans hp'
    · exact hne rfl
  cases step_exchanged hs with
  | refused => exact absurd hc' (hended fun _ => rfl)
  | leave _ _ hevent =>
    cases hevent
    exact absurd hc' (hended fun _ => rfl)
  | @handOver _ p _ call q item message client hc hstage hq hphase hitem _ hready =>
    cases hready
    have hcall : call' = { call with
        stage := .sending p
        request := message
        sent := call.sent ++ [(protocolOf item.value,message)] } :=
      Option.some.inj (hc'.symm.trans ((Table.get_modify_self ..).trans (congrArg _ hc)))
    subst hcall
    cases hp'
    cases hitem.symm.trans hitem'
    have hnone : ∀ c', ¬ Uses e c' n := by
      intro c' huses
      have hsame := horderly.sole_user hnew (hconnections ▸ hd) hc hq hphase hitem hvalue' huses
      subst hsame
      obtain ⟨call₁,_,_,hc₁,hp₁,_⟩ := huses
      cases hc.symm.trans hc₁
      rw [hstage] at hp₁
      cases hp₁
    refine ⟨Bool.eq_false_iff.mpr fun hbusy => ?_,hnone⟩
    obtain ⟨c',huses⟩ := horderly.used hbusy (.checkedOut hitem rfl hvalue')
    exact hnone c' huses

/-- The request is for `http://A/` instead of `http://a/`. -/
def upperRequest : Normalize.Request Unit := { sampleRequest with uri := Normalize.upperUri }

/-- A call gets the connection that another call has drained, which wrote the origin in
another case. -/
def handingOn : List (Event Unit Unit) :=
  [.request sampleRequest,.connection (.pollCheckout 0),.connection (.connect 0),
    .connection (.dialed 0 (.ok .http1)),.connection (.handshaken 0 (some 7) fun _ => false),
    .connection (.dropReceiver 0),.connection (.dropCheckout 0),.connection (.finish 0),
    .send 0 fun _ => false,.respond 0 (.response ()) fun _ => false,.settled 7,.readiness fun _ => true,
    .drained 0 fun _ => false,.request upperRequest,.connection (.pollCheckout 1),
    .connection (.dropCheckout 1),.connection (.finish 1)]

theorem exchanges_do_not_overlap_handingOn : ∃ (e₀ e e' : Exchanges Unit Unit),
    Exchanges.new ⟨none,1,1⟩ .http1 true true false = some e₀ ∧ Trace Exchanges.step e₀ handingOn e ∧
    e.step (.send 1 fun _ => false) = some e' ∧ Uses e' 1 7 ∧ e.busy 7 = false ∧ ∀ c', ¬ Uses e c' 7 := by
  obtain ⟨e₀,e,e',call,item,h₀,hrun,hs,hc,hp,hitem,hv⟩ : ∃ (e₀ e e' : Exchanges Unit Unit)
      (call : Call Unit Unit) (item : Pooled PoolClient OriginKey),
      Exchanges.new ⟨none,1,1⟩ .http1 true true false = some e₀ ∧
      runActions Exchanges.step e₀ handingOn = some e ∧ e.step (.send 1 fun _ => false) = some e' ∧
      e'.calls.get 1 = some call ∧ call.stage.handle? = some 1 ∧
      e'.client.world.pooled.get 1 = some item ∧ item.value = poolClient .http1 7 :=
    ⟨_,_,_,_,_,rfl,rfl,rfl,rfl,rfl,rfl,rfl⟩
  have huses : Uses e' 1 7 := ⟨call,1,item,hc,hp,hitem,hv⟩
  have hd : (handingOn.filterMap Event.connection?).Nodup := by decide
  exact ⟨e₀,e,e',h₀,.ofRun hrun,hs,huses,exchanges_do_not_overlap h₀ (.ofRun hrun) hd hs huses⟩

/-- One of the calls has made the attempt, for an origin with this key. -/
def MadeBy (calls : Table (Call B R)) (r : ℕ) (key : OriginKey) : Prop :=
  ∃ c call, calls.get c = some call ∧ r ∈ call.attempts ∧ key = call.origin.key

section MadeBy
variable {calls : Table (Call B R)} {r : ℕ} {key : OriginKey}

theorem MadeBy.modify (h : MadeBy calls r key) (c : ℕ) {f : Call B R → Call B R}
    (horigin : ∀ call, (f call).origin = call.origin) (hattempts : ∀ call, call.attempts ⊆ (f call).attempts) :
    MadeBy (calls.modify c f) r key := by
  obtain ⟨c',call,hc',hr,hkey⟩ := h
  by_cases hc : c' = c
  · subst hc
    refine ⟨c',f call,(Table.get_modify_self ..).trans (congrArg _ hc'),hattempts call hr,?_⟩
    rw [horigin]
    exact hkey
  · exact ⟨c',call,(Table.get_modify_ne _ _ hc).trans hc',hr,hkey⟩

theorem MadeBy.alloc (h : MadeBy calls r key) (call : Call B R) : MadeBy (calls.alloc call) r key := by
  obtain ⟨c',call',hc',hr,hkey⟩ := h
  exact ⟨c',call',Table.get_alloc_of_some _ hc',hr,hkey⟩

theorem made_step {client client' : State OriginKey} {a : Action OriginKey} (hs : client.step a = some client')
    (ha : ∀ key, a ≠ .request key)
    (h : ∀ r q, client.requests.get r = some q → MadeBy calls r q.key) :
    ∀ r q, client'.requests.get r = some q → MadeBy calls r q.key := by
  intro r q' hq'
  rcases (step_transition hs).request_before hq' with ⟨he,_⟩ | ⟨q,hq,hkey⟩
  · exact absurd he (ha _)
  · rw [hkey]
    exact h r q hq

end MadeBy

theorem Exchanged.made {e' : Exchanges B R} {event : Event B R} (hx : Exchanged e event e')
    (h : ∀ r q, e.client.requests.get r = some q → MadeBy e.calls r q.key) :
    ∀ r q, e'.client.requests.get r = some q → MadeBy e'.calls r q.key := by
  -- an update of a call that is no new attempt
  have hupdate : ∀ {client : State OriginKey} {c : ℕ} {f : Call B R → Call B R},
      (∀ r q, client.requests.get r = some q → MadeBy e.calls r q.key) →
      (∀ call, (f call).origin = call.origin) → (∀ call, (f call).attempts = call.attempts) →
      ∀ r q, client.requests.get r = some q → MadeBy (e.calls.modify c f) r q.key := by
    intro client c f hclient horigin hattempts r q hq
    exact (hclient r q hq).modify c horigin fun call => (hattempts call).symm ▸ List.Subset.refl _
  cases hx with
  | @request _ _ origin client _ hs =>
    intro r q hq
    rcases (step_transition hs).request_before hq with ⟨he,rfl⟩ | ⟨q₀,hq₀,hkey⟩
    · injection he with he
      exact ⟨_,_,Table.get_alloc_self _ _,List.mem_singleton.mpr rfl,he.symm⟩
    · rw [hkey]
      exact (h r q₀ hq₀).alloc _
  | connection hinternal hs =>
    refine made_step hs ?_ h
    rintro key rfl
    cases hinternal
  | refused | keep => exact hupdate h (fun _ => rfl) fun _ => rfl
  | handOver _ _ _ _ _ _ hs => exact hupdate (made_step hs nofun h) (fun _ => rfl) fun _ => rfl
  | leave _ _ _ hs | cancel _ _ hs => exact hupdate (made_step hs nofun h) (fun _ => rfl) fun _ => rfl
  | @again c _ _ call client _ hc _ _ hs hn =>
    intro r q hq
    rcases (step_transition hn).request_before hq with ⟨he,rfl⟩ | ⟨q₀,hq₀,hkey⟩
    · injection he with he
      refine ⟨c,_,(Table.get_modify_self ..).trans (congrArg _ hc),?_,he.symm⟩
      exact List.mem_append_right _ List.mem_cons_self
    · rw [hkey]
      exact (made_step hs nofun h r q₀ hq₀).modify c (fun _ => rfl) fun call => List.subset_append_left _ _
  | settled => exact h
  | readiness hs => exact made_step hs nofun h

theorem trace_made (h₀ : Exchanges.new config protocol setHost retry timer = some e₀)
    (h : Trace Exchanges.step e₀ events e) :
    ∀ r q, e.client.requests.get r = some q → MadeBy e.calls r q.key := by
  induction h with
  | nil =>
    intro r q hq
    rw [(new_spec (exchanges_new h₀).1).2.2.2] at hq
    cases hq
  | snoc _ hs ih => exact (step_exchanged hs).made ih

/-- A call hands its message only to a connection that was established for its origin: the
handshake is one of an attempt that a call has made whose origin is the same, without regard
to case. -/
theorem message_goes_to_origin (h₀ : Exchanges.new config protocol setHost retry timer = some e₀)
    (h : Trace Exchanges.step e₀ events e) (hd : (events.filterMap Event.connection?).Nodup)
    {c p : ℕ} {call : Call B R} (hc : e.calls.get c = some call) (hp : call.stage.handle? = some p) :
    ∃ item r selected n vanish c' call', e.client.world.pooled.get p = some item ∧
      item.value = poolClient selected n ∧ .connection (.handshaken r (some n) vanish) ∈ events ∧
      e.calls.get c' = some call' ∧ r ∈ call'.attempts ∧ call'.origin.same call.origin = true := by
  obtain ⟨hnew,_⟩ := exchanges_new h₀
  obtain ⟨actions,horderly,_,hhandshakes⟩ := trace_orderly h₀ h hd
  obtain ⟨_,hprov⟩ := trace_provenance hnew horderly.run
  obtain ⟨q,hq⟩ := horderly.attempt hc
  obtain ⟨item,hitem,hkey,_⟩ := hprov.held hq.request (p := p) (by rw [hq.handle hp]; rfl)
  obtain ⟨r,q',selected,n,vanish,hv,_,hm,hq',hk'⟩ := hprov.established (.checkedOut hitem rfl rfl)
  obtain ⟨c',call',hc',hr,hmade⟩ := trace_made h₀ h r q' hq'
  have hsame : call'.origin.key = call.origin.key := hmade.symm.trans (hk'.trans (hkey.trans hq.key))
  exact ⟨item,r,selected,n,vanish,c',call',hitem,hv,hhandshakes r n vanish hm,hc',hr,
    (Normalize.Origin.key_eq_iff _ _).mp hsame⟩

/-- The call for `http://A/` sends its message on the connection for `http://a/`. -/
theorem message_goes_to_origin_handingOn : ∃ (e₀ e : Exchanges Unit Unit) (call call' : Call Unit Unit)
    (r n c' : ℕ) (vanish : ℕ → Bool), Exchanges.new ⟨none,1,1⟩ .http1 true true false = some e₀ ∧
    Trace Exchanges.step e₀ (handingOn ++ [.send 1 fun _ => false]) e ∧ e.calls.get 1 = some call ∧
    .connection (.handshaken r (some n) vanish) ∈ handingOn ++ [.send 1 fun _ => false] ∧
    e.calls.get c' = some call' ∧ r ∈ call'.attempts ∧ call'.origin.same call.origin = true ∧
    call.origin ≠ sampleOrigin := by
  obtain ⟨e₀,e,call,h₀,hrun,hc,hp,horigin⟩ : ∃ (e₀ e : Exchanges Unit Unit) (call : Call Unit Unit),
      Exchanges.new ⟨none,1,1⟩ .http1 true true false = some e₀ ∧
      runActions Exchanges.step e₀ (handingOn ++ [.send 1 fun _ => false]) = some e ∧
      e.calls.get 1 = some call ∧ call.stage.handle? = some 1 ∧ call.origin = ⟨.http,Normalize.upperAuthority⟩ :=
    ⟨_,_,_,rfl,rfl,rfl,rfl,rfl⟩
  have hd : ((handingOn ++ [Event.send 1 fun _ => false]).filterMap Event.connection?).Nodup := by decide
  obtain ⟨_,r,_,n,vanish,c',call',_,_,hm,hc',hr,hsame⟩ := message_goes_to_origin h₀ (.ofRun hrun) hd hc hp
  refine ⟨e₀,e,call,call',r,n,c',vanish,h₀,.ofRun hrun,hc,hm,hc',hr,hsame,?_⟩
  rw [horigin]
  decide

end Run

/-- What a call has handed over is what `send_request` gives connections that return it,
and the rest follows from the request as it is now. -/
structure Recorded (setHost retry : Bool) (call : Call B R) : Prop where
  resumes : ∀ later, messages setHost call.absoluteUri call.accepted (call.sent.map Prod.fst ++ later) =
    call.sent.map (fun message => .ok message.2) ++
      messages setHost call.absoluteUri { call.request with uri := call.absoluteUri } later
  waiting : call.stage = .connecting → call.request.uri = call.absoluteUri
  once : retry = false → call.sent.length ≤ 1 ∧ (call.stage = .connecting → call.sent = [])
  origin : call.accepted.uri.scheme = some call.origin.scheme ∧
    call.accepted.uri.authority = some call.origin.authority

section Recorded
variable {setHost retry : Bool} {call : Call B R}

theorem Recorded.staged (h : Recorded setHost retry call) {stage : Stage} (hstage : stage ≠ .connecting)
    (result : Option (Except ErrorKind R)) :
    Recorded setHost retry { call with stage := stage, result := result } :=
  ⟨h.resumes,fun he => absurd he hstage,fun hr => ⟨(h.once hr).1,fun he => absurd he hstage⟩,h.origin⟩

theorem Recorded.handOver (h : Recorded setHost retry call) {p : ℕ} {protocol : ConnectionProtocol}
    {message : Normalize.Request B} (hstage : call.stage = .connecting)
    (hprepare : prepare setHost call.request protocol = .ok message) :
    Recorded setHost retry
      { call with stage := .sending p, request := message, sent := call.sent ++ [(protocol,message)] } := by
  refine ⟨fun later => ?_,nofun,fun hr => ⟨?_,nofun⟩,h.origin⟩
  · have hrequest : { call.request with uri := call.absoluteUri } = call.request := by
      rw [← h.waiting hstage]
    have hresumes := h.resumes (protocol :: later)
    rw [hrequest,messages,hprepare] at hresumes
    simpa using hresumes
  · simp [(h.once hr).2 hstage]

theorem Recorded.again (h : Recorded setHost true call) (attempt : ℕ) (attempts : List ℕ) :
    Recorded setHost true
      { call with
        stage := .connecting
        attempt := attempt
        request := { call.request with uri := call.absoluteUri }
        attempts := attempts } :=
  ⟨h.resumes,fun _ => rfl,nofun,h.origin⟩

theorem Exchanged.settings {e e' : Exchanges B R} {event : Event B R} (hx : Exchanged e event e') :
    e'.setHost = e.setHost ∧ e'.client.retryCanceledRequests = e.client.retryCanceledRequests := by
  have hretry : ∀ {action : Action OriginKey} {client client' : State OriginKey}, client.step action = some client' →
      client'.retryCanceledRequests = client.retryCanceledRequests :=
    fun hs => (step_transition hs).settings.2
  cases hx with
  | refused | keep | settled => exact ⟨rfl,rfl⟩
  | request _ hs | connection _ hs | handOver _ _ _ _ _ _ hs | leave _ _ _ hs | cancel _ _ hs
    | readiness hs => exact ⟨rfl,hretry hs⟩
  | again _ _ _ hs hn => exact ⟨rfl,(hretry hn).trans (hretry hs)⟩

theorem Exchanged.recorded {e e' : Exchanges B R} {event : Event B R} (hx : Exchanged e event e')
    (h : ∀ {c call}, e.calls.get c = some call → Recorded e.setHost e.client.retryCanceledRequests call)
    {c : ℕ} {call' : Call B R} (hc' : e'.calls.get c = some call') :
    Recorded e'.setHost e'.client.retryCanceledRequests call' := by
  rw [hx.settings.1,hx.settings.2]
  -- an update changes the acting call only
  have hupdate : ∀ {c₀ : ℕ} {call₀ : Call B R} {f : Call B R → Call B R}, e.calls.get c₀ = some call₀ →
      Recorded e.setHost e.client.retryCanceledRequests (f call₀) →
      (e.calls.modify c₀ f).get c = some call' →
      Recorded e.setHost e.client.retryCanceledRequests call' := by
    intro c₀ call₀ f hc₀ hf hc'
    rcases Table.get_modify_cases hc' with ⟨rfl,call₁,hc₁,rfl⟩ | ⟨_,hc'⟩
    · cases hc₀.symm.trans hc₁
      exact hf
    · exact h hc'
  cases hx with
  | request haccept =>
    rcases Table.get_alloc_cases hc' with ⟨_,rfl⟩ | hc'
    · exact ⟨fun _ => rfl,fun _ => rfl,fun _ => ⟨Nat.zero_le 1,fun _ => rfl⟩,accept_ok haccept⟩
    · exact h hc'
  | connection | settled | readiness => exact h hc'
  | refused hc | leave hc | keep hc | cancel hc =>
    refine hupdate hc ((h hc).staged ?_ _) hc'
    exact nofun
  | handOver hc hstage _ _ _ hprepare => exact hupdate hc ((h hc).handOver hstage hprepare) hc'
  | again hc _ hr =>
    refine hupdate hc ?_ hc'
    have hold := h hc
    rw [hr] at hold ⊢
    exact hold.again _ _

end Recorded

section History
variable {config : Config} {protocol : Protocol} {setHost retry timer : Bool}
variable {e₀ e : Exchanges B R} {events : List (Event B R)}

/-- Whatever else goes on, a call of `send_request` hands over the messages of its own
retry loop, for connections to its own origin, and a single one without retries. -/
theorem calls_send_messages (h₀ : Exchanges.new config protocol setHost retry timer = some e₀)
    (h : Trace Exchanges.step e₀ events e) {c : ℕ} {call : Call B R} (hc : e.calls.get c = some call) :
    messages setHost call.absoluteUri call.accepted (call.sent.map Prod.fst) =
        call.sent.map (fun message => .ok message.2) ∧
      call.accepted.uri.scheme = some call.origin.scheme ∧
      call.accepted.uri.authority = some call.origin.authority ∧ (retry = false → call.sent.length ≤ 1) := by
  obtain ⟨hnew,hhost,hcalls,_⟩ := exchanges_new h₀
  have hinv : e.setHost = setHost ∧ e.client.retryCanceledRequests = retry ∧
      ∀ {c call}, e.calls.get c = some call → Recorded e.setHost e.client.retryCanceledRequests call := by
    clear hc
    induction h with
    | nil =>
      refine ⟨hhost,(new_spec hnew).2.2.1,?_⟩
      intro c call hc
      rw [hcalls] at hc
      cases hc
    | snoc _ hs ih =>
      obtain ⟨hset,hretry,hrec⟩ := ih
      have hx := step_exchanged hs
      exact ⟨hx.settings.1.trans hset,hx.settings.2.trans hretry,hx.recorded hrec⟩
  obtain ⟨hset,hretry,hrec⟩ := hinv
  have hcall := hrec hc
  rw [hset,hretry] at hcall
  have hresumes := hcall.resumes []
  rw [List.append_nil,messages,List.append_nil] at hresumes
  exact ⟨hresumes,hcall.origin.1,hcall.origin.2,fun hr => (hcall.once hr).1⟩

theorem calls_send_messages_handingOn : ∃ (e₀ e : Exchanges Unit Unit) (call : Call Unit Unit),
    Exchanges.new ⟨none,1,1⟩ .http1 true true false = some e₀ ∧ Trace Exchanges.step e₀ handingOn e ∧
    e.calls.get 0 = some call ∧ call.sent.map Prod.fst = [.http1] ∧
    messages true call.absoluteUri call.accepted [.http1] = call.sent.map fun message => .ok message.2 := by
  obtain ⟨e₀,e,call,h₀,hrun,hc,hsent⟩ : ∃ (e₀ e : Exchanges Unit Unit) (call : Call Unit Unit),
      Exchanges.new ⟨none,1,1⟩ .http1 true true false = some e₀ ∧
      runActions Exchanges.step e₀ handingOn = some e ∧ e.calls.get 0 = some call ∧
      call.sent.map Prod.fst = [.http1] :=
    ⟨_,_,_,rfl,rfl,rfl,rfl⟩
  refine ⟨e₀,e,call,h₀,.ofRun hrun,hc,hsent,?_⟩
  rw [← hsent]
  exact (calls_send_messages h₀ (.ofRun hrun) hc).1

end History

end H12Tiny.Client
