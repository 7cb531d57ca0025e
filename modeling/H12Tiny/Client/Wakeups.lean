import H12Tiny.Client.Refinement
import H12Tiny.Pool.Capacity

/-! # Wakeups of parked requests

A request whose own establishment was refused is parked on its waiter. While one
is parked its key should have no capacity to establish, since whoever gives the
capacity back also hands a connection to the waiter or drops its sender. A
connection that is dropped closed gives its slot back without a look at the queue,
and `alpn_h2` does so between its two critical sections.
-/
namespace H12Tiny.Client
open Pool
variable {K : Type*} [DecidableEq K]

def Parked (s : State K) (key : K) : Prop :=
  ∃ r q c checkout i, s.requests.get r = some q ∧ q.phase = .waiting c ∧ q.key = key ∧
    s.world.checkouts.get c = some checkout ∧ checkout.waiter = some i ∧
    i ∈ s.world.inner.queue key ∧ s.world.chans.isCanceled i = false

/-- No connection that holds a slot is dropped closed while a request is parked for
a key without an H2 establishment. -/
def WakesOnClose (s : State K) : Action K → Prop
  | .release r _ => ∀ q p item, s.requests.get r = some q → q.phase = .done (.ok p) →
      s.world.pooled.get p = some item → s.world.isOpen item.value = false → item.h1Slot = true →
      Parked s item.key → s.world.inner.connecting item.key = true
  | _ => True

/-- Nor does `alpn_h2` give a slot back then. -/
def Wakes (s : State K) : Action K → Prop
  | .dialed r (.ok .http2) => ∀ q c g, s.protocol = .auto → s.requests.get r = some q →
      q.phase.establishing = some (c,.dialing g) → Parked s q.key →
      s.world.inner.connecting q.key = true
  | a => WakesOnClose s a

theorem Phase.resume_ne_waiting {phase : Phase} {c c' : ℕ} {k k' : Connect}
    (h : phase.establishing = some (c,k)) : phase.resume k' ≠ .waiting c' := by
  intro he
  have hest := (Phase.resume_spec k' h).1
  rw [he] at hest
  cases hest

section Step
variable {s s' : State K} {a : Action K}

theorem Sound.parked_before (h : Sound s) {b : Pool.Action PoolClient K} {w : World PoolClient K}
    (ht : Pool.Transition s.world b w) {r c i : ℕ} {q : Request K} {checkout : Checkout K}
    (hq : s.requests.get r = some q) (hphase : q.phase = .waiting c)
    (hb : b.checkout? = some c → b = .checkout c) (hget : w.checkouts.get c = some checkout)
    (hw : checkout.waiter = some i) (hm : i ∈ w.inner.queue q.key) : Parked s q.key := by
  have hcheck : q.phase.checkout? = some c := by rw [hphase]; rfl
  obtain ⟨checkout₀,i₀,x,hget₀,hw₀,hx,hr⟩ := (h.linked.owned hq).attached hcheck (by rw [hphase]; rfl)
  have hkept : w.checkouts.get c = some checkout₀ := by
    by_cases hc : b.checkout? = some c
    · have he := hb hc
      subst he
      exact ht.waiter_kept hget₀ hw₀
    · exact ht.checkout_frame hget₀ hc
  cases hkept.symm.trans hget
  cases hw₀.symm.trans hw
  obtain ⟨y,hy,hyk,hyx⟩ : ∃ y, s.world.chans.get i = some y ∧ y.key = checkout.key ∧ y = x := by
    obtain ⟨y,hy,hyk⟩ := h.channels.owned hget₀ hw₀
    exact ⟨y,hy,hyk,Option.some.inj (hy.symm.trans hx)⟩
  subst hyx
  obtain ⟨checkout₁,hget₁,hkey⟩ := (h.linked.owned hq).checkout hcheck
  cases hget₀.symm.trans hget₁
  have hheld : y.chan.sender = .held := by
    obtain ⟨x',hx',_,_,hused⟩ := ht.evolves h.channels hy
    obtain ⟨z,hz,_,hzs⟩ := (ht.queuesOk h.channels).queued hm
    cases hx'.symm.trans hz
    by_contra hne
    rw [hused hne] at hzs
    exact hne hzs
  have hqueue := h.channels.queues.held hy hheld
  rw [hyk,hkey] at hqueue
  refine ⟨r,q,c,checkout,i,hq,hphase,rfl,hget₀,hw₀,hqueue,?_⟩
  rw [Channels.isCanceled_of_some hy,hr]
  rfl

def WaitedBefore (s s' : State K) (r c : ℕ) (q : Request K) : Prop :=
  ∃ b, s.world.step b = some s'.world ∧ s.requests.get r = some q ∧
    (b.checkout? = some c → b = .checkout c)

theorem waitedBefore_update (h : Linked s) {r r₁ c₁ : ℕ} {q q₁ : Request K}
    {b : Pool.Action PoolClient K} {w : World PoolClient K} {phase : Phase} {R : Prop}
    (hq : s.requests.get r = some q) (hs : s.world.step b = some w)
    (hc : ∀ c, b.checkout? = some c → q.phase.checkout? = some c)
    (hq₁ : (s.update r w phase).requests.get r₁ = some q₁) (hphase₁ : q₁.phase = .waiting c₁)
    (hown : q₁ = { q with phase := phase } → phase = .waiting c₁ → r₁ = r →
      WaitedBefore s (s.update r w phase) r₁ c₁ q₁ ∨ R) :
    WaitedBefore s (s.update r w phase) r₁ c₁ q₁ ∨ R := by
  by_cases hne : r₁ = r
  · subst hne
    have he := Option.some.inj ((update_get_self hq).symm.trans hq₁)
    refine hown he.symm ?_ rfl
    rw [← he] at hphase₁
    exact hphase₁
  · rw [update_get_ne hne] at hq₁
    refine Or.inl ⟨b,hs,hq₁,?_⟩
    intro hb
    have hcheck : q₁.phase.checkout? = some c₁ := by rw [hphase₁]; rfl
    exact absurd (h.checkouts hq₁ hq hcheck (hc c₁ hb)) hne

theorem waitedBefore_fail {r r₁ c g c₁ : ℕ} {q q₁ : Request K} {error : Error} {R : Prop}
    (hq : s.requests.get r = some q) (hq₁ : (s.fail r c g error).requests.get r₁ = some q₁)
    (hphase₁ : q₁.phase = .waiting c₁) : WaitedBefore s (s.fail r c g error) r₁ c₁ q₁ ∨ R := by
  by_cases hne : r₁ = r
  · subst hne
    cases (fail_get_self hq).symm.trans hq₁
    cases hphase₁
  · rw [fail_get_ne hne] at hq₁
    exact Or.inl ⟨.clock s.world.now,rfl,hq₁,nofun⟩

theorem Transition.waiting_before (ht : Transition s a s') (h : Linked s) {r₁ c₁ : ℕ}
    {q₁ : Request K} (hq₁ : s'.requests.get r₁ = some q₁) (hphase₁ : q₁.phase = .waiting c₁) :
    WaitedBefore s s' r₁ c₁ q₁ ∨
      (s'.world.inner.maxH1ConnectionsPerHost ≤ s'.world.inner.h1Count q₁.key ∨
        s'.world.inner.connecting q₁.key = true) := by
  have henv : ∀ {b : Pool.Action PoolClient K} {w : World PoolClient K}, s.world.step b = some w →
      b.checkout? = none → s.requests.get r₁ = some q₁ →
      WaitedBefore s { s with world := w } r₁ c₁ q₁ := by
    intro b w hs hb hq
    refine ⟨b,hs,hq,?_⟩
    rw [hb]
    nofun
  cases ht with
  | @request key w hs hget =>
    by_cases hne : r₁ = s.requests.next
    · rw [hne,Table.get_alloc_self] at hq₁
      cases hq₁
      cases hphase₁
    · rw [Table.get_alloc,if_neg hne] at hq₁
      exact Or.inl ⟨_,hs,hq₁,nofun⟩
  | served hq hpolls hs | found hq hpolls hs =>
    exact waitedBefore_update h hq hs (fun _ => (Phase.polls_spec hpolls).1.trans) hq₁ hphase₁ nofun
  | @closed r c q k w hq hphase hk hs | @retried r c q w hq hphase hs
  | @unwanted r c i q k checkout x w hq hphase _ _ _ _ _ _ _ hs
  | @dropReceiver r c g next q w hq hphase hs | @dropCheckout r c g next q w hq hphase hs =>
    have hcheck : q.phase.checkout? = some c := by rw [hphase]; rfl
    exact waitedBefore_update h hq hs (fun _ => hcheck.trans) hq₁ hphase₁ nofun
  | idle hq =>
    refine waitedBefore_update (b := .clock s.world.now) h hq rfl nofun hq₁ hphase₁ ?_
    rintro rfl _ rfl
    exact Or.inl ⟨.clock s.world.now,rfl,hq,nofun⟩
  | @parked r c g q w hq hpolls hs hatt =>
    refine waitedBefore_update h hq hs (fun _ => (Phase.polls_spec hpolls).1.trans) hq₁ hphase₁ ?_
    rintro rfl he rfl
    cases hphase : q.phase with
    | fresh => rw [hphase] at he; cases he
    | waiting c' =>
      rw [hphase] at hpolls
      cases hpolls
      have hsame : q = ⟨q.key,.waiting c,q.failed⟩ := by rw [← hphase]
      refine Or.inl ⟨.checkout c,hs,?_,?_⟩
      · exact hq.trans (congrArg some hsame)
      · intro hb
        cases hb
        rfl
    | _ => rw [hphase] at he; cases he
  | granted hq hphase hs => exact waitedBefore_update h hq hs nofun hq₁ hphase₁ nofun
  | refused hq hphase hs hfull =>
    refine waitedBefore_update h hq hs nofun hq₁ hphase₁ ?_
    rintro rfl _ rfl
    exact Or.inr hfull
  | dialFailed hq | handshakeFailed hq => exact waitedBefore_fail hq hq₁ hphase₁
  | opened hq hest =>
    refine waitedBefore_update (b := .clock s.world.now) h hq rfl nofun hq₁ hphase₁ ?_
    exact fun _ he _ => absurd he (Phase.resume_ne_waiting hest)
  | converting hq hest _ hs | won hq hest hs =>
    refine waitedBefore_update h hq hs nofun hq₁ hphase₁ ?_
    exact fun _ he _ => absurd he (Phase.resume_ne_waiting hest)
  | @lost r c g q guard w hq hest hs hget hmark hinner =>
    obtain ⟨guard',hget',hkey,_⟩ := (h.owned hq).guard (Phase.establishing_spec hest).2
    cases hget.symm.trans hget'
    refine waitedBefore_update h hq hs nofun hq₁ hphase₁ ?_
    rintro rfl _ rfl
    refine Or.inr (Or.inr ?_)
    change w.inner.connecting q.key = true
    rw [hinner,← hkey]
    exact hmark
  | pooled hq hest hs => exact waitedBefore_update h hq hs nofun hq₁ hphase₁ nofun
  | dropGuard hq hphase hs => exact waitedBefore_update h hq hs nofun hq₁ hphase₁ nofun
  | cancel hq | finished hq | cancelled hq | gaveUp hq =>
    exact waitedBefore_update (b := .clock s.world.now) h hq rfl nofun hq₁ hphase₁ nofun
  | again hq _ hs | release hq _ hs => exact waitedBefore_update h hq hs nofun hq₁ hphase₁ nofun
  | clearExpired hs | readiness hs | clock hs => exact Or.inl (henv hs rfl hq₁)

theorem Transition.parked_before (ht : Transition s a s') (h : Sound s)
    (hcap : ∀ k, s'.world.inner.h1Count k ≤ s'.world.inner.maxH1ConnectionsPerHost) {key : K}
    (hp : Parked s' key) : Parked s key ∨ Exhausted s'.world key := by
  obtain ⟨r,q,c,checkout,i,hq,hphase,rfl,hget,hw,hm,_⟩ := hp
  rcases ht.waiting_before h.linked hq hphase with ⟨b,hs,hq₀,hb⟩ | hfull | hmark
  · exact Or.inl (h.parked_before (Pool.step_transition hs) hq₀ hphase hb hget hw hm)
  · exact Or.inr (Or.inl (Nat.le_antisymm (hcap q.key) hfull))
  · exact Or.inr (Or.inr hmark)

/-- What one step does to the capacity of a key with a parked request. -/
theorem Transition.keeps_exhausted (ht : Transition s a s') (h : Sound s) (hitems : ItemsOk s.world)
    (hclose : WakesOnClose s a) {key : K} (hp : Parked s key) (hq : s'.world.inner.queue key ≠ [])
    (he : Exhausted s.world key) :
    Exhausted s'.world key ∨
      ∃ r q c g, a = .dialed r (.ok .http2) ∧ s.protocol = .auto ∧ s.requests.get r = some q ∧
        q.phase.establishing = some (c,.dialing g) ∧ q.key = key ∧
        s.world.step (.alpnRelease g) = some s'.world ∧
        s'.world.inner.connecting = s.world.inner.connecting := by
  obtain ⟨b,hb,hs⟩ := ht.performs h.linked
  have htw := Pool.step_transition hs
  rcases htw.frees hitems he with hex | hempty | ⟨⟨p,vanish,item,rfl,hi,ho,hslot,hk⟩ | ⟨g,guard,rfl,hg,hk⟩,hsame⟩
  · exact Or.inl hex
  · exact absurd hempty hq
  · obtain ⟨r,q,v,rfl,hget,hphase⟩ := hb.returns p vanish rfl
    have hconn := hclose q p item hget hphase hi ho hslot (hk ▸ hp)
    refine Or.inl (Or.inr ?_)
    rw [hsame,← hk]
    exact hconn
  · obtain ⟨r,q,c,rfl,hauto,hget,hest⟩ := hb.converts g rfl
    obtain ⟨guard',hget',hkey,_⟩ := (h.linked.owned hget).guard (Phase.establishing_spec hest).2
    cases hg.symm.trans hget'
    exact Or.inr ⟨r,q,c,g,rfl,hauto,hget,hest,hkey.symm.trans hk,hs,hsame⟩

theorem Transition.awake (ht : Transition s a s') (h : Sound s) (hitems : ItemsOk s.world)
    (hcap : ∀ k, s'.world.inner.h1Count k ≤ s'.world.inner.maxH1ConnectionsPerHost)
    (hw : Wakes s a) (hi : ∀ key, Parked s key → Exhausted s.world key) (key : K)
    (hp : Parked s' key) : Exhausted s'.world key := by
  have hclose : WakesOnClose s a := by
    unfold Wakes at hw
    split at hw
    · trivial
    · exact hw
  have hq : s'.world.inner.queue key ≠ [] := by
    obtain ⟨_,_,_,_,i,_,_,_,_,_,hm,_⟩ := hp
    exact List.ne_nil_of_mem hm
  rcases ht.parked_before h hcap hp with hp₀ | hex
  · rcases ht.keeps_exhausted h hitems hclose hp₀ hq (hi key hp₀) with
      hex | ⟨r,q,c,g,rfl,hauto,hget,hest,rfl,_,hsame⟩
    · exact hex
    · refine Or.inr ?_
      rw [hsame]
      exact hw q c g hauto hget hest hp₀
  · exact hex

/-- Under the first condition alone, capacity is exhausted or a conversion to H2 is
between its critical sections. -/
theorem Transition.awake_or_converting (ht : Transition s a s') (h : Sound s)
    (hitems : ItemsOk s.world)
    (hcap : ∀ k, s'.world.inner.h1Count k ≤ s'.world.inner.maxH1ConnectionsPerHost)
    (hw : WakesOnClose s a)
    (hi : ∀ key, Parked s key → Exhausted s.world key ∨ Converting s.world key) (key : K)
    (hp : Parked s' key) : Exhausted s'.world key ∨ Converting s'.world key := by
  have hq : s'.world.inner.queue key ≠ [] := by
    obtain ⟨_,_,_,_,i,_,_,_,_,_,hm,_⟩ := hp
    exact List.ne_nil_of_mem hm
  rcases ht.parked_before h hcap hp with hp₀ | hex
  · rcases hi key hp₀ with hex | hconv
    · rcases ht.keeps_exhausted h hitems hw hp₀ hq hex with
        hex | ⟨r,q,c,g,rfl,_,hget,hest,rfl,hs,_⟩
      · exact Or.inl hex
      · obtain ⟨guard,hget',hkey,_⟩ := (h.linked.owned hget).guard (Phase.establishing_spec hest).2
        have hpool : s'.world.guards.get g = some ⟨guard.key,false,false⟩ := by
          generalize s'.world = w' at hs ⊢
          cases Pool.step_transition hs
          rw [Table.get_modify_self]
          exact congrArg _ hget'
        exact Or.inr ⟨g,_,hpool,hkey,rfl⟩
    · obtain ⟨b,_,hs⟩ := ht.performs h.linked
      rcases (Pool.step_transition hs).converts hconv with hconv | hmark
      · exact Or.inr hconv
      · exact Or.inl (Or.inr hmark)
  · exact Or.inl hex

end Step

section Run
variable {s₀ s : State K} {config : Config} {protocol : Protocol} {retry timer : Bool}

theorem reaches_parked {allowed : State K → Action K → Prop} {P : State K → K → Prop}
    (h₀ : State.new config protocol retry timer = some s₀)
    (hstep : ∀ {t u : State K} {a : Action K}, Transition t a u → Sound t → ItemsOk t.world →
      (∀ k, u.world.inner.h1Count k ≤ u.world.inner.maxH1ConnectionsPerHost) → allowed t a →
      (∀ key, Parked t key → P t key) → ∀ key, Parked u key → P u key)
    (h : Reaches State.step allowed s₀ s) (key : K) (hp : Parked s key) : P s key := by
  obtain ⟨hworld,_,_,hempty⟩ := new_spec h₀
  have hinv : Reaches State.step allowed s₀ s ∧ ∀ key, Parked s key → P s key := by
    refine Reaches.invariant (I := fun t : State K =>
      Reaches State.step allowed s₀ t ∧ ∀ key, Parked t key → P t key) ?_ ⟨.refl,?_⟩ h
    · intro t u a hi ha hs
      have hrun := hi.1.step ha hs
      have hcap := reaches_count_le hworld (reaches_world h₀ hrun)
      have hitems := reaches_itemsOk hworld (reaches_world h₀ hi.1)
      exact ⟨hrun,hstep (step_transition hs) (reaches_sound h₀ hi.1) hitems hcap ha hi.2⟩
    · rintro key ⟨r,q,_,_,_,hq,_⟩
      rw [hempty] at hq
      cases hq
  exact hinv.2 key hp

/-- No request is parked while its key has capacity to establish, in every run that
drops no slot-holding connection closed and takes no slot through `alpn_h2` while a
request is parked for a key without an H2 establishment. If only the former holds, a
guard may be between the two critical sections of `alpn_h2`. -/
theorem parked_without_capacity (h₀ : State.new config protocol retry timer = some s₀) :
    (∀ s, Reaches State.step Wakes s₀ s → ∀ key, Parked s key →
      s.world.inner.h1Count key = s.world.inner.maxH1ConnectionsPerHost ∨
        s.world.inner.connecting key = true) ∧
    (∀ s, Reaches State.step WakesOnClose s₀ s → ∀ key, Parked s key →
      (s.world.inner.h1Count key = s.world.inner.maxH1ConnectionsPerHost ∨
        s.world.inner.connecting key = true) ∨
      ∃ g guard, s.world.guards.get g = some guard ∧ guard.key = key ∧ guard.pool = false) := by
  constructor
  · intro s h key hp
    refine reaches_parked (P := fun t key => Exhausted t.world key) h₀ ?_ h key hp
    intro t u a ht hsound hitems hcap ha hi
    exact ht.awake hsound hitems hcap ha hi
  · intro s h key hp
    refine reaches_parked (P := fun t key => Exhausted t.world key ∨ Converting t.world key) h₀ ?_
      h key hp
    intro t u a ht hsound hitems hcap ha hi
    exact ht.awake_or_converting hsound hitems hcap ha hi

/-- One connection is allowed and in use, and a second request is parked. -/
def capped : List (Action ℕ) :=
  [.request 0,.pollCheckout 0,.connect 0,.dialed 0 (.ok .http1),.handshaken 0 (some 7) (fun _ => false),
    .dropReceiver 0,.dropCheckout 0,.finish 0,.request 0,.pollCheckout 1,.connect 1]

theorem parked_without_capacity_capped : ∃ s₀ s : State ℕ,
    State.new ⟨none,1,1⟩ .http1 true false = some s₀ ∧ Reaches State.step Wakes s₀ s ∧ Parked s 0 ∧
      (s.world.inner.h1Count 0 = s.world.inner.maxH1ConnectionsPerHost ∨
        s.world.inner.connecting 0 = true) := by
  obtain ⟨s₀,s,q,checkout,h₀,hrun,hparked⟩ : ∃ (s₀ s : State ℕ) (q : Request ℕ) (checkout : Checkout ℕ),
      State.new ⟨none,1,1⟩ .http1 true false = some s₀ ∧ runActions State.step s₀ capped = some s ∧
      s.requests.get 1 = some q ∧ q.phase = .waiting 1 ∧ q.key = 0 ∧
      s.world.checkouts.get 1 = some checkout ∧ checkout.waiter = some 1 ∧
      s.world.inner.queue 0 = [1] ∧ s.world.chans.isCanceled 1 = false :=
    ⟨_,_,_,_,rfl,rfl,rfl,rfl,rfl,rfl,rfl,rfl,rfl⟩
  obtain ⟨hq,hphase,hkey,hc,hw,hqueue,hlive⟩ := hparked
  have hr : Reaches State.step Wakes s₀ s := by
    refine .ofRun (allowedAlong_of_forall ?_) hrun
    simp [capped,Wakes,WakesOnClose]
  have hp : Parked s 0 :=
    ⟨1,q,1,checkout,1,hq,hphase,hkey,hc,hw,hqueue ▸ List.mem_singleton_self 1,hlive⟩
  exact ⟨s₀,s,h₀,hr,hp,(parked_without_capacity h₀).1 s hr 0 hp⟩

/-- The connection closes and is dropped: its slot is free, nobody establishes, and
the second request stays parked. -/
theorem wakeup_lost : ∃ s₀ s : State ℕ, State.new ⟨none,1,1⟩ .http1 true false = some s₀ ∧
    Reaches State.step (fun _ _ => True) s₀ s ∧ Parked s 0 ∧ s.world.inner.h1Count 0 = 0 ∧
      s.world.inner.maxH1ConnectionsPerHost = 1 ∧ s.world.inner.connecting 0 = false := by
  obtain ⟨s₀,s,q,checkout,h₀,hrun,hparked,hfree⟩ :
      ∃ (s₀ s : State ℕ) (q : Request ℕ) (checkout : Checkout ℕ),
      State.new ⟨none,1,1⟩ .http1 true false = some s₀ ∧
      runActions State.step s₀ (capped ++ [.readiness (fun _ => false),.release 0 (fun _ => false)]) =
        some s ∧
      (s.requests.get 1 = some q ∧ q.phase = .waiting 1 ∧ q.key = 0 ∧
        s.world.checkouts.get 1 = some checkout ∧ checkout.waiter = some 1 ∧
        s.world.inner.queue 0 = [1] ∧ s.world.chans.isCanceled 1 = false) ∧
      s.world.inner.h1Count 0 = 0 ∧ s.world.inner.maxH1ConnectionsPerHost = 1 ∧
      s.world.inner.connecting 0 = false :=
    ⟨_,_,_,_,rfl,rfl,⟨rfl,rfl,rfl,rfl,rfl,rfl,rfl⟩,rfl,rfl,rfl⟩
  obtain ⟨hq,hphase,hkey,hc,hw,hqueue,hlive⟩ := hparked
  have hp : Parked s 0 :=
    ⟨1,q,1,checkout,1,hq,hphase,hkey,hc,hw,hqueue ▸ List.mem_singleton_self 1,hlive⟩
  exact ⟨s₀,s,h₀,.ofRun (allowedAlong_of_forall fun _ _ _ => trivial) hrun,hp,hfree⟩

end Run
end H12Tiny.Client
