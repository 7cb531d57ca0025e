import H12Tiny.Client.Refinement

/-! # Requests and each other's establishments

A request should end with an error only when its own establishment failed. It
does not: dropping any guard clears the whole queue of the key, and the select of
a request that is still establishing takes its dropped sender for a final error.
Along runs in which that does not happen, and in which no request that gave up
its checkout loses its conversion to H2, every error is the request's own.
-/
namespace H12Tiny.Client
open Pool
variable {K : Type*} [DecidableEq K]

def Phase.error? : Phase → Option Error
  | .leaving _ _ (.result (.error error)) => some error
  | .done (.error error) => some error
  | _ => none

theorem Phase.error?_leaving (c c' g g' : Option ℕ) (next : Next) :
    (Phase.leaving c g next).error? = (Phase.leaving c' g' next).error? := by
  cases next with
  | result result => cases result <;> rfl
  | _ => rfl

def Kept (w : World PoolClient K) (c : ℕ) : Prop :=
  ∀ checkout i x, w.checkouts.get c = some checkout → checkout.waiter = some i →
    w.chans.get i = some x → x.chan.sender ≠ .dropped

/-- Errors are the request's own, and its race is not spoiled. -/
structure Fine (w : World PoolClient K) (q : Request K) : Prop where
  explained : ∀ error, q.phase.error? = some error → q.failed = some error
  kept : ∀ c connect, q.phase = .racing c connect → Kept w c

/-- No guard is dropped while the waiter of a request that holds another guard is
queued for the key; no guard is granted to a request whose waiter is already
dropped; and no request past its checkout finds the H2 marker taken. -/
def Undisturbed (s : State K) : Action K → Prop
  | .dropGuard r => ∀ q c g next, s.requests.get r = some q → q.phase = .leaving c (some g) next →
      ∀ r' q' c' connect checkout i, s.requests.get r' = some q' → q'.phase = .racing c' connect →
        s.world.checkouts.get c' = some checkout → checkout.waiter = some i →
        i ∉ s.world.inner.queue q.key
  | .connect r => ∀ q c checkout i x, s.requests.get r = some q → q.phase = .registered c →
      s.world.checkouts.get c = some checkout → checkout.waiter = some i →
      s.world.chans.get i = some x → x.chan.sender = .dropped →
      s.world.inner.maxH1ConnectionsPerHost ≤ s.world.inner.h1Count q.key
  | .alpnMark r => ∀ q c connect, s.requests.get r = some q → q.phase = .connecting c connect →
      s.world.inner.connecting q.key = false
  | _ => True

section Frame
variable {s s' : State K} {b : Pool.Action PoolClient K}

/-- What a request's action must not do to the race of a request over checkout `c`. -/
structure Spares (s : State K) (b : Pool.Action PoolClient K) (c : ℕ) : Prop where
  poll : b.checkout? = some c → b = .checkout c
  vanish : ∀ i, b.vanishes i = true → s.isLeaving i = true
  guard : ∀ g guard checkout i, b = .dropConnecting g → s.world.guards.get g = some guard →
    s.world.checkouts.get c = some checkout → checkout.waiter = some i →
    i ∉ s.world.inner.queue guard.key

omit [DecidableEq K] in
theorem Spares.idle {c : ℕ} (hc : b.checkout? = none) (hv : ∀ i, b.vanishes i = false)
    (hg : ∀ g, b ≠ .dropConnecting g) : Spares s b c := by
  refine ⟨?_,?_,fun g _ _ _ hb => absurd hb (hg g)⟩
  · intro ha
    rw [hc] at ha
    cases ha
  · intro i hi
    rw [hv i] at hi
    cases hi

theorem Spares.kept {w : World PoolClient K} {r c : ℕ} {q : Request K} (hsp : Spares s b c)
    (h : Sound s) (ht : Pool.Transition s.world b w) (hq : s.requests.get r = some q)
    (hcheck : q.phase.checkout? = some c) (hatt : q.phase.attached = true) (hk : Kept s.world c) :
    Kept w c := by
  obtain ⟨checkout,i,x,hget,hw,hx,hr⟩ := (h.linked.owned hq).attached hcheck hatt
  have hv : b.vanishes i = false := by
    cases hvi : b.vanishes i with
    | false => rfl
    | true =>
      have hl := h.linked.not_leaving h.channels hq hcheck hatt hget hw
      rw [hsp.vanish i hvi] at hl
      cases hl
  have hget' : w.checkouts.get c = some checkout := by
    by_cases hb : b.checkout? = some c
    · have he := hsp.poll hb
      subst he
      exact ht.waiter_kept hget hw
    · exact ht.checkout_frame hget hb
  obtain ⟨x',hx',_,hsender⟩ := ht.channel_frame h.drained hx hr hv
  intro checkout' j y hgety hwy hy hdropped
  cases hget'.symm.trans hgety
  cases hw.symm.trans hwy
  cases hx'.symm.trans hy
  obtain ⟨g,guard,hb,hg,hm⟩ := hsender (hk checkout i x hget hw hx) hdropped
  exact hsp.guard g guard checkout i hb hg hget hw hm

/-- The rule for one request's step: the others are spared, and the phase the
request moves to is fine. -/
theorem Fine.step (h : Sound s) (hf : ∀ r q, s.requests.get r = some q → Fine s.world q) {r : ℕ}
    (ht : Pool.Transition s.world b s'.world)
    (hsame : ∀ r', r' ≠ r → s'.requests.get r' = s.requests.get r')
    (hsp : ∀ r' q c connect, r' ≠ r → s.requests.get r' = some q → q.phase = .racing c connect →
      Spares s b c)
    (hown : ∀ q, s'.requests.get r = some q → Fine s'.world q) :
    ∀ r q, s'.requests.get r = some q → Fine s'.world q := by
  intro r₁ q₁ hq₁
  by_cases hne : r₁ = r
  · subst hne
    exact hown q₁ hq₁
  · rw [hsame r₁ hne] at hq₁
    have hfine := hf r₁ q₁ hq₁
    refine ⟨hfine.explained,?_⟩
    intro c connect hphase
    refine (hsp r₁ q₁ c connect hne hq₁ hphase).kept h ht hq₁ ?_ ?_ (hfine.kept c connect hphase)
    · rw [hphase]
      rfl
    · rw [hphase]
      rfl

omit [DecidableEq K] in
/-- Acting on its own handles, a request spares the races of the others. -/
theorem Linked.spares (h : Linked s) {r : ℕ} {q : Request K} (hq : s.requests.get r = some q)
    (hc : ∀ c, b.checkout? = some c → q.phase.checkout? = some c)
    (hv : ∀ i, b.vanishes i = true → s.isLeaving i = true) (hg : ∀ g, b ≠ .dropConnecting g)
    {r' c : ℕ} {q' : Request K} {connect : Connect} (hne : r' ≠ r) (hq' : s.requests.get r' = some q')
    (hphase : q'.phase = .racing c connect) : Spares s b c := by
  refine ⟨?_,hv,fun g _ _ _ hb => absurd hb (hg g)⟩
  intro hb
  have hown : q'.phase.checkout? = some c := by rw [hphase]; rfl
  exact absurd (h.checkouts hq' hq hown (hc c hb)) hne

theorem Fine.update (h : Sound s) (hf : ∀ r q, s.requests.get r = some q → Fine s.world q) {r : ℕ}
    {q : Request K} {w : World PoolClient K} {phase : Phase} (hq : s.requests.get r = some q)
    (ht : Pool.Transition s.world b w)
    (hc : ∀ c, b.checkout? = some c → q.phase.checkout? = some c)
    (hv : ∀ i, b.vanishes i = true → s.isLeaving i = true) (hg : ∀ g, b ≠ .dropConnecting g)
    (herr : ∀ error, phase.error? = some error → q.failed = some error)
    (hrace : ∀ c connect, phase = .racing c connect → Kept w c) :
    ∀ r' q', (s.update r w phase).requests.get r' = some q' → Fine (s.update r w phase).world q' := by
  refine Fine.step h hf ht (fun r' hne => update_get_ne hne) ?_ ?_
  · intro r' q' c connect hne hq' hphase
    exact h.linked.spares hq hc hv hg hne hq' hphase
  · intro q' hq'
    cases (update_get_self hq).symm.trans hq'
    exact ⟨herr,hrace⟩

theorem Fine.fail (h : Sound s) (hf : ∀ r q, s.requests.get r = some q → Fine s.world q) {r c g : ℕ}
    {q : Request K} {error : Error} (hq : s.requests.get r = some q) :
    ∀ r' q', (s.fail r c g error).requests.get r' = some q' → Fine (s.fail r c g error).world q' := by
  refine Fine.step h hf (still s.world) (fun r' hne => fail_get_ne hne) ?_ ?_
  · intro r' q' c' connect hne hq' hphase
    exact Spares.idle rfl (fun _ => rfl) nofun
  · intro q' hq'
    cases (fail_get_self hq).symm.trans hq'
    exact ⟨fun _ he => he,nofun⟩

theorem Fine.resume (h : Sound s) (hf : ∀ r q, s.requests.get r = some q → Fine s.world q) {r c : ℕ}
    {q : Request K} {k k' : Connect} {w : World PoolClient K} (hq : s.requests.get r = some q)
    (ht : Pool.Transition s.world b w) (hest : q.phase.establishing = some (c,k))
    (hc : b.checkout? = none) (hv : ∀ i, b.vanishes i = false) (hg : ∀ g, b ≠ .dropConnecting g) :
    ∀ r' q', (s.update r w (q.phase.resume k')).requests.get r' = some q' →
      Fine (s.update r w (q.phase.resume k')).world q' := by
  have hsp : ∀ c', Spares s b c' := fun c' => Spares.idle hc hv hg
  refine Fine.update h hf hq ht ?_ (hsp c).vanish hg ?_ ?_
  · intro c' ha
    rw [hc] at ha
    cases ha
  · intro error he
    rcases Phase.establishing_cases hest with hphase | hphase
    · rw [hphase] at he
      cases he
    · rw [hphase] at he
      cases he
  · intro c' connect he
    rcases Phase.establishing_cases hest with hphase | hphase
    · rw [hphase] at he
      cases he
      refine (hsp c).kept h ht hq (by rw [hphase]; rfl) (by rw [hphase]; rfl) ?_
      exact (hf r q hq).kept c k hphase
    · rw [hphase] at he
      cases he

theorem Fine.environment (h : Sound s) (hf : ∀ r q, s.requests.get r = some q → Fine s.world q)
    {w : World PoolClient K} (ht : Pool.Transition s.world b w) (hc : b.checkout? = none)
    (hv : ∀ i, b.vanishes i = false) (hg : ∀ g, b ≠ .dropConnecting g) :
    ∀ r q, s.requests.get r = some q → Fine w q := by
  intro r q hq
  refine ⟨(hf r q hq).explained,?_⟩
  intro c connect hphase
  have hsp : Spares s b c := Spares.idle hc hv hg
  exact hsp.kept h ht hq (by rw [hphase]; rfl) (by rw [hphase]; rfl) ((hf r q hq).kept c connect hphase)

end Frame

section Step
variable {s s' : State K} {a : Action K}

omit [DecidableEq K] in
theorem unwanted_absurd (h : Sound s) {c i : ℕ} {checkout : Checkout K} {x : Waiter PoolClient K}
    (hk : Kept s.world c) (hget : s.world.checkouts.get c = some checkout)
    (hw : checkout.waiter = some i) (hx : s.world.chans.get i = some x)
    (hr : x.chan.receiver = true) (hslot : x.chan.slot = none) (hheld : x.chan.sender ≠ .held) :
    False := by
  cases hs : x.chan.sender with
  | held => exact hheld hs
  | dropped => exact hk checkout i x hget hw hx hs
  | sent =>
    have hsome := h.sent hx hr hs
    rw [hslot] at hsome
    cases hsome

omit [DecidableEq K] in
theorem Fine.explains {w : World PoolClient K} {q : Request K} (h : Fine w q) {phase : Phase}
    (hsame : q.phase.error? = phase.error?) : ∀ error, phase.error? = some error → q.failed = some error := by
  intro error he
  exact h.explained error (hsame.trans he)

omit [DecidableEq K] in
theorem unfailed {phase : Phase} {failed : Option Error} (h : phase.error? = none) :
    ∀ error, phase.error? = some error → failed = some error := by
  intro error he
  rw [h] at he
  cases he

theorem Transition.fine (ht : Transition s a s') (h : Sound s) (hu : Undisturbed s a)
    (hp : s.protocol ≠ .http2) (hretry : s.retryCanceledRequests = true)
    (hf : ∀ r q, s.requests.get r = some q → Fine s.world q) :
    ∀ r q, s'.requests.get r = some q → Fine s'.world q := by
  cases ht with
  | @request key w hs hget =>
    refine Fine.step h hf (Pool.step_transition hs) (r := s.requests.next) ?_ ?_ ?_
    · intro r' hne
      rw [Table.get_alloc,if_neg hne]
    · intro r' q c connect _ hq hphase
      exact Spares.idle rfl (fun _ => rfl) nofun
    · intro q hq
      cases (Table.get_alloc_self _ _).symm.trans hq
      exact ⟨unfailed rfl,nofun⟩
  | served hq hpolls hs | found hq hpolls hs =>
    exact Fine.update h hf hq (Pool.step_transition hs) (fun _ => (Phase.polls_spec hpolls).1.trans) nofun nofun
      (unfailed rfl) nofun
  | unwanted hq hphase hk hget hw hx hr hslot hheld hs =>
    exact (unwanted_absurd h ((hf _ _ hq).kept _ _ hphase) hget hw hx hr hslot hheld).elim
  | @closed r c q k w hq hphase hk hs | @retried r c q w hq hphase hs =>
    have hcheck : q.phase.checkout? = some c := by rw [hphase]; rfl
    exact Fine.update h hf hq (Pool.step_transition hs) (fun _ => hcheck.trans) nofun nofun (unfailed rfl) nofun
  | idle hq =>
    exact Fine.update h hf hq (still s.world) nofun nofun nofun (hf _ _ hq).explained (hf _ _ hq).kept
  | @parked r c g q w hq hpolls hs hatt =>
    have ht := Pool.step_transition hs
    refine Fine.update h hf hq ht (fun _ => (Phase.polls_spec hpolls).1.trans) nofun nofun ?_ ?_
    · refine (hf r q hq).explains ?_
      cases q.phase <;> rfl
    · intro c' connect he
      cases hphase : q.phase with
      | racing c'' k =>
        rw [hphase] at he
        cases he
        have hcheck : q.phase.checkout? = some c' := by rw [hphase]; rfl
        have hc' : c' = c := Option.some.inj (hcheck.symm.trans (Phase.polls_spec hpolls).1)
        subst hc'
        have hsp : Spares s (.checkout c') c' := ⟨fun _ => rfl,nofun,nofun⟩
        exact hsp.kept h ht hq hcheck (by rw [hphase]; rfl) ((hf r q hq).kept _ _ hphase)
      | _ =>
        rw [hphase] at he
        cases he
  | @granted r c q w hq hphase hs hget hroom =>
    have ht := Pool.step_transition hs
    refine Fine.update h hf hq ht nofun nofun nofun (unfailed rfl) ?_
    intro c' connect he
    cases he
    have hsp : Spares s (.connecting q.key s.protocol) c := Spares.idle rfl (fun _ => rfl) nofun
    refine hsp.kept h ht hq (by rw [hphase]; rfl) (by rw [hphase]; rfl) ?_
    intro checkout i x hc hw hx hdropped
    have hfull := hu q c checkout i x hq hphase hc hw hx hdropped
    exact absurd (hroom hp) (Nat.not_lt.mpr hfull)
  | refused hq hphase hs =>
    exact Fine.update h hf hq (Pool.step_transition hs) nofun nofun nofun (unfailed rfl) nofun
  | dialFailed hq | handshakeFailed hq => exact Fine.fail h hf hq
  | opened hq hest => exact Fine.resume h hf hq (still s.world) hest rfl (fun _ => rfl) nofun
  | converting hq hest _ hs | won hq hest hs =>
    exact Fine.resume h hf hq (Pool.step_transition hs) hest rfl (fun _ => rfl) nofun
  | @lost r c g q guard w hq hest hs hget hmark _ =>
    obtain ⟨guard',hget',hkey,_⟩ := (h.linked.owned hq).guard (Phase.establishing_spec hest).2
    cases hget.symm.trans hget'
    refine Fine.update h hf hq (Pool.step_transition hs) nofun nofun nofun ?_ ?_
    · intro error he
      rcases Phase.establishing_cases hest with hphase | hphase
      · rw [hphase] at he
        cases he
      · have hfree := hu q c _ hq hphase
        rw [← hkey,hmark] at hfree
        cases hfree
    · intro c' connect he
      rcases Phase.establishing_cases hest with hphase | hphase
      · rw [hphase] at he
        cases he
      · rw [hphase] at he
        cases he
  | pooled hq hest hs =>
    refine Fine.update h hf hq (Pool.step_transition hs) nofun ?_ nofun (unfailed rfl) nofun
    intro i hv
    exact (Bool.and_eq_true_iff.mp hv).2
  | cancel hq => exact Fine.update h hf hq (still s.world) nofun nofun nofun (unfailed rfl) nofun
  | @dropReceiver r c g next q w hq hphase hs | @dropCheckout r c g next q w hq hphase hs =>
    have hcheck : q.phase.checkout? = some c := by rw [hphase]; rfl
    refine Fine.update h hf hq (Pool.step_transition hs) (fun _ => hcheck.trans) nofun nofun ?_ nofun
    exact (hf r q hq).explains ((congrArg Phase.error? hphase).trans (Phase.error?_leaving _ _ _ _ next))
  | @dropGuard r g c next q w hq hphase hs =>
    obtain ⟨guard,hget,hkey,_⟩ := (h.linked.owned hq).guard (g := g) (by rw [hphase]; rfl)
    refine Fine.step h hf (Pool.step_transition hs) (fun r' hne => update_get_ne hne) ?_ ?_
    · intro r' q' c' connect hne hq' hphase'
      refine ⟨nofun,nofun,?_⟩
      intro g' guard' checkout i hb hget' hc hw
      cases hb
      cases hget.symm.trans hget'
      rw [hkey]
      exact hu q c g next hq hphase r' q' c' connect checkout i hq' hphase' hc hw
    · intro q' hq'
      cases (update_get_self hq).symm.trans hq'
      exact ⟨(hf r q hq).explains ((congrArg Phase.error? hphase).trans (Phase.error?_leaving _ _ _ _ next)),nofun⟩
  | @finished r result q hq hphase =>
    refine Fine.update h hf hq (still s.world) nofun nofun nofun ?_ nofun
    refine (hf r q hq).explains ?_
    rw [hphase]
    cases result with
    | error e => rfl
    | ok p => rfl
  | cancelled hq => exact Fine.update h hf hq (still s.world) nofun nofun nofun (unfailed rfl) nofun
  | again hq hphase hs =>
    exact Fine.update h hf hq (Pool.step_transition hs) nofun nofun nofun (unfailed rfl) nofun
  | gaveUp hq hphase hno =>
    rw [hretry] at hno
    cases hno
  | release hq hphase hs =>
    refine Fine.update h hf hq (Pool.step_transition hs) nofun ?_ nofun (unfailed rfl) nofun
    intro i hv
    exact (Bool.and_eq_true_iff.mp hv).2
  | clearExpired hs | readiness hs | clock hs =>
    exact Fine.environment h hf (Pool.step_transition hs) rfl (fun _ => rfl) nofun

theorem Transition.settings (ht : Transition s a s') :
    s'.protocol = s.protocol ∧ s'.retryCanceledRequests = s.retryCanceledRequests := by
  cases ht <;> exact ⟨rfl,rfl⟩

end Step

section Run
variable {s₀ s : State K} {config : Config} {protocol : Protocol} {timer : Bool}

/-- On a client that negotiates or speaks H1 and retries, a request of an
undisturbed run ends with an error only if its own dial, protocol selection or
handshake failed with that error. -/
theorem errors_are_own (h₀ : State.new config protocol true timer = some s₀)
    (hp : protocol ≠ .http2) (h : Reaches State.step Undisturbed s₀ s) (r : ℕ) (q : Request K)
    (hq : s.requests.get r = some q) (error : Error) (he : q.phase.error? = some error) :
    q.failed = some error := by
  obtain ⟨_,hprot,hretry,hempty⟩ := new_spec h₀
  have hinv : (Sound s ∧ s.protocol = protocol ∧ s.retryCanceledRequests = true) ∧
      ∀ r q, s.requests.get r = some q → Fine s.world q := by
    refine Reaches.invariant (I := fun t : State K => (Sound t ∧ t.protocol = protocol ∧
      t.retryCanceledRequests = true) ∧ ∀ r q, t.requests.get r = some q → Fine t.world q) ?_ ?_ h
    · intro t u a hi ha hs
      obtain ⟨⟨hsound,hpt,hrt⟩,hfine⟩ := hi
      have ht := step_transition hs
      obtain ⟨hpu,hru⟩ := ht.settings
      exact ⟨⟨hsound.step hs,hpu.trans hpt,hru.trans hrt⟩,
        ht.fine hsound ha (by rw [hpt]; exact hp) hrt hfine⟩
    · refine ⟨⟨sound_new h₀,hprot,hretry⟩,?_⟩
      intro r q hq
      rw [hempty] at hq
      cases hq
  exact (hinv.2 r q hq).explained error he

/-- Two requests of an H1 client dial the same origin, and one of them is answered with H2:
the error is its own, and the other one goes on. -/
theorem errors_are_own_alpn : ∃ s₀ s : State ℕ, State.new ⟨none,1,2⟩ .http1 true false = some s₀ ∧
    Reaches State.step Undisturbed s₀ s ∧ s.requests.get 1 = some ⟨0,.racing 1 (.dialing 1),none⟩ ∧
    ∃ q, s.requests.get 0 = some q ∧ q.phase.error? = some ⟨.alpn,none⟩ ∧ q.failed = some ⟨.alpn,none⟩ := by
  obtain ⟨s₀,s₁,s₂,s₃,s,q,h₀,hrun,hone,hs₁,htwo,hs₂,hs₃,hother,hq,he⟩ : ∃ (s₀ s₁ s₂ s₃ s : State ℕ) (q : Request ℕ),
      State.new ⟨none,1,2⟩ .http1 true false = some s₀ ∧
      runActions State.step s₀ [.request 0,.pollCheckout 0,.request 0,.pollCheckout 1] = some s₁ ∧
      (s₁.requests.get 0 = some ⟨0,.registered 0,none⟩ ∧ s₁.world.checkouts.get 0 = some ⟨0,some 0⟩ ∧
        s₁.world.chans.get 0 = some ⟨0,Oneshot.channel⟩) ∧
      s₁.step (.connect 0) = some s₂ ∧
      (s₂.requests.get 1 = some ⟨0,.registered 1,none⟩ ∧ s₂.world.checkouts.get 1 = some ⟨0,some 1⟩ ∧
        s₂.world.chans.get 1 = some ⟨0,Oneshot.channel⟩) ∧
      s₂.step (.connect 1) = some s₃ ∧ s₃.step (.dialed 0 (.ok .http2)) = some s ∧
      s.requests.get 1 = some ⟨0,.racing 1 (.dialing 1),none⟩ ∧
      s.requests.get 0 = some q ∧ q.phase.error? = some ⟨.alpn,none⟩ :=
    ⟨_,_,_,_,_,_,rfl,rfl,⟨rfl,rfl,rfl⟩,rfl,⟨rfl,rfl,rfl⟩,rfl,rfl,rfl,rfl,rfl⟩
  have hr₁ : Reaches State.step Undisturbed s₀ s₁ :=
    .ofRun (allowedAlong_of_forall (by simp [Undisturbed])) hrun
  -- the waiter of the request that connects is not dropped
  have hconnect : ∀ {s : State ℕ} {r : ℕ}, s.requests.get r = some ⟨0,.registered r,none⟩ →
      s.world.checkouts.get r = some ⟨0,some r⟩ → s.world.chans.get r = some ⟨0,Oneshot.channel⟩ →
      Undisturbed s (.connect r) := by
    intro s r hq hc hx q' c checkout i x hq' hphase hc' hw hx' hdropped
    cases hq.symm.trans hq'
    cases hphase
    cases hc.symm.trans hc'
    cases hw
    cases hx.symm.trans hx'
    cases hdropped
  have hr₂ : Reaches State.step Undisturbed s₀ s₂ := hr₁.step (hconnect hone.1 hone.2.1 hone.2.2) hs₁
  have hr₃ : Reaches State.step Undisturbed s₀ s₃ := hr₂.step (hconnect htwo.1 htwo.2.1 htwo.2.2) hs₂
  have hdialed : Undisturbed s₃ (.dialed 0 (.ok .http2)) := trivial
  have hr : Reaches State.step Undisturbed s₀ s := hr₃.step hdialed hs₃
  exact ⟨s₀,s,h₀,hr,hother,q,hq,he,errors_are_own h₀ nofun hr 0 q hq _ he⟩

/-- Two requests dial the same origin. The first dial fails, and its guard takes
the sender of the second request along, which holds a guard of its own, is still
dialing, and ends with an error all the same. -/
theorem establishment_disturbed : ∃ s₀ s s' : State ℕ,
    State.new ⟨none,1,2⟩ .auto true false = some s₀ ∧
    Reaches State.step (fun _ _ => True) s₀ s ∧
    s.requests.get 1 = some ⟨0,.racing 1 (.dialing 1),none⟩ ∧
    s.world.guards.get 1 = some ⟨0,true,true⟩ ∧
    runActions State.step s [.pollWaiter 1,.dropCheckout 1,.dropGuard 1,.finish 1] = some s' ∧
    ∃ q, s'.requests.get 1 = some q ∧
      q.phase = .done (.error ⟨.connect,some (.checkout .noLongerWanted)⟩) ∧ q.failed = none := by
  obtain ⟨s₀,s,s',q,h₀,hrun,hrest⟩ : ∃ (s₀ s s' : State ℕ) (q : Request ℕ),
      State.new ⟨none,1,2⟩ .auto true false = some s₀ ∧
      runActions State.step s₀ [.request 0,.pollCheckout 0,.connect 0,.request 0,.pollCheckout 1,
        .connect 1,.dialed 0 (.error .connect),.dropGuard 0] = some s ∧
      s.requests.get 1 = some ⟨0,.racing 1 (.dialing 1),none⟩ ∧
      s.world.guards.get 1 = some ⟨0,true,true⟩ ∧
      runActions State.step s [.pollWaiter 1,.dropCheckout 1,.dropGuard 1,.finish 1] = some s' ∧
      s'.requests.get 1 = some q ∧
      q.phase = .done (.error ⟨.connect,some (.checkout .noLongerWanted)⟩) ∧ q.failed = none :=
    ⟨_,_,_,_,rfl,rfl,rfl,rfl,rfl,rfl,rfl,rfl⟩
  obtain ⟨hq,hg,hend,hdone⟩ := hrest
  exact ⟨s₀,s,s',h₀,.ofRun (allowedAlong_of_forall fun _ _ _ => trivial) hrun,hq,hg,hend,q,hdone⟩

end Run
end H12Tiny.Client
