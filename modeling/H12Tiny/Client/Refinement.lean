import H12Tiny.Client.Ownership

/-! # The client refines the pool

Linked requests stay linked through every transition. Forgetting the requests
turns a run of the client into a run of the pool, and the guards' states show that
it is one in which connections are pooled under the guards they need.
-/
namespace H12Tiny.Client
open Pool
variable {K : Type*} [DecidableEq K]

namespace Phase

theorem polls_spec {phase : Phase} {c : ℕ} {g : Option ℕ} (h : phase.polls = some (c,g)) :
    phase.checkout? = some c ∧ (∀ g', g = some g' → phase.guard? = some g') ∧
    ∀ c connect, phase.establishing = some (c,connect) → g ≠ none → connect.suspended = true := by
  cases phase with
  | fresh c' => cases h; exact ⟨rfl,nofun,nofun⟩
  | waiting c' => cases h; exact ⟨rfl,nofun,nofun⟩
  | racing c' k =>
    rw [polls] at h
    split at h
    · rename_i hk
      cases h
      refine ⟨rfl,fun g' hg' => hg',?_⟩
      intro c'' connect he _
      cases he
      exact hk
    · cases h
  | _ => cases h

theorem polls_racing {phase : Phase} {c : ℕ} {k : Connect} (h : phase = .racing c k)
    (hk : k.suspended = true) : phase.polls = some (c,some k.guard) := by
  rw [h]
  exact if_pos hk

theorem polls_waiting {phase : Phase} {c : ℕ} (h : phase = .waiting c) : phase.polls = some (c,none) := by
  rw [h]
  rfl

theorem abandons_spec {phase : Phase} {c : ℕ} {g : Option ℕ} (h : phase.abandons = some (c,g)) :
    phase.checkout? = some c ∧ (∀ g', g = some g' → phase.guard? = some g') ∧
    ∀ c connect, phase.establishing = some (c,connect) → g ≠ none → connect.suspended = true := by
  cases phase with
  | fresh c' => cases h; exact ⟨rfl,nofun,nofun⟩
  | waiting c' => cases h; exact ⟨rfl,nofun,nofun⟩
  | racing c' k | connecting c' k =>
    rw [abandons] at h
    split at h
    · rename_i hk
      cases h
      refine ⟨rfl,fun g' hg' => hg',?_⟩
      intro c'' connect he _
      cases he
      exact hk
    · cases h
  | _ => cases h

theorem establishing_cases {phase : Phase} {c : ℕ} {connect : Connect}
    (h : phase.establishing = some (c,connect)) : phase = .racing c connect ∨ phase = .connecting c connect := by
  cases phase with
  | racing => cases h; exact .inl rfl
  | connecting => cases h; exact .inr rfl
  | _ => cases h

theorem establishing_spec {phase : Phase} {c : ℕ} {connect : Connect}
    (h : phase.establishing = some (c,connect)) :
    phase.checkout? = some c ∧ phase.guard? = some connect.guard := by
  rcases establishing_cases h with rfl | rfl
  · exact ⟨rfl,rfl⟩
  · exact ⟨rfl,rfl⟩

theorem resume_spec {phase : Phase} {c : ℕ} {connect : Connect} (connect' : Connect)
    (h : phase.establishing = some (c,connect)) :
    (phase.resume connect').establishing = some (c,connect') ∧
    (phase.resume connect').checkout? = some c ∧
    (phase.resume connect').guard? = some connect'.guard ∧
    (phase.resume connect').attached = phase.attached := by
  rcases establishing_cases h with rfl | rfl
  · exact ⟨rfl,rfl,rfl,rfl⟩
  · exact ⟨rfl,rfl,rfl,rfl⟩

end Phase

section Owned
variable {protocol : Protocol} {w w' : World PoolClient K} {a : Pool.Action PoolClient K} {q : Request K}

theorem Owned.resume (h : Owned protocol w q) (ht : Pool.Transition w a w') (hok : ChannelsOk w)
    (hd : Drained w) {c : ℕ} {k k' : Connect} {guard : Connecting K}
    (hest : q.phase.establishing = some (c,k)) (hc : a.checkout? = none)
    (hv : ∀ i, a.vanishes i = false) (hget : w'.guards.get k'.guard = some guard)
    (hkey : guard.key = q.key) (hfit : Fits protocol (q.phase.resume k') guard) :
    Owned protocol w' { q with phase := q.phase.resume k' } := by
  obtain ⟨_,hcheck,hguard,hatt⟩ := Phase.resume_spec k' hest
  have hc' : a.checkout? ≠ some c := by rw [hc]; nofun
  refine ⟨?_,?_,?_⟩
  · intro c' hphase
    cases hcheck.symm.trans hphase
    obtain ⟨checkout,hget,hk⟩ := h.checkout (Phase.establishing_spec hest).1
    exact ⟨checkout,ht.checkout_frame hget hc',hk⟩
  · intro c' hphase hatt'
    cases hcheck.symm.trans hphase
    have hold := h.attached (Phase.establishing_spec hest).1 (hatt.symm.trans hatt')
    exact hold.frame ht hok hd hc' (fun _ i _ _ => hv i)
  · intro g hphase
    cases hguard.symm.trans hphase
    exact ⟨guard,hget,hkey,hfit⟩

theorem Owned.wait (h : Owned protocol w q) (ht : Pool.Transition w a w') (hok : ChannelsOk w)
    (hd : Drained w) {c : ℕ} (hcheck : q.phase.checkout? = some c) (hatt : q.phase.attached = true)
    (hc : a.checkout? = none) (hv : ∀ i, a.vanishes i = false) :
    Owned protocol w' { q with phase := .waiting c } := by
  have hc' : a.checkout? ≠ some c := by rw [hc]; nofun
  refine ⟨?_,?_,nofun⟩
  · intro c' hphase
    cases hphase
    obtain ⟨checkout,hget,hk⟩ := h.checkout hcheck
    exact ⟨checkout,ht.checkout_frame hget hc',hk⟩
  · intro c' hphase _
    cases hphase
    exact (h.attached hcheck hatt).frame ht hok hd hc' (fun _ i _ _ => hv i)

theorem Owned.pend (h : Owned protocol w q) {c : ℕ} {g : Option ℕ}
    (ht : Pool.Transition w (.checkout c) w') (hpolls : q.phase.polls = some (c,g))
    (hatt : Attached w' c) : Owned protocol w' { q with phase := q.phase.pending } := by
  have hcheck := (Phase.polls_spec hpolls).1
  have hsame : q.phase.pending.checkout? = some c ∧ q.phase.pending.guard? = q.phase.guard? ∧
      q.phase.pending.establishing = q.phase.establishing := by
    cases hphase : q.phase with
    | fresh c' =>
      rw [hphase] at hpolls
      cases hpolls
      exact ⟨rfl,rfl,rfl⟩
    | _ =>
      rw [hphase] at hcheck
      exact ⟨hcheck,rfl,rfl⟩
  refine ⟨?_,?_,?_⟩
  · intro c' hphase
    cases hsame.1.symm.trans hphase
    obtain ⟨checkout,hget,hk⟩ := h.checkout hcheck
    obtain ⟨checkout',hget',hk'⟩ := ht.checkout_key hget nofun
    exact ⟨checkout',hget',hk'.trans hk⟩
  · intro c' hphase _
    cases hsame.1.symm.trans hphase
    exact hatt
  · intro g' hphase
    obtain ⟨guard,hget,hk,hfit⟩ := h.guard (hsame.2.1.symm.trans hphase)
    refine ⟨guard,ht.guard_frame hget nofun,hk,?_⟩
    unfold Fits at hfit ⊢
    rw [hsame.2.2]
    exact hfit

end Owned

section Linked
variable {s s' : State K} {a : Action K}

theorem still (w : World PoolClient K) : Pool.Transition w (.clock w.now) w := .clock

theorem Linked.leave (h : Linked s) (hok : ChannelsOk s.world) (hd : Drained s.world) {r c : ℕ}
    {g : Option ℕ} {q : Request K} {next : Next} {w : World PoolClient K}
    {b : Pool.Action PoolClient K} (hq : s.requests.get r = some q) (ht : Pool.Transition s.world b w)
    (hspec : q.phase.checkout? = some c ∧ (∀ g', g = some g' → q.phase.guard? = some g') ∧
      ∀ c connect, q.phase.establishing = some (c,connect) → g ≠ none → connect.suspended = true)
    (hc : ∀ c', b.checkout? = some c' → c' = c) (hg : b.guard? = none)
    (hv : ∀ i, b.vanishes i = false) (hdrop : b ≠ .dropCheckout c) :
    Linked (s.update r w (.leaving (some c) g next)) := by
  obtain ⟨hcheck,hguard,hsus⟩ := hspec
  have hnone : ∀ g', b.guard? ≠ some g' := fun g' => by rw [hg]; nofun
  refine h.update hok hd hq ht ?_ ?_ ?_ ?_ ?_ ?_
  · intro c' ha
    rw [hc c' ha]
    exact hcheck
  · exact fun g' ha => absurd ha (hnone g')
  · intro i hvi
    rw [hv i] at hvi
    cases hvi
  · exact (h.owned hq).leave ht hcheck hguard hsus hdrop (fun g' _ => hnone g')
  · intro c' hphase
    cases hphase
    exact Or.inl hcheck
  · exact fun g' hphase => Or.inl (hguard g' hphase)

omit [DecidableEq K] in
theorem owned_none {protocol : Protocol} {w : World PoolClient K} {q : Request K}
    (hc : q.phase.checkout? = none) (hg : q.phase.guard? = none) : Owned protocol w q := by
  refine ⟨?_,?_,?_⟩
  · intro c hphase
    rw [hc] at hphase
    cases hphase
  · intro c hphase
    rw [hc] at hphase
    cases hphase
  · intro g hphase
    rw [hg] at hphase
    cases hphase

omit [DecidableEq K] in
theorem owned_fresh {protocol : Protocol} {w : World PoolClient K} {key : K} {c : ℕ}
    {failed : Option Error} (hget : w.checkouts.get c = some ⟨key,none⟩) :
    Owned protocol w ⟨key,.fresh c,failed⟩ := by
  refine ⟨?_,nofun,nofun⟩
  intro c' hphase
  cases hphase
  exact ⟨_,hget,rfl⟩

theorem Linked.fail (h : Linked s) (hok : ChannelsOk s.world) (hd : Drained s.world) {r c : ℕ}
    {q : Request K} {k : Connect} {error : Error} (hq : s.requests.get r = some q)
    (hest : q.phase.establishing = some (c,k)) (hk : k.suspended = true) :
    Linked (s.fail r c k.guard error) := by
  obtain ⟨hcheck,hguard⟩ := Phase.establishing_spec hest
  refine h.step hok hd (still s.world) rfl (fun r' hne => fail_get_ne hne) (fail_get_self hq)
    nofun nofun nofun ?_ ?_ ?_
  · refine (h.owned hq).leave (still s.world) hcheck ?_ ?_ nofun nofun
    · intro g' he
      cases he
      exact hguard
    · intro c' connect he _
      rw [hest] at he
      cases he
      exact hk
  · intro c' hphase
    cases hphase
    exact Or.inl ⟨q,hq,hcheck⟩
  · intro g' hphase
    cases hphase
    exact Or.inl ⟨q,hq,hguard⟩

theorem Linked.resume (h : Linked s) (hok : ChannelsOk s.world) (hd : Drained s.world) {r c : ℕ}
    {q : Request K} {k k' : Connect} {guard : Connecting K} {w : World PoolClient K}
    {b : Pool.Action PoolClient K} (hq : s.requests.get r = some q) (ht : Pool.Transition s.world b w)
    (hest : q.phase.establishing = some (c,k)) (hsame : k'.guard = k.guard)
    (hc : b.checkout? = none) (hg : ∀ g, b.guard? = some g → g = k.guard)
    (hv : ∀ i, b.vanishes i = false) (hget : w.guards.get k'.guard = some guard)
    (hkey : guard.key = q.key) (hfit : Fits s.protocol (q.phase.resume k') guard) :
    Linked (s.update r w (q.phase.resume k')) := by
  obtain ⟨hcheck,hguard⟩ := Phase.establishing_spec hest
  obtain ⟨_,hcheck',hguard',_⟩ := Phase.resume_spec k' hest
  refine h.update hok hd hq ht ?_ ?_ ?_ ?_ ?_ ?_
  · intro c' ha
    rw [hc] at ha
    cases ha
  · intro g ha
    rw [hg g ha]
    exact hguard
  · intro i hvi
    rw [hv i] at hvi
    cases hvi
  · exact (h.owned hq).resume ht hok hd hest hc hv hget hkey hfit
  · intro c' hphase
    cases hcheck'.symm.trans hphase
    exact Or.inl hcheck
  · intro g hphase
    cases hguard'.symm.trans hphase
    rw [hsame]
    exact Or.inl hguard

section Cases
variable {r c : ℕ} {q : Request K} {w : World PoolClient K}
  (h : Linked s) (hok : ChannelsOk s.world) (hd : Drained s.world) (hq : s.requests.get r = some q)
include h hok hd hq

theorem linked_closed {k : Connect} (hphase : q.phase = .racing c k)
    (hs : s.world.step (.pollWaiter c) = some w) : Linked (s.update r w (.connecting c k)) := by
  have hest : q.phase.establishing = some (c,k) := by rw [hphase]; rfl
  have ht := Pool.step_transition hs
  obtain ⟨hcheck,hguard⟩ := Phase.establishing_spec hest
  refine h.update hok hd hq ht ?_ nofun nofun ?_ ?_ ?_
  · intro c' ha
    cases ha
    exact hcheck
  · refine ⟨?_,nofun,?_⟩
    · intro c' hphase'
      cases hphase'
      obtain ⟨checkout,hget,hkey⟩ := (h.owned hq).checkout hcheck
      obtain ⟨checkout',hget',hkey'⟩ := ht.checkout_key hget nofun
      exact ⟨checkout',hget',hkey'.trans hkey⟩
    · intro g hphase'
      cases hphase'
      obtain ⟨guard,hget,hkey,hfit⟩ := (h.owned hq).guard hguard
      rw [hphase] at hfit
      exact ⟨guard,ht.guard_frame hget nofun,hkey,hfit⟩
  · intro c' hphase'
    cases hphase'
    exact Or.inl hcheck
  · intro g hphase'
    cases hphase'
    exact Or.inl hguard

theorem linked_parked {g : Option ℕ} (hpolls : q.phase.polls = some (c,g))
    (hs : s.world.step (.checkout c) = some w) (hatt : Attached w c) :
    Linked (s.update r w q.phase.pending) := by
  have ht := Pool.step_transition hs
  have hcheck := (Phase.polls_spec hpolls).1
  refine h.update hok hd hq ht ?_ nofun nofun ((h.owned hq).pend ht hpolls hatt) ?_ ?_
  · intro c' ha
    cases ha
    exact hcheck
  · intro c' hphase
    refine Or.inl ?_
    cases hp : q.phase <;> rw [hp] at hphase <;> exact hphase
  · intro g' hphase
    refine Or.inl ?_
    cases hp : q.phase <;> rw [hp] at hphase <;> exact hphase

theorem linked_granted (hphase : q.phase = .registered c)
    (hs : s.world.step (.connecting q.key s.protocol) = some w)
    (hget : w.guards.get s.world.guards.next = some ⟨q.key,true,decide (s.protocol ≠ .http2)⟩) :
    Linked (s.update r w (.racing c (.dialing s.world.guards.next))) := by
  have ht := Pool.step_transition hs
  have hcheck : q.phase.checkout? = some c := by rw [hphase]; rfl
  have hatt : q.phase.attached = true := by rw [hphase]; rfl
  have hwait := (h.owned hq).wait ht hok hd hcheck hatt rfl (fun _ => rfl)
  refine h.update hok hd hq ht nofun nofun nofun ?_ ?_ ?_
  · refine ⟨fun hp => hwait.checkout hp,fun hp _ => hwait.attached hp rfl,?_⟩
    intro g hp
    cases hp
    exact ⟨_,hget,rfl,rfl,rfl⟩
  · intro c' hp
    cases hp
    exact Or.inl hcheck
  · intro g hp
    cases hp
    exact Or.inr rfl

theorem linked_refused (hphase : q.phase = .registered c)
    (hs : s.world.step (.connecting q.key s.protocol) = some w) : Linked (s.update r w (.waiting c)) := by
  have hcheck : q.phase.checkout? = some c := by rw [hphase]; rfl
  have hatt : q.phase.attached = true := by rw [hphase]; rfl
  have ht := Pool.step_transition hs
  refine h.update hok hd hq ht nofun nofun nofun
    ((h.owned hq).wait ht hok hd hcheck hatt rfl (fun _ => rfl)) ?_ nofun
  intro c' hp
  cases hp
  exact Or.inl hcheck

theorem linked_opened {g : ℕ} {selected : ConnectionProtocol}
    (hest : q.phase.establishing = some (c,.dialing g)) (hprot : selected = .http2 → s.protocol = .http2) :
    Linked (s.update r s.world (q.phase.resume (.handshaking g selected))) := by
  obtain ⟨guard,hget,hkey,hfit⟩ := (h.owned hq).guard (Phase.establishing_spec hest).2
  refine h.resume hok hd hq (still s.world) hest rfl rfl nofun (fun _ => rfl) hget hkey ?_
  unfold Fits at hfit ⊢
  rw [hest] at hfit
  rw [(Phase.resume_spec _ hest).1]
  refine ⟨hfit.1,hfit.2.trans (decide_eq_decide.mpr ⟨fun hne => ⟨hne,?_⟩,And.left⟩)⟩
  cases selected with
  | http1 => rfl
  | http2 => exact absurd (hprot rfl) hne

theorem linked_converting {g : ℕ} (hest : q.phase.establishing = some (c,.dialing g))
    (hs : s.world.step (.alpnRelease g) = some w) :
    Linked (s.update r w (q.phase.resume (.converting g))) := by
  obtain ⟨guard,hget,hkey,hfit⟩ := (h.owned hq).guard (Phase.establishing_spec hest).2
  have ht := Pool.step_transition hs
  have hget' : w.guards.get g = some { guard with h1Slot := false, pool := false } := by
    cases ht
    rw [Table.get_modify_self]
    exact congrArg _ hget
  refine h.resume hok hd hq ht hest rfl rfl (fun g' ha => (Option.some.inj ha).symm) (fun _ => rfl)
    hget' hkey ?_
  unfold Fits
  rw [(Phase.resume_spec _ hest).1]

theorem linked_won {g : ℕ} {guard : Connecting K} (hest : q.phase.establishing = some (c,.converting g))
    (hs : s.world.step (.alpnMark g) = some w) (hget : s.world.guards.get g = some guard)
    (hget' : w.guards.get g = some { guard with pool := true, h1Slot := false }) :
    Linked (s.update r w (q.phase.resume (.handshaking g .http2))) := by
  obtain ⟨guard',hget'',hkey,_⟩ := (h.owned hq).guard (Phase.establishing_spec hest).2
  cases hget.symm.trans hget''
  refine h.resume hok hd hq (Pool.step_transition hs) hest rfl rfl
    (fun g' ha => (Option.some.inj ha).symm) (fun _ => rfl) hget' hkey ?_
  unfold Fits
  rw [(Phase.resume_spec _ hest).1]
  exact ⟨rfl,(decide_eq_false fun hslot => by cases hslot.2).symm⟩

theorem linked_lost {g : ℕ} (hest : q.phase.establishing = some (c,.converting g))
    (hs : s.world.step (.alpnMark g) = some w) : Linked (s.update r w q.phase.refused) := by
  have ht := Pool.step_transition hs
  obtain ⟨hcheck,hguard⟩ := Phase.establishing_spec hest
  have hg : ∀ g', (Pool.Action.alpnMark g : Pool.Action PoolClient K).guard? = some g' →
      q.phase.guard? = some g' := by
    intro g' ha
    cases ha
    exact hguard
  rcases Phase.establishing_cases hest with hphase | hphase
  · rw [hphase]
    refine h.update hok hd hq ht nofun hg nofun
      ((h.owned hq).wait ht hok hd hcheck (by rw [hphase]; rfl) rfl (fun _ => rfl)) ?_ nofun
    intro c' hp
    cases hp
    exact Or.inl hcheck
  · rw [hphase]
    refine h.update hok hd hq ht nofun hg nofun
      ((h.owned hq).leave ht hcheck nofun (fun _ _ _ hn => absurd rfl hn) nofun nofun) ?_ nofun
    intro c' hp
    cases hp
    exact Or.inl hcheck

theorem linked_pooled {g : ℕ} {next : Next} {value : PoolClient} {vanish : ℕ → Bool}
    {selected : ConnectionProtocol} (hest : q.phase.establishing = some (c,.handshaking g selected))
    (hs : s.world.step (.pooled g value (fun i => vanish i && s.isLeaving i)) = some w) :
    Linked (s.update r w (.leaving (some c) none next)) := by
  have ht := Pool.step_transition hs
  obtain ⟨hcheck,hguard⟩ := Phase.establishing_spec hest
  refine h.update hok hd hq ht nofun ?_ ?_
    ((h.owned hq).leave ht hcheck nofun (fun _ _ _ hn => absurd rfl hn) nofun nofun) ?_ nofun
  · intro g' ha
    cases ha
    exact hguard
  · intro i hv
    exact (Bool.and_eq_true_iff.mp hv).2
  · intro c' hp
    cases hp
    exact Or.inl hcheck

theorem linked_dropCheckout {g : Option ℕ} {next : Next} (hphase : q.phase = .leaving (some c) g next)
    (hs : s.world.step (.dropCheckout c) = some w) : Linked (s.update r w (.leaving none g next)) := by
  have ht := Pool.step_transition hs
  refine h.update hok hd hq ht ?_ nofun nofun ?_ nofun ?_
  · intro c' ha
    cases ha
    rw [hphase]
    rfl
  · refine ⟨nofun,nofun,?_⟩
    intro g' hp
    have hold : q.phase.guard? = some g' := by rw [hphase]; exact hp
    obtain ⟨guard,hget,hkey,hfit⟩ := (h.owned hq).guard hold
    rw [hphase] at hfit
    exact ⟨guard,ht.guard_frame hget nofun,hkey,hfit⟩
  · intro g' hp
    rw [hphase]
    exact Or.inl hp

theorem linked_dropGuard {g : ℕ} {checkout : Option ℕ} {next : Next}
    (hphase : q.phase = .leaving checkout (some g) next)
    (hs : s.world.step (.dropConnecting g) = some w) : Linked (s.update r w (.leaving checkout none next)) := by
  have ht := Pool.step_transition hs
  refine h.update hok hd hq ht nofun ?_ nofun ?_ ?_ nofun
  · intro g' ha
    cases ha
    rw [hphase]
    rfl
  · refine ⟨?_,nofun,nofun⟩
    intro c' hp
    have hold : q.phase.checkout? = some c' := by rw [hphase]; exact hp
    obtain ⟨checkout,hget,hkey⟩ := (h.owned hq).checkout hold
    exact ⟨checkout,ht.checkout_frame hget nofun,hkey⟩
  · intro c' hp
    rw [hphase]
    exact Or.inl hp

end Cases

theorem Transition.linked (ht : Transition s a s') (h : Linked s) (hok : ChannelsOk s.world)
    (hd : Drained s.world) : Linked s' := by
  cases ht with
  | @request key w hs hget =>
    refine h.step hok hd (Pool.step_transition hs) rfl ?_ (Table.get_alloc_self _ _) nofun nofun nofun
      (owned_fresh hget) (fun c hphase => Or.inr (Option.some.inj hphase).symm) nofun
    intro r' hne
    rw [Table.get_alloc,if_neg hne]
  | served hq hpolls hs =>
    exact h.leave hok hd hq (Pool.step_transition hs) (Phase.polls_spec hpolls)
      (fun c' ha => (Option.some.inj ha).symm) rfl (fun _ => rfl) nofun
  | closed hq hphase _ hs => exact linked_closed h hok hd hq hphase hs
  | unwanted hq hphase hk _ _ _ _ _ _ hs =>
    exact h.leave hok hd hq (Pool.step_transition hs) (Phase.polls_spec (Phase.polls_racing hphase hk))
      (fun c' ha => (Option.some.inj ha).symm) rfl (fun _ => rfl) nofun
  | retried hq hphase hs =>
    exact h.leave hok hd hq (Pool.step_transition hs) (Phase.polls_spec (Phase.polls_waiting hphase))
      (fun c' ha => (Option.some.inj ha).symm) rfl (fun _ => rfl) nofun
  | idle hq =>
    exact h.update hok hd hq (still s.world) nofun nofun nofun (h.owned hq) (fun _ => Or.inl)
      (fun _ => Or.inl)
  | found hq hpolls hs =>
    exact h.leave hok hd hq (Pool.step_transition hs) (Phase.polls_spec hpolls)
      (fun c' ha => (Option.some.inj ha).symm) rfl (fun _ => rfl) nofun
  | parked hq hpolls hs hatt => exact linked_parked h hok hd hq hpolls hs hatt
  | granted hq hphase hs hget _ => exact linked_granted h hok hd hq hphase hs hget
  | refused hq hphase hs _ => exact linked_refused h hok hd hq hphase hs
  | dialFailed hq hest => exact h.fail hok hd hq hest rfl
  | opened hq hest hprot => exact linked_opened h hok hd hq hest hprot
  | converting hq hest _ hs => exact linked_converting h hok hd hq hest hs
  | won hq hest hs hget hget' => exact linked_won h hok hd hq hest hs hget hget'
  | lost hq hest hs _ _ _ => exact linked_lost h hok hd hq hest hs
  | handshakeFailed hq hest => exact h.fail hok hd hq hest rfl
  | pooled hq hest hs => exact linked_pooled h hok hd hq hest hs
  | cancel hq hab =>
    exact h.leave hok hd hq (still s.world) (Phase.abandons_spec hab) nofun rfl (fun _ => rfl) nofun
  | dropReceiver hq hphase hs =>
    refine h.leave hok hd hq (Pool.step_transition hs) ?_ (fun c' ha => (Option.some.inj ha).symm) rfl
      (fun _ => rfl) nofun
    rw [hphase]
    exact ⟨rfl,fun _ => id,nofun⟩
  | dropCheckout hq hphase hs => exact linked_dropCheckout h hok hd hq hphase hs
  | dropGuard hq hphase hs => exact linked_dropGuard h hok hd hq hphase hs
  | finished hq | cancelled hq | gaveUp hq =>
    exact h.update hok hd hq (still s.world) nofun nofun nofun (owned_none rfl rfl) nofun nofun
  | again hq hphase hs hget =>
    exact h.update hok hd hq (Pool.step_transition hs) nofun nofun nofun (owned_fresh hget)
      (fun c hp => Or.inr (Option.some.inj hp).symm) nofun
  | release hq hphase hs =>
    refine h.update hok hd hq (Pool.step_transition hs) nofun nofun ?_ (owned_none rfl rfl) nofun nofun
    intro i hv
    exact (Bool.and_eq_true_iff.mp hv).2
  | clearExpired hs | readiness hs | clock hs =>
    exact h.environment hok hd (Pool.step_transition hs) rfl rfl (fun _ => rfl)

omit [DecidableEq K] in
theorem update_cases {r₀ r : ℕ} {w : World PoolClient K} {phase : Phase} {q' : Request K}
    (h : (s.update r₀ w phase).requests.get r = some q') :
    (r = r₀ ∧ ∃ q, s.requests.get r = some q ∧ q'.key = q.key ∧ q'.phase = phase) ∨
      (r ≠ r₀ ∧ s.requests.get r = some q') := by
  rcases Table.get_modify_cases h with ⟨rfl,q,hq,rfl⟩ | ⟨hne,hq⟩
  · exact .inl ⟨rfl,q,hq,rfl,rfl⟩
  · exact .inr ⟨hne,hq⟩

def Permits : Protocol → ConnectionProtocol → Prop
  | .auto, _ => True
  | .http1, selected => selected = .http1
  | .http2, selected => selected = .http2

/-- The handshake of the phase is one for a permitted protocol; only an HTTP/1 guard
of a client that negotiates is converted. -/
def Selects (protocol : Protocol) (phase : Phase) : Prop :=
  (∀ {c g selected}, phase.establishing = some (c,.handshaking g selected) → Permits protocol selected) ∧
    ∀ {c g}, phase.establishing = some (c,.converting g) → protocol = .auto

theorem selects_none {protocol : Protocol} {phase : Phase} (h : phase.establishing = none) :
    Selects protocol phase := by
  constructor
  · intro c g selected he
    cases h.symm.trans he
  · intro c g he
    cases h.symm.trans he

theorem selects_resume {protocol : Protocol} {phase : Phase} {c g : ℕ} {connect : Connect}
    {selected : ConnectionProtocol} (h : phase.establishing = some (c,connect))
    (hp : Permits protocol selected) : Selects protocol (phase.resume (.handshaking g selected)) := by
  have hest := (Phase.resume_spec (.handshaking g selected) h).1
  constructor
  · intro c' g' selected' he
    cases hest.symm.trans he
    exact hp
  · intro c' g' he
    cases hest.symm.trans he

theorem Transition.selects (ht : Transition s a s') (hdial : Compatible s.protocol a)
    (h : ∀ {r q}, s.requests.get r = some q → Selects s.protocol q.phase) {r : ℕ} {q' : Request K}
    (hq' : s'.requests.get r = some q') : Selects s'.protocol q'.phase := by
  have hupdate : ∀ {r₀ : ℕ} {w : World PoolClient K} {phase : Phase}, s' = s.update r₀ w phase →
      Selects s.protocol phase → Selects s'.protocol q'.phase := by
    rintro r₀ w phase rfl hphase
    rcases update_cases hq' with ⟨_,q,_,_,he⟩ | ⟨_,hq⟩
    · rw [he]
      exact hphase
    · exact h hq
  have hfail : ∀ {r₀ c g : ℕ} {error : Error}, s' = s.fail r₀ c g error → Selects s'.protocol q'.phase := by
    rintro r₀ c g error rfl
    rcases Table.get_modify_cases hq' with ⟨rfl,q,hq,rfl⟩ | ⟨_,hq⟩
    · exact selects_none rfl
    · exact h hq
  cases ht with
  | request =>
    rcases Table.get_alloc_cases hq' with ⟨_,rfl⟩ | hq
    · exact selects_none rfl
    · exact h hq
  | served | unwanted | retried | found | refused | pooled | cancel | dropReceiver | dropCheckout | dropGuard
    | finished | cancelled | again | gaveUp | release => exact hupdate rfl (selects_none rfl)
  | closed hq hphase =>
    have hold := h hq
    rw [hphase] at hold
    exact hupdate rfl hold
  | idle hq => exact hupdate rfl (h hq)
  | @parked _ _ _ q _ hq =>
    apply hupdate rfl
    have hold := h hq
    cases hphase : q.phase with
    | fresh => exact selects_none rfl
    | _ =>
      rw [hphase] at hold
      exact hold
  | granted => exact hupdate rfl ⟨nofun,nofun⟩
  | dialFailed | handshakeFailed => exact hfail rfl
  | @opened _ _ _ _ selected hq hest hp =>
    refine hupdate rfl (selects_resume hest ?_)
    cases hprotocol : s.protocol with
    | auto => trivial
    | http1 =>
      cases selected with
      | http1 => rfl
      | http2 => cases hprotocol.symm.trans (hp rfl)
    | http2 => exact hdial hprotocol
  | @converting _ _ g _ _ hq hest hauto =>
    have hnew := (Phase.resume_spec (.converting g) hest).1
    refine hupdate rfl ⟨?_,fun _ => hauto⟩
    intro c' g' selected he
    cases hnew.symm.trans he
  | won hq hest =>
    refine hupdate rfl (selects_resume hest ?_)
    rw [(h hq).2 hest]
    trivial
  | lost hq hest =>
    refine hupdate rfl (selects_none ?_)
    rcases Phase.establishing_cases hest with hphase | hphase <;> rw [hphase] <;> rfl
  | clearExpired | readiness | clock => exact h hq'

/-- The pool action that a client action stands for. -/
structure Performs (s : State K) (a : Action K) (b : Pool.Action PoolClient K) : Prop where
  issued : (∀ {r q}, s.requests.get r = some q → Selects s.protocol q.phase) → Issued s.world b
  returns : ∀ p vanish, b = .dropPooled p vanish →
    ∃ r q vanish, a = .release r vanish ∧ s.requests.get r = some q ∧ q.phase = .done (.ok p)
  converts : ∀ g, b = .alpnRelease g → ∃ r q c, a = .dialed r (.ok .http2) ∧ s.protocol = .auto ∧
    s.requests.get r = some q ∧ q.phase.establishing = some (c,.dialing g)

/-- Every step of the client performs one action of the pool, and the one intended if the
policy is kept. -/
theorem Transition.performs (ht : Transition s a s') (h : Linked s) :
    ∃ b, Performs s a b ∧ s.world.step b = some s'.world := by
  have hstill : ∃ b, Performs s a b ∧ s.world.step b = some s.world :=
    ⟨.clock s.world.now,⟨fun _ => trivial,nofun,nofun⟩,rfl⟩
  cases ht with
  | @converting r c g q w hq hest hauto hs =>
    refine ⟨_,?_,hs⟩
    refine ⟨?_,nofun,?_⟩
    · intro _ guard hget
      obtain ⟨guard',hget',_,hfit⟩ := (h.owned hq).guard (Phase.establishing_spec hest).2
      cases hget.symm.trans hget'
      unfold Fits at hfit
      rw [hest,hauto] at hfit
      exact hfit.2
    · intro g' he
      cases he
      exact ⟨r,q,c,rfl,hauto,hq,hest⟩
  | @pooled r c g p connection q selected vanish w hq hest hs =>
    refine ⟨_,?_,hs⟩
    refine ⟨?_,nofun,nofun⟩
    intro hselects guard hget
    obtain ⟨guard',hget',_,hfit⟩ := (h.owned hq).guard (Phase.establishing_spec hest).2
    cases hget.symm.trans hget'
    unfold Fits at hfit
    rw [hest] at hfit
    rw [hfit.2]
    have hpermits := (hselects hq).1 hest
    cases selected with
    | http2 => exact decide_eq_false fun hslot => by cases hslot.2
    | http1 =>
      refine decide_eq_true ⟨fun hprotocol => ?_,rfl⟩
      rw [hprotocol] at hpermits
      cases hpermits
  | @release r p q vanish w hq hphase hs =>
    refine ⟨_,?_,hs⟩
    refine ⟨fun _ => trivial,?_,nofun⟩
    intro p' vanish' he
    cases he
    exact ⟨r,q,vanish,rfl,hq,hphase⟩
  | idle | dialFailed | opened | handshakeFailed | cancel | finished | cancelled | gaveUp => exact hstill
  | request hs | served _ _ hs | closed _ _ _ hs | unwanted _ _ _ _ _ _ _ _ _ hs | retried _ _ hs
    | found _ _ hs | parked _ _ hs | granted _ _ hs | refused _ _ hs | won _ _ hs | lost _ _ hs
    | dropReceiver _ _ hs | dropCheckout _ _ hs | dropGuard _ _ hs | again _ _ hs
    | clearExpired hs | readiness hs | clock hs =>
    refine ⟨_,?_,hs⟩
    exact ⟨fun _ => trivial,nofun,nofun⟩

end Linked

section Run
variable {s₀ s : State K} {config : Config} {protocol : Protocol} {retry timer : Bool}
variable {allowed : State K → Action K → Prop}

omit [DecidableEq K] in
theorem new_spec (h₀ : State.new config protocol retry timer = some s₀) :
    World.new config timer = some s₀.world ∧ s₀.protocol = protocol ∧
    s₀.retryCanceledRequests = retry ∧ s₀.requests = .empty := by
  obtain ⟨w,hw,rfl⟩ := Option.map_eq_some_iff.mp h₀
  exact ⟨hw,rfl,rfl,rfl⟩

/-- What every later argument about requests stands on. -/
structure Sound (s : State K) : Prop where
  linked : Linked s
  channels : ChannelsOk s.world
  drained : Drained s.world
  sent : SentOk s.world.chans

theorem Sound.step (h : Sound s) {a : Action K} {s' : State K} (hs : s.step a = some s') : Sound s' := by
  have ht := step_transition hs
  obtain ⟨b,_,hb⟩ := ht.performs h.linked
  have hw := Pool.step_transition hb
  exact ⟨ht.linked h.linked h.channels h.drained,hw.channelsOk h.channels,
    hw.drained h.channels h.drained,hw.sentOk h.sent⟩

omit [DecidableEq K] in
theorem sound_new (h₀ : State.new config protocol retry timer = some s₀) : Sound s₀ := by
  obtain ⟨hw,_,_,hr⟩ := new_spec h₀
  refine ⟨⟨?_,?_,?_⟩,channelsOk_new hw,drained_new hw,?_⟩
  · intro r q hq
    rw [hr] at hq
    cases hq
  · intro r r' q q' c hq
    rw [hr] at hq
    cases hq
  · intro r r' q q' g hq
    rw [hr] at hq
    cases hq
  · intro i x hx
    unfold World.new at hw
    split at hw
    · rw [← Option.some.inj hw] at hx
      cases hx
    · cases hw

theorem reaches_sound (h₀ : State.new config protocol retry timer = some s₀)
    (h : Reaches State.step allowed s₀ s) : Sound s :=
  Reaches.invariant (fun hi _ hs => hi.step hs) (sound_new h₀) h

/-- Forgetting the requests, a run of the client is a run of the pool. -/
theorem reaches_world (h₀ : State.new config protocol retry timer = some s₀)
    (h : Reaches State.step allowed s₀ s) : Reaches World.step (fun _ _ => True) s₀.world s.world := by
  have hinv : Sound s ∧ Reaches World.step (fun _ _ => True) s₀.world s.world := by
    refine Reaches.invariant (I := fun t : State K =>
      Sound t ∧ Reaches World.step (fun _ _ => True) s₀.world t.world) ?_ ⟨sound_new h₀,.refl⟩ h
    intro t u a hi _ hs
    obtain ⟨b,_,hw⟩ := (step_transition hs).performs hi.1.linked
    exact ⟨hi.1.step hs,hi.2.step trivial hw⟩
  exact hinv.2

/-- With a dialer that keeps its contract this run meets the conditions under which the cap
and the single H2 owner are proved. -/
theorem reaches_issued (h₀ : State.new config protocol retry timer = some s₀)
    (h : Reaches State.step (fun t a => Compatible t.protocol a) s₀ s) :
    Reaches World.step Issued s₀.world s.world := by
  have hinv : (Sound s ∧ ∀ {r q}, s.requests.get r = some q → Selects s.protocol q.phase) ∧
      Reaches World.step Issued s₀.world s.world := by
    refine Reaches.invariant (I := fun t : State K =>
      (Sound t ∧ ∀ {r q}, t.requests.get r = some q → Selects t.protocol q.phase) ∧
        Reaches World.step Issued s₀.world t.world) ?_ ⟨⟨sound_new h₀,?_⟩,.refl⟩ h
    · rintro t u a ⟨⟨hsound,hselects⟩,hrun⟩ hdial hs
      have ht := step_transition hs
      obtain ⟨b,hb,hw⟩ := ht.performs hsound.linked
      exact ⟨⟨hsound.step hs,ht.selects hdial hselects⟩,hrun.step (hb.issued hselects) hw⟩
    · intro r q hq
      rw [(new_spec h₀).2.2.2] at hq
      cases hq
  exact hinv.2

end Run
end H12Tiny.Client
