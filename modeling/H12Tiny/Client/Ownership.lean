import H12Tiny.Client.Steps
import H12Tiny.Pool.Frames
import H12Tiny.Pool.SlotBounds

/-! # Requests own their handles

Every live checkout and guard of a request belongs to no other request, carries
the request's key, and is in the state the request's phase says. Since a request
only acts on its own handles, the steps of one request leave the others' handles
alone, and every run of the client is a run of the pool that uses it as intended.
-/
namespace H12Tiny.Client
open Pool
variable {K : Type*} [DecidableEq K]

namespace Phase

def checkout? : Phase → Option ℕ
  | .fresh c | .registered c | .racing c _ | .connecting c _ | .waiting c => some c
  | .leaving c _ _ => c
  | _ => none

def guard? : Phase → Option ℕ
  | .racing _ connect | .connecting _ connect => some connect.guard
  | .leaving _ g _ => g
  | _ => none

def attached : Phase → Bool
  | .registered _ | .racing _ _ | .waiting _ => true
  | _ => false

end Phase

def Fits (protocol : Protocol) (phase : Phase) (guard : Connecting K) : Prop :=
  match phase.establishing with
  | some (_,.dialing _) => guard.pool = true ∧ guard.h1Slot = decide (protocol ≠ .http2)
  | some (_,.converting _) => guard.pool = false
  | some (_,.handshaking _ selected) =>
    guard.pool = true ∧ guard.h1Slot = decide (protocol ≠ .http2 ∧ selected = .http1)
  | none => guard.pool = true

structure Owned (protocol : Protocol) (w : World PoolClient K) (q : Request K) : Prop where
  checkout : ∀ {c}, q.phase.checkout? = some c →
    ∃ checkout, w.checkouts.get c = some checkout ∧ checkout.key = q.key
  attached : ∀ {c}, q.phase.checkout? = some c → q.phase.attached = true → Attached w c
  guard : ∀ {g}, q.phase.guard? = some g →
    ∃ guard, w.guards.get g = some guard ∧ guard.key = q.key ∧ Fits protocol q.phase guard

structure Linked (s : State K) : Prop where
  owned : ∀ {r q}, s.requests.get r = some q → Owned s.protocol s.world q
  checkouts : ∀ {r r' q q' c}, s.requests.get r = some q → s.requests.get r' = some q' →
    q.phase.checkout? = some c → q'.phase.checkout? = some c → r = r'
  guards : ∀ {r r' q q' g}, s.requests.get r = some q → s.requests.get r' = some q' →
    q.phase.guard? = some g → q'.phase.guard? = some g → r = r'

section Frame
variable {w w' : World PoolClient K} {a : Pool.Action PoolClient K}

theorem Attached.frame {c : ℕ} (h : Attached w c) (ht : Pool.Transition w a w') (hok : ChannelsOk w)
    (hd : Drained w) (hc : a.checkout? ≠ some c)
    (hv : ∀ checkout i, w.checkouts.get c = some checkout → checkout.waiter = some i →
      a.vanishes i = false) : Attached w' c := by
  obtain ⟨checkout,i,x,hget,hw,hx,hr⟩ := h
  have hother : ∀ c' checkout', a.checkout? = some c' → w.checkouts.get c' = some checkout' →
      checkout'.waiter ≠ some i := by
    intro c' checkout' ha hget' hw'
    have he := hok.distinct hget' hget hw' hw
    exact hc (he ▸ ha)
  obtain ⟨x',hx',hr',_⟩ := ht.channel_frame hd hx hr (hv checkout i hget hw)
  exact ⟨checkout,i,x',ht.checkout_frame hget hc,hw,hx',hr' hother⟩

theorem Owned.frame {protocol : Protocol} {q : Request K} (h : Owned protocol w q)
    (ht : Pool.Transition w a w') (hok : ChannelsOk w) (hd : Drained w)
    (hc : ∀ c, q.phase.checkout? = some c → a.checkout? ≠ some c)
    (hg : ∀ g, q.phase.guard? = some g → a.guard? ≠ some g)
    (hv : ∀ c checkout i, q.phase.checkout? = some c → q.phase.attached = true →
      w.checkouts.get c = some checkout → checkout.waiter = some i → a.vanishes i = false) :
    Owned protocol w' q := by
  refine ⟨?_,?_,?_⟩
  · intro c hphase
    obtain ⟨checkout,hget,hk⟩ := h.checkout hphase
    exact ⟨checkout,ht.checkout_frame hget (hc c hphase),hk⟩
  · intro c hphase hatt
    refine (h.attached hphase hatt).frame ht hok hd (hc c hphase) ?_
    intro checkout i hget hw
    exact hv c checkout i hphase hatt hget hw
  · intro g hphase
    obtain ⟨guard,hget,hk⟩ := h.guard hphase
    exact ⟨guard,ht.guard_frame hget (hg g hphase),hk⟩

end Frame

omit [DecidableEq K] in
theorem exists_of_isLeaving {s : State K} {i : ℕ} (h : s.isLeaving i = true) :
    ∃ r q c g next checkout, s.requests.get r = some q ∧ q.phase = .leaving (some c) g next ∧
      s.world.checkouts.get c = some checkout ∧ checkout.waiter = some i := by
  unfold State.isLeaving at h
  obtain ⟨r,_,hr⟩ := List.any_eq_true.mp h
  split at hr
  · rename_i key c g next failed hq
    cases hget : s.world.checkouts.get c with
    | none => simp [hget] at hr
    | some checkout => exact ⟨r,_,c,g,next,checkout,hq,rfl,hget,by simpa [hget] using hr⟩
  · cases hr

section Step
variable {s s' : State K}

omit [DecidableEq K] in
theorem Linked.not_leaving (h : Linked s) (hok : ChannelsOk s.world) {r c i : ℕ} {q : Request K}
    {checkout : Checkout K} (hq : s.requests.get r = some q) (hphase : q.phase.checkout? = some c)
    (hatt : q.phase.attached = true) (hget : s.world.checkouts.get c = some checkout)
    (hw : checkout.waiter = some i) : s.isLeaving i = false := by
  cases hl : s.isLeaving i with
  | false => rfl
  | true =>
    obtain ⟨r',q',c',g,next,checkout',hq',hphase',hget',hw'⟩ := exists_of_isLeaving hl
    have hc := hok.distinct hget' hget hw' hw
    subst hc
    have hr := h.checkouts hq hq' hphase (by rw [hphase']; rfl)
    subst hr
    rw [hq] at hq'
    cases hq'
    rw [hphase'] at hatt
    cases hatt

/-- The step rule: a request that acts on its own handles and ends in a phase that
fits them, with handles it had or that are new, keeps all requests linked. -/
theorem Linked.step (h : Linked s) (hok : ChannelsOk s.world) (hd : Drained s.world)
    {a : Pool.Action PoolClient K} {r : ℕ} {q' : Request K}
    (ht : Pool.Transition s.world a s'.world) (hprot : s'.protocol = s.protocol)
    (hsame : ∀ r', r' ≠ r → s'.requests.get r' = s.requests.get r')
    (hq' : s'.requests.get r = some q')
    (hc : ∀ c, a.checkout? = some c →
      ∃ q, s.requests.get r = some q ∧ q.phase.checkout? = some c)
    (hg : ∀ g, a.guard? = some g → ∃ q, s.requests.get r = some q ∧ q.phase.guard? = some g)
    (hv : ∀ i, a.vanishes i = true → s.isLeaving i = true)
    (hown : Owned s'.protocol s'.world q')
    (hcheck : ∀ c, q'.phase.checkout? = some c →
      (∃ q, s.requests.get r = some q ∧ q.phase.checkout? = some c) ∨ c = s.world.checkouts.next)
    (hguard : ∀ g, q'.phase.guard? = some g →
      (∃ q, s.requests.get r = some q ∧ q.phase.guard? = some g) ∨ g = s.world.guards.next) :
    Linked s' := by
  have hold : ∀ {r₁ q₁}, r₁ ≠ r → s'.requests.get r₁ = some q₁ → s.requests.get r₁ = some q₁ := by
    intro r₁ q₁ hne hget
    rw [← hsame r₁ hne]
    exact hget
  have hcdisj : ∀ {r₁ q₁ c}, r₁ ≠ r → s.requests.get r₁ = some q₁ → q₁.phase.checkout? = some c →
      q'.phase.checkout? ≠ some c := by
    intro r₁ q₁ c hne hq₁ hc₁ hc'
    rcases hcheck c hc' with ⟨q,hq,hqc⟩ | rfl
    · exact hne (h.checkouts hq₁ hq hc₁ hqc)
    · obtain ⟨checkout,hget,_⟩ := (h.owned hq₁).checkout hc₁
      exact Nat.lt_irrefl _ (Table.lt_next hget)
  have hgdisj : ∀ {r₁ q₁ g}, r₁ ≠ r → s.requests.get r₁ = some q₁ → q₁.phase.guard? = some g →
      q'.phase.guard? ≠ some g := by
    intro r₁ q₁ g hne hq₁ hg₁ hg'
    rcases hguard g hg' with ⟨q,hq,hqg⟩ | rfl
    · exact hne (h.guards hq₁ hq hg₁ hqg)
    · obtain ⟨guard,hget,_⟩ := (h.owned hq₁).guard hg₁
      exact Nat.lt_irrefl _ (Table.lt_next hget)
  refine ⟨?_,?_,?_⟩
  · intro r₁ q₁ hq₁
    by_cases hne : r₁ = r
    · subst hne
      rw [hq'] at hq₁
      cases hq₁
      exact hown
    · have hq₀ := hold hne hq₁
      rw [hprot]
      refine (h.owned hq₀).frame ht hok hd ?_ ?_ ?_
      · intro c hphase ha
        obtain ⟨q,hq,hqc⟩ := hc c ha
        exact hne (h.checkouts hq₀ hq hphase hqc)
      · intro g hphase ha
        obtain ⟨q,hq,hqg⟩ := hg g ha
        exact hne (h.guards hq₀ hq hphase hqg)
      · intro c checkout i hphase hatt hget hw
        have hl := h.not_leaving hok hq₀ hphase hatt hget hw
        cases hvi : a.vanishes i with
        | false => rfl
        | true =>
          rw [hv i hvi] at hl
          cases hl
  · intro r₁ r₂ q₁ q₂ c hq₁ hq₂ hc₁ hc₂
    by_cases h₁ : r₁ = r
    · by_cases h₂ : r₂ = r
      · rw [h₁,h₂]
      · rw [h₁,hq'] at hq₁
        cases hq₁
        exact absurd hc₁ (hcdisj h₂ (hold h₂ hq₂) hc₂)
    · by_cases h₂ : r₂ = r
      · rw [h₂,hq'] at hq₂
        cases hq₂
        exact absurd hc₂ (hcdisj h₁ (hold h₁ hq₁) hc₁)
      · exact h.checkouts (hold h₁ hq₁) (hold h₂ hq₂) hc₁ hc₂
  · intro r₁ r₂ q₁ q₂ g hq₁ hq₂ hg₁ hg₂
    by_cases h₁ : r₁ = r
    · by_cases h₂ : r₂ = r
      · rw [h₁,h₂]
      · rw [h₁,hq'] at hq₁
        cases hq₁
        exact absurd hg₁ (hgdisj h₂ (hold h₂ hq₂) hg₂)
    · by_cases h₂ : r₂ = r
      · rw [h₂,hq'] at hq₂
        cases hq₂
        exact absurd hg₂ (hgdisj h₁ (hold h₁ hq₁) hg₁)
      · exact h.guards (hold h₁ hq₁) (hold h₂ hq₂) hg₁ hg₂

theorem Linked.environment (h : Linked s) (hok : ChannelsOk s.world) (hd : Drained s.world)
    {a : Pool.Action PoolClient K} {w : World PoolClient K} (ht : Pool.Transition s.world a w)
    (hc : a.checkout? = none) (hg : a.guard? = none) (hv : ∀ i, a.vanishes i = false) :
    Linked { s with world := w } := by
  refine ⟨?_,h.checkouts,h.guards⟩
  intro r q hq
  refine (h.owned hq).frame ht hok hd ?_ ?_ (fun _ _ i _ _ _ _ => hv i)
  · intro c _
    rw [hc]
    nofun
  · intro g _
    rw [hg]
    nofun

section Update
variable {r : ℕ} {q : Request K} {w : World PoolClient K} {phase : Phase}

omit [DecidableEq K] in
theorem update_get_self (hq : s.requests.get r = some q) :
    (s.update r w phase).requests.get r = some { q with phase := phase } := by
  unfold State.update
  rw [Table.get_modify_self,hq]
  rfl

omit [DecidableEq K] in
theorem update_get_ne {r' : ℕ} (hne : r' ≠ r) :
    (s.update r w phase).requests.get r' = s.requests.get r' := Table.get_modify_ne _ _ hne

omit [DecidableEq K] in
theorem fail_get_self {c g : ℕ} {error : Error} (hq : s.requests.get r = some q) :
    (s.fail r c g error).requests.get r =
      some ⟨q.key,.leaving (some c) (some g) (.result (.error error)),some error⟩ := by
  unfold State.fail
  rw [Table.get_modify_self,hq]
  rfl

omit [DecidableEq K] in
theorem fail_get_ne {c g r' : ℕ} {error : Error} (hne : r' ≠ r) :
    (s.fail r c g error).requests.get r' = s.requests.get r' := Table.get_modify_ne _ _ hne

theorem Linked.update (h : Linked s) (hok : ChannelsOk s.world) (hd : Drained s.world)
    (hq : s.requests.get r = some q) {a : Pool.Action PoolClient K} (ht : Pool.Transition s.world a w)
    (hc : ∀ c, a.checkout? = some c → q.phase.checkout? = some c)
    (hg : ∀ g, a.guard? = some g → q.phase.guard? = some g)
    (hv : ∀ i, a.vanishes i = true → s.isLeaving i = true)
    (hown : Owned s.protocol w { q with phase := phase })
    (hcheck : ∀ c, phase.checkout? = some c → q.phase.checkout? = some c ∨ c = s.world.checkouts.next)
    (hguard : ∀ g, phase.guard? = some g → q.phase.guard? = some g ∨ g = s.world.guards.next) :
    Linked (s.update r w phase) := by
  refine h.step hok hd ht rfl (fun r' hne => update_get_ne hne) (update_get_self hq)
    (fun c ha => ⟨q,hq,hc c ha⟩) (fun g ha => ⟨q,hq,hg g ha⟩) hv hown ?_ ?_
  · intro c hphase
    rcases hcheck c hphase with hold | hnew
    · exact Or.inl ⟨q,hq,hold⟩
    · exact Or.inr hnew
  · intro g hphase
    rcases hguard g hphase with hold | hnew
    · exact Or.inl ⟨q,hq,hold⟩
    · exact Or.inr hnew

end Update
end Step

section Phases
variable {protocol : Protocol} {w w' : World PoolClient K} {a : Pool.Action PoolClient K}

omit [DecidableEq K] in
theorem Fits.pool {phase : Phase} {guard : Connecting K} (h : Fits protocol phase guard)
    (hs : ∀ c connect, phase.establishing = some (c,connect) → connect.suspended = true) :
    guard.pool = true := by
  unfold Fits at h
  split at h
  · exact h.1
  · rename_i c g he
    have hsus := hs _ _ he
    cases hsus
  · exact h.1
  · exact h

theorem Owned.leave {q : Request K} (h : Owned protocol w q) (ht : Pool.Transition w a w') {c : ℕ}
    {g : Option ℕ} {next : Next} {failed : Option Error} (hc : q.phase.checkout? = some c)
    (hg : ∀ g', g = some g' → q.phase.guard? = some g')
    (hs : ∀ c connect, q.phase.establishing = some (c,connect) → g ≠ none → connect.suspended = true)
    (hdrop : a ≠ .dropCheckout c) (hguard : ∀ g', g = some g' → a.guard? ≠ some g') :
    Owned protocol w' ⟨q.key,.leaving (some c) g next,failed⟩ := by
  refine ⟨?_,nofun,?_⟩
  · intro c' hphase
    cases hphase
    obtain ⟨checkout,hget,hk⟩ := h.checkout hc
    obtain ⟨checkout',hget',hk'⟩ := ht.checkout_key hget hdrop
    exact ⟨checkout',hget',hk'.trans hk⟩
  · intro g' hphase
    have he : g = some g' := hphase
    obtain ⟨guard,hget,hk,hfit⟩ := h.guard (hg g' he)
    refine ⟨guard,ht.guard_frame hget (hguard g' he),hk,?_⟩
    exact hfit.pool (fun c connect hest => hs c connect hest (by rw [he]; nofun))

end Phases
end H12Tiny.Client
