import H12Tiny.Foundation.Loop
import Mathlib.Logic.Relation

/-! # What programs keep of their state, and whether they ask for input

Judgments about programs with errors and a state, and their rules for the constructs that
programs are made of. The first is that a property of the state is preserved, also by a
failure, with the case that a part of the state is kept as it is; a loop preserves it at the
start of every iteration. For the second the state holds an input, which may begin with a
failure: a program settles if it either asks for input before it does anything else with it,
so that such a failure ends it, or does not use the input at all.
-/
namespace H12Tiny

section Preserves
variable {ε σ τ α β : Type}

def finalState : EStateM.Result ε σ α → σ
  | .ok _ s => s
  | .error _ s => s

/-- The program preserves the property, whether it fails or not. -/
def Preserves (P : σ → Prop) (m : EStateM ε σ α) : Prop := ∀ s, P s → P (finalState (m s))

/-- The program keeps this part of the state, whether it fails or not. -/
def Keeps (part : σ → τ) (m : EStateM ε σ α) : Prop := ∀ s, part (finalState (m s)) = part s

theorem Keeps.preserves {part : σ → τ} {m : EStateM ε σ α} (h : Keeps part m) (v : τ) :
    Preserves (fun s => part s = v) m := fun s hs => (h s).trans hs

theorem Keeps.of_preserves {part : σ → τ} {m : EStateM ε σ α} (h : ∀ v, Preserves (fun s => part s = v) m) :
    Keeps part m := fun s => h (part s) s rfl

variable {P : σ → Prop}

theorem Preserves.of_eq {m : EStateM ε σ α} (hm : Preserves P m) {s : σ} {r : EStateM.Result ε σ α}
    (h : m s = r) (hs : P s) : P (finalState r) := h ▸ hm s hs

theorem Preserves.pure (a : α) : Preserves P (pure a : EStateM ε σ α) := fun _ hs => hs

theorem Preserves.throw (e : ε) : Preserves P (throw e : EStateM ε σ α) := fun _ hs => hs

theorem Preserves.ofExcept (x : Except ε α) : Preserves P (ofExcept x : EStateM ε σ α) := by
  intro s hs
  cases x with
  | ok a => exact hs
  | error e => exact hs

theorem Preserves.bind {m : EStateM ε σ α} {f : α → EStateM ε σ β} (hm : Preserves P m)
    (hf : ∀ a, Preserves P (f a)) : Preserves P (m >>= f) := by
  intro s hs
  change P (finalState (EStateM.bind m f s))
  unfold EStateM.bind
  cases hr : m s with
  | ok a t => exact hf a t (hm.of_eq hr hs)
  | error e t => exact hm.of_eq hr hs

theorem Preserves.loopM {body : β → EStateM ε σ (α ⊕ β)} {measure : β → σ → ℕ} (h : Lowers body measure)
    (hbody : ∀ b, Preserves P (body b)) (b : β) : Preserves P (loopM body measure h b) := by
  intro s
  refine loopM_induction h (P := fun _ s r => P s → P (finalState r)) ?_ ?_ ?_ b s
  · exact fun b s a s' hb hs => (hbody b).of_eq hb hs
  · exact fun b s e s' hb hs => (hbody b).of_eq hb hs
  · exact fun b s b' s' r hb hr hs => hr ((hbody b).of_eq hb hs)

/-- The accumulators and states in which the iterations of a loop start. -/
def Visits (body : β → EStateM ε σ (α ⊕ β)) : β × σ → β × σ → Prop :=
  Relation.ReflTransGen fun p q => body p.1 p.2 = .ok (.inr q.1) q.2

theorem Visits.invariant {body : β → EStateM ε σ (α ⊕ β)} {Q : β → σ → Prop}
    (hbody : ∀ {b s b' s'}, Q b s → body b s = .ok (.inr b') s' → Q b' s') {p q : β × σ}
    (h : Visits body p q) (hp : Q p.1 p.2) : Q q.1 q.2 := by
  induction h with
  | refl => exact hp
  | tail _ hstep ih => exact hbody ih hstep

theorem Visits.preserves {body : β → EStateM ε σ (α ⊕ β)} (hbody : ∀ b, Preserves P (body b)) {p q : β × σ}
    (h : Visits body p q) (hp : P p.2) : P q.2 :=
  h.invariant (Q := fun _ s => P s) (fun hs hb => (hbody _).of_eq hb hs) hp

/-- A loop that ends with a result ends in an iteration it came to. -/
theorem exists_visits_of_loopM {body : β → EStateM ε σ (α ⊕ β)} {measure : β → σ → ℕ} (h : Lowers body measure)
    {b : β} {s s' : σ} {a : α} (hloop : loopM body measure h b s = .ok a s') :
    ∃ q : β × σ, Visits body (b,s) q ∧ body q.1 q.2 = .ok (.inl a) s' := by
  refine loopM_induction h (P := fun b s r => ∀ a s', r = .ok a s' →
    ∃ q : β × σ, Visits body (b,s) q ∧ body q.1 q.2 = .ok (.inl a) s') ?_ ?_ ?_ b s a s' hloop
  · intro b s a s' hb a' t hr
    cases hr
    exact ⟨(b,s),.refl,hb⟩
  · intro b s e s' hb a t hr
    cases hr
  · intro b s b' s' r hb hnext a t hr
    obtain ⟨q,hq,hstop⟩ := hnext a t hr
    exact ⟨q,Relation.ReflTransGen.head hb hq,hstop⟩

end Preserves

section Settles
variable {ε σ ι α β : Type} (withInput : ι → σ → σ) (failing : ε → ι → ι)

/-- What becomes of a program in a state, for all inputs at once. -/
inductive Settles (m : EStateM ε σ α) (s : σ) : Prop
  | asks (s' : σ) (h : ∀ e i, m (withInput (failing e i) s) = .error e (withInput i s'))
  | returns (a : α) (s' : σ) (h : ∀ i, m (withInput i s) = .ok a (withInput i s'))
  | raises (e : ε) (s' : σ) (h : ∀ i, m (withInput i s) = .error e (withInput i s'))

variable {withInput failing}

theorem Settles.ofExcept (x : Except ε α) (s : σ) : Settles withInput failing (ofExcept x : EStateM ε σ α) s := by
  cases x with
  | ok a => exact .returns a s fun _ => rfl
  | error e => exact .raises e s fun _ => rfl

theorem Settles.bind {m : EStateM ε σ α} {f : α → EStateM ε σ β} {s : σ} (hm : Settles withInput failing m s)
    (hf : ∀ a s', Settles withInput failing (f a) s') : Settles withInput failing (m >>= f) s := by
  have hok : ∀ {t u : σ} {a : α}, m t = .ok a u → (m >>= f) t = f a u := by
    intro t u a h
    change EStateM.bind m f t = _
    rw [EStateM.bind,h]
  have herror : ∀ {t u : σ} {e : ε}, m t = .error e u → (m >>= f) t = .error e u := by
    intro t u e h
    change EStateM.bind m f t = _
    rw [EStateM.bind,h]
  cases hm with
  | asks s' h => exact .asks s' fun e i => herror (h e i)
  | raises e s' h => exact .raises e s' fun i => herror (h i)
  | returns a s' h =>
    cases hf a s' with
    | asks t ht => exact .asks t fun e i => (hok (h _)).trans (ht e i)
    | returns b t ht => exact .returns b t fun i => (hok (h i)).trans (ht i)
    | raises e t ht => exact .raises e t fun i => (hok (h i)).trans (ht i)

/-- A loop settles if its body does: on any one input the measure counts the iterations
that use none. -/
theorem Settles.loopM {body : β → EStateM ε σ (α ⊕ β)} {measure : β → σ → ℕ} (h : Lowers body measure) (i₀ : ι)
    (hbody : ∀ b s, Settles withInput failing (body b) s) (b : β) (s : σ) :
    Settles withInput failing (loopM body measure h b) s := by
  induction hn : measure b (withInput i₀ s) using Nat.strongRecOn generalizing b s with
  | ind n ih =>
    cases hbody b s with
    | asks s' hb => exact .asks s' fun e i => loopM_of_error h (hb e i)
    | raises e s' hb => exact .raises e s' fun i => loopM_of_error h (hb i)
    | returns r s' hb =>
      cases r with
      | inl a => exact .returns a s' fun i => loopM_of_stop h (hb i)
      | inr b' =>
        have hlt := h _ _ _ _ (hb i₀)
        cases ih _ (hn ▸ hlt) b' s' rfl with
        | asks t ht => exact .asks t fun e i => (loopM_of_next h (hb _)).trans (ht e i)
        | returns a t ht => exact .returns a t fun i => (loopM_of_next h (hb i)).trans (ht i)
        | raises e t ht => exact .raises e t fun i => (loopM_of_next h (hb i)).trans (ht i)

/-- A program that runs another one on a part of its state, passes its failures on and
does not use the input behind it. -/
theorem Settles.embed {τ : Type} {withInput' : ι → τ → τ} {m : EStateM ε σ α} {n : EStateM ε τ β} {s : σ} {t : τ}
    (out : σ → τ) (k : α → σ → EStateM.Result ε τ β) (hm : Settles withInput failing m s)
    (hout : ∀ i s, out (withInput i s) = withInput' i (out s))
    (hok : ∀ {i a s'}, m (withInput i s) = .ok a s' → n (withInput' i t) = k a s')
    (herror : ∀ {i e s'}, m (withInput i s) = .error e s' → n (withInput' i t) = .error e (out s'))
    (hk : ∀ a s', (∃ b t', ∀ i, k a (withInput i s') = .ok b (withInput' i t')) ∨
      ∃ e t', ∀ i, k a (withInput i s') = .error e (withInput' i t')) :
    Settles withInput' failing n t := by
  cases hm with
  | asks s' h => exact .asks (out s') fun e i => (herror (h e i)).trans (congrArg _ (hout i s'))
  | raises e s' h => exact .raises e (out s') fun i => (herror (h i)).trans (congrArg _ (hout i s'))
  | returns a s' h =>
    rcases hk a s' with ⟨b,t',hb⟩ | ⟨e,t',he⟩
    · exact .returns b t' fun i => (hok (h i)).trans (hb i)
    · exact .raises e t' fun i => (hok (h i)).trans (he i)

end Settles
end H12Tiny
