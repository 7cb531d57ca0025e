import H12Tiny.Foundation.Loop

/-! # Simulation of programs with states and errors

Two programs over different states are compared result by result: the same value or
the same error in related states. Either side may be allowed to give up with an
error of its own, which then says nothing about the other side. The relation is
closed under sequencing and under loops.
-/
namespace H12Tiny
variable {ε σ τ α β : Type}

/-- The two results agree, or one side gave up. -/
inductive Agree (R : σ → τ → Prop) (left right : ε → Prop) :
    EStateM.Result ε σ α → EStateM.Result ε τ α → Prop
  | ok {a : α} {s : σ} {t : τ} (h : R s t) : Agree R left right (.ok a s) (.ok a t)
  | error {e : ε} {s : σ} {t : τ} (h : R s t) : Agree R left right (.error e s) (.error e t)
  | left {e : ε} {s : σ} {r : EStateM.Result ε τ α} (h : left e) : Agree R left right (.error e s) r
  | right {e : ε} {t : τ} {r : EStateM.Result ε σ α} (h : right e) : Agree R left right r (.error e t)

/-- From related states the first program agrees with the second. -/
def Simulates (R : σ → τ → Prop) (left right : ε → Prop) (m : EStateM ε σ α) (n : EStateM ε τ α) : Prop :=
  ∀ s t, R s t → Agree R left right (m s) (n t)

variable {R : σ → τ → Prop} {left right : ε → Prop}

theorem Simulates.pure (a : α) :
    Simulates R left right (Pure.pure a : EStateM ε σ α) (Pure.pure a : EStateM ε τ α) := by
  intro s t h
  exact .ok h

theorem Simulates.throw (e : ε) :
    Simulates R left right (MonadExcept.throw e : EStateM ε σ α) (MonadExcept.throw e : EStateM ε τ α) := by
  intro s t h
  exact .error h

theorem Simulates.ofExcept (x : Except ε α) :
    Simulates R left right (MonadExcept.ofExcept x : EStateM ε σ α)
      (MonadExcept.ofExcept x : EStateM ε τ α) := by
  cases x with
  | ok a => exact Simulates.pure a
  | error e => exact Simulates.throw e

theorem Simulates.bind {m : EStateM ε σ α} {n : EStateM ε τ α} {f : α → EStateM ε σ β}
    {g : α → EStateM ε τ β} (h : Simulates R left right m n)
    (hf : ∀ a, Simulates R left right (f a) (g a)) : Simulates R left right (m >>= f) (n >>= g) := by
  intro s t hst
  have hm := h s t hst
  simp only [Bind.bind,EStateM.bind]
  generalize m s = x at hm
  generalize n t = y at hm
  cases hm with
  | ok h => exact hf _ _ _ h
  | error h => exact .error h
  | left h => exact .left h
  | right h => exact .right h

theorem Simulates.loopM {body : β → EStateM ε σ (α ⊕ β)} {body' : β → EStateM ε τ (α ⊕ β)}
    {measure : β → σ → ℕ} {measure' : β → τ → ℕ} (h : Lowers body measure) (h' : Lowers body' measure')
    (hb : ∀ b, Simulates R left right (body b) (body' b)) (b : β) :
    Simulates R left right (loopM body measure h b) (loopM body' measure' h' b) := by
  intro s
  refine loopM_induction h (P := fun b s r =>
    ∀ t, R s t → Agree R left right r (H12Tiny.loopM body' measure' h' b t)) ?_ ?_ ?_ b s
  · intro b s a s' hbody t hst
    have hstep := hb b s t hst
    rw [hbody] at hstep
    generalize hy : body' b t = y at hstep
    cases hstep with
    | ok hrel =>
      rw [loopM_of_stop h' hy]
      exact .ok hrel
    | right hgive =>
      rw [loopM_of_error h' hy]
      exact .right hgive
  · intro b s e s' hbody t hst
    have hstep := hb b s t hst
    rw [hbody] at hstep
    generalize hy : body' b t = y at hstep
    cases hstep with
    | error hrel =>
      rw [loopM_of_error h' hy]
      exact .error hrel
    | left hgive => exact .left hgive
    | right hgive =>
      rw [loopM_of_error h' hy]
      exact .right hgive
  · intro b s b' s' r hbody ih t hst
    have hstep := hb b s t hst
    rw [hbody] at hstep
    generalize hy : body' b t = y at hstep
    cases hstep with
    | ok hrel =>
      rw [loopM_of_next h' hy]
      exact ih _ hrel
    | right hgive =>
      rw [loopM_of_error h' hy]
      exact .right hgive

end H12Tiny
