import Mathlib.Data.Option.Basic
import Mathlib.Data.Nat.Notation
import Mathlib.Order.Basic

/-! # Loops with a decreasing measure

A loop is a body that either finishes with a result or continues with the next
state, together with a measure every continuation lowers. The loop is executed
by structural recursion on fuel, so it computes on concrete states; the measure
shows that the fuel suffices, and from then on only the unfolding equation and
the induction rule are used.
-/
namespace H12Tiny

section Loop
variable {σ α : Type*} (body : σ → α ⊕ σ) (measure : σ → ℕ)

def loopFuel : ℕ → σ → Option α
  | 0, _ => none
  | fuel + 1, s =>
    match body s with
    | .inl a => some a
    | .inr t => loopFuel fuel t

def Decreases : Prop := ∀ s t, body s = .inr t → measure t < measure s

variable {body measure}

theorem loopFuel_isSome (h : Decreases body measure) (fuel : ℕ) (s : σ) (hf : measure s < fuel) :
    (loopFuel body fuel s).isSome = true := by
  induction fuel generalizing s with
  | zero => omega
  | succ fuel ih =>
    rw [loopFuel]
    cases hb : body s with
    | inl a => rfl
    | inr t =>
      have hlt := h s t hb
      exact ih t (by omega)

/-- More fuel than the measure changes nothing. -/
theorem loopFuel_stable (h : Decreases body measure) (fuel fuel' : ℕ) (s : σ)
    (hf : measure s < fuel) (hf' : measure s < fuel') :
    loopFuel body fuel s = loopFuel body fuel' s := by
  induction fuel generalizing fuel' s with
  | zero => omega
  | succ fuel ih =>
    cases fuel' with
    | zero => omega
    | succ fuel' =>
      rw [loopFuel,loopFuel]
      cases hb : body s with
      | inl a => rfl
      | inr t =>
        have hlt := h s t hb
        exact ih fuel' t (by omega) (by omega)

variable (body measure)

def loop (h : Decreases body measure) (s : σ) : α :=
  (loopFuel body (measure s + 1) s).get (loopFuel_isSome h _ s (Nat.lt_succ_self _))

variable {body measure}

theorem some_loop (h : Decreases body measure) (s : σ) :
    some (loop body measure h s) = loopFuel body (measure s + 1) s := by
  rw [loop,Option.some_get]

theorem loop_eq (h : Decreases body measure) (s : σ) :
    loop body measure h s =
      match body s with
      | .inl a => a
      | .inr t => loop body measure h t := by
  apply Option.some.inj
  rw [some_loop,loopFuel]
  cases hb : body s with
  | inl a => rfl
  | inr t =>
    have hlt := h s t hb
    simp only [some_loop]
    exact loopFuel_stable h _ _ t hlt (Nat.lt_succ_self _)

/-- The result rule: what the body's results satisfy and continuations pass
back, the loop's result satisfies. -/
theorem loop_induction (h : Decreases body measure) {P : σ → α → Prop}
    (hdone : ∀ s a, body s = .inl a → P s a)
    (hnext : ∀ s t a, body s = .inr t → P t a → P s a) (s : σ) : P s (loop body measure h s) := by
  induction hm : measure s using Nat.strongRecOn generalizing s with
  | ind n ih =>
    rw [loop_eq]
    cases hb : body s with
    | inl a => exact hdone s a hb
    | inr t => exact hnext s t _ hb (ih _ (hm ▸ h s t hb) t rfl)

end Loop

section Monadic
variable {ε σ α β : Type} (body : β → EStateM ε σ (α ⊕ β)) (measure : β → σ → ℕ)

def iteration (p : β × σ) : EStateM.Result ε σ α ⊕ β × σ :=
  match body p.1 p.2 with
  | .ok (.inl a) s => .inl (.ok a s)
  | .ok (.inr b) s => .inr (b,s)
  | .error e s => .inl (.error e s)

def Lowers : Prop := ∀ b s b' s', body b s = .ok (.inr b') s' → measure b' s' < measure b s

variable {body measure}

theorem Lowers.decreases (h : Lowers body measure) :
    Decreases (iteration body) (fun p => measure p.1 p.2) := by
  rintro ⟨b,s⟩ ⟨b',s'⟩ hp
  apply h b s b' s'
  unfold iteration at hp
  split at hp
  · cases hp
  · cases hp
    assumption
  · cases hp

variable (body measure)

/-- A loop in a monad of states and errors, with an accumulator. An error leaves the
loop in the state it was raised in. -/
def loopM (h : Lowers body measure) (b : β) : EStateM ε σ α :=
  fun s => loop (iteration body) (fun p => measure p.1 p.2) h.decreases (b,s)

variable {body measure}

theorem loopM_of_stop (h : Lowers body measure) {b : β} {s s' : σ} {a : α}
    (hb : body b s = .ok (.inl a) s') : loopM body measure h b s = .ok a s' := by
  unfold loopM
  rw [loop_eq]
  simp only [iteration,hb]

theorem loopM_of_error (h : Lowers body measure) {b : β} {s s' : σ} {e : ε}
    (hb : body b s = .error e s') : loopM body measure h b s = .error e s' := by
  unfold loopM
  rw [loop_eq]
  simp only [iteration,hb]

theorem loopM_of_next (h : Lowers body measure) {b b' : β} {s s' : σ}
    (hb : body b s = .ok (.inr b') s') : loopM body measure h b s = loopM body measure h b' s' := by
  unfold loopM
  rw [loop_eq]
  simp only [iteration,hb]

/-- The result rule for loops with errors. -/
theorem loopM_induction (h : Lowers body measure) {P : β → σ → EStateM.Result ε σ α → Prop}
    (hstop : ∀ b s a s', body b s = .ok (.inl a) s' → P b s (.ok a s'))
    (herror : ∀ b s e s', body b s = .error e s' → P b s (.error e s'))
    (hnext : ∀ b s b' s' r, body b s = .ok (.inr b') s' → P b' s' r → P b s r) (b : β) (s : σ) :
    P b s (loopM body measure h b s) := by
  refine loop_induction (P := fun p r => P p.1 p.2 r) h.decreases ?_ ?_ (b,s)
  · rintro ⟨b,s⟩ r hp
    unfold iteration at hp
    split at hp
    · cases hp
      exact hstop b s _ _ ‹_›
    · cases hp
    · cases hp
      exact herror b s _ _ ‹_›
  · rintro ⟨b,s⟩ ⟨b',s'⟩ r hp hr
    unfold iteration at hp
    split at hp
    · cases hp
    · cases hp
      exact hnext b s b' s' r ‹_› hr
    · cases hp

end Monadic
end H12Tiny
