import H12Tiny.Foundation.Loop
import Mathlib.Data.List.Infix

/-! # Programs that follow a plan

A program that acts on its environment keeps a log of its acts in its state: the calls it
has made, or the bytes it has written. It follows a plan if it adds the acts of the plan in
their order and all of them for a value; where it fails it has added an initial part of the
plan, and the error fits that part. Plans of programs in sequence are put one behind the
other. Where nothing is done there is only the question which errors are raised.
-/
namespace H12Tiny.Plan
variable {C ε ε' σ α β : Type}

/-- What a program added to the log that it started with. -/
def Fits (log : σ → List C) (start plan : List C) (P : α → Prop) (Q : List C → ε → Prop) :
    EStateM.Result ε σ α → Prop
  | .ok a s => log s = start ++ plan ∧ P a
  | .error e s => ∃ made, made <+: plan ∧ log s = start ++ made ∧ Q made e

def Follows (log : σ → List C) (plan : List C) (P : α → Prop) (Q : List C → ε → Prop) (m : EStateM ε σ α) : Prop :=
  ∀ s, Fits log (log s) plan P Q (m s)

namespace Follows
variable {log : σ → List C} {plan : List C} {P : α → Prop} {Q : List C → ε → Prop} {m : EStateM ε σ α}

theorem pure {a : α} (h : P a) : Follows log [] P Q (pure a : EStateM ε σ α) :=
  fun _ => ⟨(List.append_nil _).symm,h⟩

theorem throw {e : ε} (h : Q [] e) : Follows log plan P Q (throw e : EStateM ε σ α) :=
  fun _ => ⟨[],List.nil_prefix,(List.append_nil _).symm,h⟩

theorem ofMapped {x : Except ε' α} {f : ε' → ε} (hok : ∀ a, x = .ok a → P a) (herror : ∀ e, x = .error e → Q [] (f e)) :
    Follows log [] P Q (MonadExcept.ofExcept (x.mapError f) : EStateM ε σ α) := by
  cases x with
  | ok a => exact pure (hok a rfl)
  | error e => exact throw (herror e rfl)

theorem weaken {P' : α → Prop} {Q' : List C → ε → Prop} (hm : Follows log plan P Q m) (hP : ∀ a, P a → P' a)
    (hQ : ∀ made e, made <+: plan → Q made e → Q' made e) : Follows log plan P' Q' m := by
  intro s
  have hfits := hm s
  generalize m s = result at hfits
  cases result with
  | ok a s' => exact ⟨hfits.1,hP a hfits.2⟩
  | error e s' =>
    obtain ⟨made,hmade,hlog,he⟩ := hfits
    exact ⟨made,hmade,hlog,hQ made e hmade he⟩

/-- The error of the second program is seen together with the plan of the first one. -/
theorem bind (plan after : List C) {R : β → Prop} {f : α → EStateM ε σ β} (hm : Follows log plan P Q m)
    (hf : ∀ a, P a → Follows log after R (fun made => Q (plan ++ made)) (f a)) :
    Follows log (plan ++ after) R Q (m >>= f) := by
  intro s
  have hfits := hm s
  change Fits log (log s) (plan ++ after) R Q (EStateM.bind m f s)
  unfold EStateM.bind
  generalize m s = result at hfits
  cases result with
  | ok a s' =>
    obtain ⟨hlog,ha⟩ := hfits
    have hnext := hf a ha s'
    simp only []
    generalize f a s' = result at hnext
    rw [hlog] at hnext
    cases result with
    | ok b s'' => exact ⟨hnext.1.trans (List.append_assoc _ _ _),hnext.2⟩
    | error e s'' =>
      obtain ⟨made,hmade,hlog',he⟩ := hnext
      exact ⟨plan ++ made,(List.prefix_append_right_inj plan).mpr hmade,hlog'.trans (List.append_assoc _ _ _),he⟩
  | error e s' =>
    obtain ⟨made,hmade,hlog,he⟩ := hfits
    exact ⟨made,hmade.trans (List.prefix_append _ _),hlog,he⟩

theorem adaptExcept {Q' : List C → ε' → Prop} {f : ε → ε'} (hm : Follows log plan P (fun made e => Q' made (f e)) m) :
    Follows log plan P Q' (EStateM.adaptExcept f m) := by
  intro s
  have hfits := hm s
  unfold EStateM.adaptExcept
  generalize m s = result at hfits
  cases result with
  | ok a s' => exact hfits
  | error e s' => exact hfits

end Follows

/-- The calls that a program has made are its state. -/
abbrev Program (C ε α : Type) := EStateM ε (List C) α

def call (c : C) (answer : Except ε α) : Program C ε α := fun calls =>
  match answer with
  | .ok a => .ok a (calls ++ [c])
  | .error e => .error e (calls ++ [c])

theorem call_follows {P : α → Prop} {Q : List C → ε → Prop} {c : C} {answer : Except ε α}
    (hok : ∀ a, answer = .ok a → P a) (herror : ∀ e, answer = .error e → Q [c] e) :
    Follows id [c] P Q (call c answer) := by
  intro calls
  cases answer with
  | ok a => exact ⟨rfl,hok a rfl⟩
  | error e => exact ⟨[c],List.prefix_refl _,rfl,herror e rfl⟩

theorem call_mapped {P : α → Prop} {Q : List C → ε → Prop} {c : C} {answer : Except ε' α} {f : ε' → ε}
    (hok : ∀ a, answer = .ok a → P a) (herror : ∀ e, answer = .error e → Q [c] (f e)) :
    Follows id [c] P Q (call c (answer.mapError f)) := by
  cases answer with
  | ok a => exact call_follows (fun _ h => by cases h; exact hok a rfl) fun _ h => by cases h
  | error e => exact call_follows (fun _ h => by cases h) fun _ h => by cases h; exact herror e rfl

/-- Every error of the computation has the property. -/
def Raises (Q : ε → Prop) (x : Except ε α) : Prop := ∀ e, x = .error e → Q e

namespace Raises
variable {Q : ε → Prop}

theorem ok {a : α} : Raises Q (.ok a) := fun _ h => by cases h

theorem error {e : ε} (h : Q e) : Raises Q (.error e : Except ε α) := fun _ he => by
  cases he
  exact h

theorem bind {x : Except ε α} {f : α → Except ε β} (hx : Raises Q x) (hf : ∀ a, Raises Q (f a)) :
    Raises Q (x >>= f) := by
  cases x with
  | ok a => exact hf a
  | error e => exact error (hx e rfl)

theorem map {x : Except ε α} {f : α → β} (hx : Raises Q x) : Raises Q (x.map f) := by
  cases x with
  | ok a => exact ok
  | error e => exact error (hx e rfl)

theorem mapError {ε' : Type} {x : Except ε' α} {f : ε' → ε} (hf : ∀ e, Q (f e)) : Raises Q (x.mapError f) := by
  cases x with
  | ok a => exact ok
  | error e => exact error (hf e)

theorem foldlM {f : β → α → Except ε β} (hf : ∀ b a, Raises Q (f b a)) (xs : List α) (b : β) :
    Raises Q (xs.foldlM f b) := by
  induction xs generalizing b with
  | nil => exact ok
  | cons x xs ih => exact bind (hf b x) ih

end Raises

theorem loopM_error {body : β → EStateM ε σ (α ⊕ β)} {measure : β → σ → ℕ} (h : Lowers body measure) {b : β}
    {s s' : σ} {e : ε} (hrun : loopM body measure h b s = .error e s') : ∃ b s, body b s = .error e s' := by
  have hall := loopM_induction h (P := fun _ _ result => ∀ e s', result = .error e s' → ∃ b s, body b s = .error e s')
    (fun _ _ _ _ _ _ _ he => by cases he) (fun b s e s' hbody _ _ he => by
      cases he
      exact ⟨b,s,hbody⟩) (fun _ _ _ _ _ _ hr => hr) b s
  exact hall e s' hrun

end H12Tiny.Plan
