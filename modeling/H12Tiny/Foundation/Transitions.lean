import Mathlib.Data.List.Basic
import Mathlib.Logic.Basic

/-! # Runs of a labelled transition function

A system is a partial function from a state and an action to the next state. A
condition on the action and the state before it selects the runs a result is
about; the condition that always holds gives all runs. Invariants are proved by
one preservation step.
-/
namespace H12Tiny

section Reaches
variable {σ α : Type*} (step : σ → α → Option σ) (allowed : σ → α → Prop)

/-- The states reached from `s` by steps that each meet the condition in the
state before them. -/
inductive Reaches (s : σ) : σ → Prop
  | refl : Reaches s s
  | step {t u : σ} {a : α} : Reaches s t → allowed t a → step t a = some u → Reaches s u

/-- Executes a list of actions; `none` when one of them is not possible. -/
def runActions (s : σ) : List α → Option σ
  | [] => some s
  | a :: rest => (step s a).bind (fun t => runActions t rest)

def AllowedAlong (s : σ) : List α → Prop
  | [] => True
  | a :: rest => allowed s a ∧ ∀ t, step s a = some t → AllowedAlong t rest

variable {step allowed}

theorem Reaches.trans {s t u : σ} (h : Reaches step allowed s t) (h' : Reaches step allowed t u) :
    Reaches step allowed s u := by
  induction h' with
  | refl => exact h
  | step _ ha hs ih => exact .step ih ha hs

theorem Reaches.single {s t : σ} {a : α} (ha : allowed s a) (hs : step s a = some t) :
    Reaches step allowed s t := .step .refl ha hs

/-- The induction rule: a property of the start that every allowed step keeps. -/
theorem Reaches.invariant {I : σ → Prop}
    (hstep : ∀ {t u : σ} {a : α}, I t → allowed t a → step t a = some u → I u)
    {s t : σ} (hs : I s) (h : Reaches step allowed s t) : I t := by
  induction h with
  | refl => exact hs
  | step _ ha he ih => exact hstep ih ha he

/-- A second invariant may use the first one in every state before a step. -/
theorem Reaches.invariant_under {Base Inv : σ → Prop}
    (hbase : ∀ {t u : σ} {a : α}, Base t → allowed t a → step t a = some u → Base u)
    (hstep : ∀ {t u : σ} {a : α}, Base t → Inv t → allowed t a → step t a = some u → Inv u)
    {s t : σ} (hb : Base s) (hi : Inv s) (h : Reaches step allowed s t) : Base t ∧ Inv t :=
  Reaches.invariant (I := fun s => Base s ∧ Inv s)
    (fun hp ha he => ⟨hbase hp.1 ha he,hstep hp.1 hp.2 ha he⟩) ⟨hb,hi⟩ h

theorem Reaches.ofRun {s t : σ} {actions : List α} (ha : AllowedAlong step allowed s actions)
    (h : runActions step s actions = some t) : Reaches step allowed s t := by
  induction actions generalizing s with
  | nil => cases h; exact .refl
  | cons a rest ih =>
    obtain ⟨hhead,htail⟩ := ha
    obtain ⟨u,hu,hrest⟩ := Option.bind_eq_some_iff.mp h
    exact (Reaches.single hhead hu).trans (ih (htail u hu) hrest)

theorem runActions_append {s t u : σ} {before after : List α} (h : runActions step s before = some t)
    (h' : runActions step t after = some u) : runActions step s (before ++ after) = some u := by
  induction before generalizing s with
  | nil =>
    cases h
    exact h'
  | cons a rest ih =>
    obtain ⟨v,hv,hrest⟩ := Option.bind_eq_some_iff.mp h
    rw [List.cons_append,runActions,hv]
    exact ih hrest

theorem allowedAlong_of_forall {s : σ} {actions : List α}
    (h : ∀ t, ∀ a ∈ actions, allowed t a) : AllowedAlong step allowed s actions := by
  induction actions generalizing s with
  | nil => trivial
  | cons a rest ih =>
    exact ⟨h s a List.mem_cons_self,fun t _ => ih (fun t b hb => h t b (List.mem_cons_of_mem _ hb))⟩

end Reaches

/-- The runs from a state, with the actions they took. -/
inductive Trace {σ α : Type*} (step : σ → α → Option σ) (s : σ) : List α → σ → Prop
  | nil : Trace step s [] s
  | snoc {actions : List α} {t u : σ} {a : α} :
      Trace step s actions t → step t a = some u → Trace step s (actions ++ [a]) u

section Trace
variable {σ α : Type*} {step : σ → α → Option σ} {s t u : σ}

theorem Trace.append {before after : List α} (h : Trace step s before t)
    (h' : runActions step t after = some u) : Trace step s (before ++ after) u := by
  induction after generalizing before t with
  | nil =>
    cases h'
    rw [List.append_nil]
    exact h
  | cons a rest ih =>
    obtain ⟨v,hv,hrest⟩ := Option.bind_eq_some_iff.mp h'
    rw [List.append_cons]
    exact ih (h.snoc hv) hrest

theorem Trace.ofRun {actions : List α} (h : runActions step s actions = some t) : Trace step s actions t :=
  Trace.nil.append h

end Trace

end H12Tiny
