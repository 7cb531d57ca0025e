import Mathlib.Data.List.Forall2

/-! # Computations that may fail

A computation succeeds when each of its parts does. A loop that collects what one
fallible step makes of each element succeeds with the list of the results.
-/
namespace H12Tiny
variable {ε α β : Type}

theorem bind_eq_ok {x : Except ε α} {f : α → Except ε β} {b : β} :
    x >>= f = .ok b ↔ ∃ a, x = .ok a ∧ f a = .ok b := by
  cases x with
  | error e =>
    constructor
    · intro h
      cases h
    · rintro ⟨_,h,_⟩
      cases h
  | ok a =>
    constructor
    · intro h
      exact ⟨a,rfl,h⟩
    · rintro ⟨_,h,hf⟩
      cases h
      exact hf

theorem map_eq_ok {x : Except ε α} {f : α → β} {b : β} : x.map f = .ok b ↔ ∃ a, x = .ok a ∧ f a = b := by
  cases x with
  | error e => simp [Except.map]
  | ok a => simp [Except.map]

theorem bind_eq_error {x : Except ε α} {f : α → Except ε β} {e : ε} (h : x >>= f = .error e) :
    x = .error e ∨ ∃ a, x = .ok a ∧ f a = .error e := by
  cases x with
  | error e' =>
    cases h
    exact .inl rfl
  | ok a => exact .inr ⟨a,rfl,h⟩

theorem map_eq_error {x : Except ε α} {f : α → β} {e : ε} (h : x.map f = .error e) : x = .error e := by
  cases x with
  | error e' =>
    cases h
    rfl
  | ok a => cases h

theorem ite_error_eq_ok {p : Prop} [Decidable p] {e : ε} {x : Except ε α} {a : α} :
    (if p then .error e else x) = .ok a ↔ ¬p ∧ x = .ok a := by
  by_cases hp : p
  · simp [hp]
  · simp [hp]

/-- Each element has a result if and only if there is a list of the results. -/
theorem exists_forall₂_iff {R : α → β → Prop} {as : List α} :
    (∃ bs, List.Forall₂ R as bs) ↔ ∀ a ∈ as, ∃ b, R a b := by
  induction as with
  | nil => simp
  | cons a as ih =>
    rw [List.forall_mem_cons,← ih]
    constructor
    · rintro ⟨_,h⟩
      cases h with
      | cons hb hbs => exact ⟨⟨_,hb⟩,_,hbs⟩
    · rintro ⟨⟨b,hb⟩,bs,hbs⟩
      exact ⟨b :: bs,.cons hb hbs⟩

theorem foldlM_collect {f : α → Except ε β} {as : List α} {start result : List β} :
    as.foldlM (fun collected a => (f a).map fun b => collected ++ [b]) start = .ok result ↔
      ∃ bs, List.Forall₂ (fun a b => f a = .ok b) as bs ∧ result = start ++ bs := by
  induction as generalizing start with
  | nil =>
    simp only [List.foldlM_nil,List.forall₂_nil_left_iff,exists_eq_left,List.append_nil]
    exact ⟨fun h => (Except.ok.inj h).symm,fun h => congrArg _ h.symm⟩
  | cons a as ih =>
    rw [List.foldlM_cons,bind_eq_ok]
    simp only [map_eq_ok,ih,List.forall₂_cons_left_iff]
    constructor
    · rintro ⟨_,⟨b,hb,rfl⟩,bs,hbs,rfl⟩
      exact ⟨b :: bs,⟨b,bs,hb,hbs,rfl⟩,by simp⟩
    · rintro ⟨_,⟨b,bs,hb,hbs,rfl⟩,rfl⟩
      exact ⟨_,⟨b,hb,rfl⟩,bs,hbs,by simp⟩

theorem mapM_eq_ok {f : α → Except ε β} {as : List α} {bs : List β} :
    as.mapM f = .ok bs ↔ List.Forall₂ (fun a b => f a = .ok b) as bs := by
  induction as generalizing bs with
  | nil =>
    rw [List.mapM_nil,List.forall₂_nil_left_iff]
    exact ⟨fun h => (Except.ok.inj h).symm,fun h => congrArg _ h.symm⟩
  | cons a as ih =>
    rw [List.mapM_cons,bind_eq_ok,List.forall₂_cons_left_iff]
    simp only [bind_eq_ok,ih]
    constructor
    · rintro ⟨b,hb,bs',hbs,hok⟩
      exact ⟨b,bs',hb,hbs,(Except.ok.inj hok).symm⟩
    · rintro ⟨b,bs',hb,hbs,rfl⟩
      exact ⟨b,hb,bs',hbs,rfl⟩

end H12Tiny
