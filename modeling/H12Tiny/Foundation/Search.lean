import Mathlib.Data.List.Infix
import Mathlib.Data.Nat.Notation

/-! # First occurrence of a pattern

The position of the first occurrence of a list in another, as an incremental
reader looks for a delimiter: an occurrence that is found stays the first one when
more input arrives behind it.
-/
namespace H12Tiny
variable {α : Type*} [DecidableEq α]

/-- The position of the first window equal to the needle. -/
def findSub (needle : List α) : List α → Option ℕ
  | [] => if needle = [] then some 0 else none
  | x :: xs => if needle <+: x :: xs then some 0 else (findSub needle xs).map (· + 1)

variable {needle s t : List α} {i : ℕ}

theorem ne_of_not_mem {x : α} (h : x ∉ s) : ∀ y ∈ s, decide (y ≠ x) = true := fun _ hy =>
  decide_eq_true fun e => h (e ▸ hy)

theorem findSub_split (h : findSub needle s = some i) :
    s = s.take i ++ needle ++ s.drop (i + needle.length) := by
  induction s generalizing i with
  | nil =>
    rw [findSub] at h
    split at h
    · cases h
      simp [*]
    · cases h
  | cons x xs ih =>
    rw [findSub] at h
    split at h
    next hp =>
      cases h
      obtain ⟨rest,hrest⟩ := hp
      rw [← hrest]
      simp
    next =>
      obtain ⟨j,hj,rfl⟩ := Option.map_eq_some_iff.mp h
      have hsplit := ih hj
      rw [show j + 1 + needle.length = (j + needle.length) + 1 by omega]
      simp only [List.take_succ_cons,List.drop_succ_cons,List.cons_append]
      exact congrArg _ hsplit

theorem findSub_bound (h : findSub needle s = some i) : i + needle.length ≤ s.length := by
  induction s generalizing i with
  | nil =>
    rw [findSub] at h
    split at h
    · cases h
      simp [*]
    · cases h
  | cons x xs ih =>
    rw [findSub] at h
    split at h
    next hp =>
      cases h
      have hle := hp.length_le
      omega
    next =>
      obtain ⟨j,hj,rfl⟩ := Option.map_eq_some_iff.mp h
      have hle := ih hj
      simp only [List.length_cons]
      omega

/-- More input behind an occurrence does not move it. -/
theorem findSub_append (h : findSub needle s = some i) : findSub needle (s ++ t) = some i := by
  induction s generalizing i with
  | nil =>
    rw [findSub] at h
    split at h
    next hn =>
      cases h
      subst hn
      cases t with
      | nil => rfl
      | cons y ys => simp [findSub]
    next => cases h
  | cons x xs ih =>
    rw [findSub] at h
    rw [List.cons_append,findSub]
    split at h
    next hp =>
      cases h
      have hp' : needle <+: x :: (xs ++ t) := hp.trans (List.prefix_append (x :: xs) t)
      rw [if_pos hp']
    next hp =>
      obtain ⟨j,hj,rfl⟩ := Option.map_eq_some_iff.mp h
      have hbound := findSub_bound hj
      have hp' : ¬ needle <+: x :: (xs ++ t) := by
        intro hpre
        apply hp
        refine List.prefix_of_prefix_length_le hpre (List.prefix_append (x :: xs) t) ?_
        simp only [List.length_cons]
        omega
      rw [if_neg hp',ih hj]
      rfl

theorem findSub_of_append (h : findSub needle (s ++ t) = some i) (hle : i + needle.length ≤ s.length) :
    findSub needle s = some i := by
  induction s generalizing i with
  | nil =>
    rw [List.length_nil] at hle
    have hnil : needle = [] := List.eq_nil_of_length_eq_zero (by omega)
    have hi : i = 0 := by omega
    rw [findSub,if_pos hnil,hi]
  | cons x xs ih =>
    rw [List.cons_append,findSub] at h
    rw [findSub]
    split at h
    next hp =>
      cases h
      have hp' : needle <+: x :: xs :=
        List.prefix_of_prefix_length_le hp (List.prefix_append (x :: xs) t) (by omega)
      rw [if_pos hp']
    next hp =>
      have hp' : ¬ needle <+: x :: xs := fun hpre => hp (hpre.trans (List.prefix_append (x :: xs) t))
      obtain ⟨j,hj,rfl⟩ := Option.map_eq_some_iff.mp h
      simp only [List.length_cons] at hle
      rw [if_neg hp',ih hj (by omega)]
      rfl

/-- A prefix of a text that has its first occurrence elsewhere has none. -/
theorem findSub_prefix_none (h : findSub needle (s ++ t) = some i)
    (hlt : s.length < i + needle.length) : findSub needle s = none := by
  cases hs : findSub needle s with
  | none => rfl
  | some j =>
    have hj := (findSub_append hs).symm.trans h
    cases hj
    have hbound := findSub_bound hs
    omega

theorem findSub_skip {a : α} {rest : List α} (h : a ∉ s) :
    findSub (a :: rest) (s ++ t) = (findSub (a :: rest) t).map (· + s.length) := by
  induction s with
  | nil =>
    change findSub (a :: rest) t = (findSub (a :: rest) t).map id
    rw [Option.map_id]
    rfl
  | cons x xs ih =>
    simp only [List.mem_cons,not_or] at h
    have hne : ¬ (a :: rest) <+: x :: (xs ++ t) := fun hp => h.1 (List.cons_prefix_cons.mp hp).1
    rw [List.cons_append,findSub,if_neg hne,ih h.2,Option.map_map]
    rfl

theorem findSub_of_not_mem {a : α} {rest tail : List α} (h : a ∉ s) :
    findSub (a :: rest) (s ++ a :: rest ++ tail) = some s.length := by
  have hhere : findSub (a :: rest) (a :: rest ++ tail) = some 0 :=
    if_pos (List.prefix_append (a :: rest) tail)
  rw [List.append_assoc,findSub_skip h,hhere,Option.map_some,Nat.zero_add]

end H12Tiny
