import Mathlib.Data.List.Count
import Mathlib.Data.List.Nodup
import Mathlib.Order.Basic

/-! # Tables of live handles

A program that hands out guards, receivers and other owned values is modelled by
a table per kind of value. Identifiers are never reused: the table carries the
proof that nothing is stored at or above its next identifier, so a fresh handle
cannot alias a live one. Counting the live handles that satisfy a test is the
one quantity the accounting arguments need, and each operation moves it by one
explicitly known summand.
-/
namespace H12Tiny

/-- Values stored under identifiers that are issued in increasing order. -/
@[ext] structure Table (α : Type*) where
  get : ℕ → Option α
  next : ℕ
  fresh : ∀ i, next ≤ i → get i = none

namespace Table
variable {α : Type*}

def empty : Table α := ⟨fun _ => none, 0, fun _ _ => rfl⟩

/-- Stores a new value; its identifier is the old `next`. -/
def alloc (t : Table α) (a : α) : Table α where
  get i := if i = t.next then some a else t.get i
  next := t.next + 1
  fresh i hi := by
    have hne : i ≠ t.next := by omega
    simpa [hne] using t.fresh i (by omega)

def remove (t : Table α) (i : ℕ) : Table α where
  get j := if j = i then none else t.get j
  next := t.next
  fresh j hj := by
    have h := t.fresh j hj
    split <;> simp [h]

def modify (t : Table α) (i : ℕ) (f : α → α) : Table α where
  get j := if j = i then (t.get i).map f else t.get j
  next := t.next
  fresh j hj := by
    have h := t.fresh j hj
    split
    · rename_i he; subst he; simp [h]
    · exact h

@[simp] theorem get_empty (i : ℕ) : (empty : Table α).get i = none := rfl
@[simp] theorem next_empty : (empty : Table α).next = 0 := rfl
@[simp] theorem next_alloc (t : Table α) (a : α) : (t.alloc a).next = t.next + 1 := rfl
@[simp] theorem next_remove (t : Table α) (i : ℕ) : (t.remove i).next = t.next := rfl
@[simp] theorem next_modify (t : Table α) (i : ℕ) (f : α → α) : (t.modify i f).next = t.next := rfl

theorem get_alloc (t : Table α) (a : α) (i : ℕ) :
    (t.alloc a).get i = if i = t.next then some a else t.get i := rfl
theorem get_remove (t : Table α) (i j : ℕ) :
    (t.remove i).get j = if j = i then none else t.get j := rfl
theorem get_modify (t : Table α) (i : ℕ) (f : α → α) (j : ℕ) :
    (t.modify i f).get j = if j = i then (t.get i).map f else t.get j := rfl

@[simp] theorem get_alloc_self (t : Table α) (a : α) : (t.alloc a).get t.next = some a := by
  simp [get_alloc]
@[simp] theorem get_remove_self (t : Table α) (i : ℕ) : (t.remove i).get i = none := by
  simp [get_remove]
@[simp] theorem get_modify_self (t : Table α) (i : ℕ) (f : α → α) :
    (t.modify i f).get i = (t.get i).map f := by simp [get_modify]
theorem get_remove_ne (t : Table α) {i j : ℕ} (h : j ≠ i) : (t.remove i).get j = t.get j := by
  simp [get_remove,h]
theorem get_modify_ne (t : Table α) {i j : ℕ} (f : α → α) (h : j ≠ i) :
    (t.modify i f).get j = t.get j := by simp [get_modify,h]

theorem lt_next {t : Table α} {i : ℕ} {a : α} (h : t.get i = some a) : i < t.next := by
  by_contra hn
  rw [t.fresh i (by omega)] at h
  cases h

theorem get_alloc_of_some {t : Table α} {i : ℕ} {a : α} (b : α) (h : t.get i = some a) :
    (t.alloc b).get i = some a := by
  have hlt := lt_next h
  rw [get_alloc,if_neg (by omega),h]

theorem get_alloc_cases {t : Table α} {i : ℕ} {a b : α} (h : (t.alloc b).get i = some a) :
    (i = t.next ∧ a = b) ∨ t.get i = some a := by
  rw [get_alloc] at h
  split at h
  · rename_i he
    exact Or.inl ⟨he,(Option.some.inj h).symm⟩
  · exact Or.inr h

theorem get_of_remove {t : Table α} {i j : ℕ} {a : α} (h : (t.remove i).get j = some a) :
    j ≠ i ∧ t.get j = some a := by
  rw [get_remove] at h
  split at h
  · cases h
  · rename_i hne
    exact ⟨hne,h⟩

theorem get_modify_cases {t : Table α} {i j : ℕ} {f : α → α} {a : α}
    (h : (t.modify i f).get j = some a) :
    (j = i ∧ ∃ b, t.get i = some b ∧ a = f b) ∨ (j ≠ i ∧ t.get j = some a) := by
  rw [get_modify] at h
  split at h
  · rename_i he
    obtain ⟨b,hb,hab⟩ := Option.map_eq_some_iff.mp h
    exact Or.inl ⟨he,b,hb,hab.symm⟩
  · rename_i hne
    exact Or.inr ⟨hne,h⟩

def count (p : α → Bool) (t : Table α) : ℕ := (List.range t.next).countP (fun i => (t.get i).any p)

@[simp] theorem count_empty (p : α → Bool) : count p empty = 0 := rfl

private theorem countP_update (f g : ℕ → Bool) (l : List ℕ) (hl : l.Nodup) (i : ℕ) (hi : i ∈ l)
    (h : ∀ j, j ≠ i → f j = g j) :
    l.countP f + (g i).toNat = l.countP g + (f i).toNat := by
  induction l with
  | nil => simp at hi
  | cons a rest ih =>
    obtain ⟨ha,hr⟩ := List.nodup_cons.mp hl
    rw [List.countP_cons,List.countP_cons]
    by_cases hai : a = i
    · subst hai
      have hc : rest.countP f = rest.countP g := by
        apply List.countP_congr
        intro j hj
        rw [h j (fun he => ha (he ▸ hj))]
      rw [hc]
      cases f a <;> cases g a <;> simp
    · have hi' : i ∈ rest := by
        rcases List.mem_cons.mp hi with he | he
        · exact absurd he.symm hai
        · exact he
      have hh := ih hr hi'
      rw [h a hai]
      omega

theorem count_alloc (p : α → Bool) (t : Table α) (a : α) :
    (t.alloc a).count p = t.count p + (p a).toNat := by
  unfold count
  rw [next_alloc,List.range_succ,List.countP_append]
  have hold : (List.range t.next).countP (fun i => ((t.alloc a).get i).any p) =
      (List.range t.next).countP (fun i => (t.get i).any p) := by
    apply List.countP_congr
    intro i hi
    have hne : i ≠ t.next := by have := List.mem_range.mp hi; omega
    rw [get_alloc,if_neg hne]
  rw [hold]
  cases hp : p a <;> simp [hp]

theorem count_modify (p : α → Bool) (t : Table α) {i : ℕ} {a : α} (f : α → α)
    (h : t.get i = some a) :
    (t.modify i f).count p + (p a).toNat = t.count p + (p (f a)).toNat := by
  have hu := countP_update (fun j => ((t.modify i f).get j).any p) (fun j => (t.get j).any p)
    (List.range t.next) List.nodup_range i (List.mem_range.mpr (lt_next h))
    (fun j hj => by simp only [get_modify_ne t f hj])
  simpa [count,h] using hu

theorem count_remove (p : α → Bool) (t : Table α) {i : ℕ} {a : α} (h : t.get i = some a) :
    (t.remove i).count p + (p a).toNat = t.count p := by
  have hu := countP_update (fun j => ((t.remove i).get j).any p) (fun j => (t.get j).any p)
    (List.range t.next) List.nodup_range i (List.mem_range.mpr (lt_next h))
    (fun j hj => by simp only [get_remove_ne t hj])
  simpa [count,h] using hu

theorem modify_modify (t : Table α) (i : ℕ) (f g : α → α) :
    (t.modify i f).modify i g = t.modify i (fun a => g (f a)) := by
  apply Table.ext
  · funext j
    by_cases hj : j = i
    · subst hj; simp [Function.comp_def]
    · simp [get_modify,hj]
  · rfl

theorem count_congr (p : α → Bool) {t u : Table α} (hn : t.next = u.next)
    (h : ∀ i, (t.get i).any p = (u.get i).any p) : t.count p = u.count p := by
  unfold count
  rw [hn]
  exact List.countP_congr (fun i _ => by simp only [h i])

theorem count_pos_iff {p : α → Bool} {t : Table α} :
    0 < t.count p ↔ ∃ i a, t.get i = some a ∧ p a = true := by
  unfold count
  rw [List.countP_pos_iff]
  constructor
  · rintro ⟨i,_,h⟩
    obtain ⟨a,ha,hp⟩ := (Option.any_eq_true _ _).mp h
    exact ⟨i,a,ha,hp⟩
  · rintro ⟨i,a,ha,hp⟩
    exact ⟨i,List.mem_range.mpr (lt_next ha),by rw [ha,Option.any_some,hp]⟩

/-- A test that at most one stored value passes tells handles apart. -/
theorem eq_of_count_le_one {p : α → Bool} {t : Table α} (h : t.count p ≤ 1) {i j : ℕ} {a b : α}
    (hi : t.get i = some a) (ha : p a = true) (hj : t.get j = some b) (hb : p b = true) : i = j := by
  by_contra hne
  have hremove := count_remove p t hi
  have hleft : 0 < (t.remove i).count p :=
    count_pos_iff.mpr ⟨j,b,(get_remove_ne t fun he => hne he.symm).trans hj,hb⟩
  rw [ha,Bool.toNat_true] at hremove
  omega

end Table
end H12Tiny
