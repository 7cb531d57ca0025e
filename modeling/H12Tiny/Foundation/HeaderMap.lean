import Mathlib.Data.List.Basic

/-! # Header maps

A header map as the fields it is iterated in: the values of one name keep the order in
which they were appended.
-/
namespace H12Tiny

abbrev HeaderMap (Name Value : Type) := List (Name × Value)

namespace HeaderMap
variable {Name Value : Type} [DecidableEq Name]

def getAll (headers : HeaderMap Name Value) (name : Name) : List Value :=
  (headers.filter fun field => field.1 = name).map Prod.snd

def containsKey (headers : HeaderMap Name Value) (name : Name) : Bool :=
  headers.any fun field => field.1 = name

def get (headers : HeaderMap Name Value) (name : Name) : Option Value := (headers.getAll name).head?

/-- Every value of the name is replaced by the new one, which takes the place of the first. -/
def insert (headers : HeaderMap Name Value) (name : Name) (value : Value) : HeaderMap Name Value :=
  match headers with
  | [] => [(name,value)]
  | field :: rest =>
    if field.1 = name then (name,value) :: rest.filter (fun other => other.1 ≠ name)
    else field :: insert rest name value

variable (headers : HeaderMap Name Value) (name : Name) (value : Value)

@[simp] theorem getAll_nil : getAll ([] : HeaderMap Name Value) name = [] := rfl

theorem getAll_cons (field : Name × Value) :
    getAll (field :: headers) name =
      if field.1 = name then field.2 :: getAll headers name else getAll headers name := by
  by_cases h : field.1 = name <;> simp [getAll,h]

theorem containsKey_iff : containsKey headers name = true ↔ getAll headers name ≠ [] := by
  simp [containsKey,getAll]

theorem containsKey_eq_false : containsKey headers name = false ↔ getAll headers name = [] := by
  rw [← Bool.not_eq_true,containsKey_iff,not_not]

@[simp] theorem getAll_insert_self : (headers.insert name value).getAll name = [value] := by
  induction headers with
  | nil => simp [insert,getAll]
  | cons field rest ih =>
    rw [insert]
    split
    next h => simp [getAll,List.filter_filter]
    next h => rw [getAll_cons,if_neg h,ih]

theorem getAll_insert_of_ne {other : Name} (h : other ≠ name) :
    (headers.insert name value).getAll other = headers.getAll other := by
  induction headers with
  | nil => simp [insert,getAll,h.symm]
  | cons field rest ih =>
    rw [insert]
    split
    next hfield =>
      have hother : field.1 ≠ other := hfield ▸ h.symm
      rw [getAll_cons,getAll_cons,if_neg h.symm,if_neg hother]
      simp only [getAll,List.filter_filter]
      congr 1
      refine List.filter_congr fun x _ => ?_
      by_cases hx : x.1 = other <;> simp [hx,h]
    next hfield => rw [getAll_cons,getAll_cons,ih]

end HeaderMap

end H12Tiny
