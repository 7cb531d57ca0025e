import Mathlib.Algebra.GroupWithZero.Nat
import Mathlib.Data.Option.Basic
import Mathlib.Order.Nat

/-! # Numerals to a radix

Digits to a radix, the number they denote, and the integer parser of a standard library
whose only failure is that there is no number: a plus sign in front is skipped, a minus
sign is not a digit, and there has to be a digit. It accepts one or more digits that denote
a number in bounds, and the same behind one plus sign.
-/
namespace H12Tiny

def plus : UInt8 := 43

def digitValue (byte : UInt8) : Option ℕ :=
  if 48 ≤ byte ∧ byte ≤ 57 then some (byte.toNat - 48)
  else if 97 ≤ byte ∧ byte ≤ 102 then some (byte.toNat - 87)
  else if 65 ≤ byte ∧ byte ≤ 70 then some (byte.toNat - 55)
  else none

/-- One digit of `from_str_radix`, with the checked multiplication and addition. -/
def pushDigit (radix bound value : ℕ) (byte : UInt8) : Option ℕ :=
  (digitValue byte).bind fun digit =>
    if digit < radix ∧ value * radix + digit < bound then some (value * radix + digit) else none

/-- `from_str_radix` of an unsigned type. -/
def fromStrRadix (radix bound : ℕ) (src : List UInt8) : Option ℕ :=
  let digits := if src.head? = some plus then src.tail else src
  if digits = [] then none else digits.foldlM (pushDigit radix bound) 0

/-- The number denoted by digits to a radix behind those that denote `value`. -/
def numeral (radix value : ℕ) (digits : List UInt8) : ℕ :=
  digits.foldl (fun value byte => value * radix + (digitValue byte).getD 0) value

def isDigit (radix : ℕ) (byte : UInt8) : Bool := (digitValue byte).any (· < radix)

/-- The text is one or more digits that denote `n`, and `n` is in bounds. -/
structure Numeral (radix bound : ℕ) (text : List UInt8) (n : ℕ) : Prop where
  nonempty : text ≠ []
  digits : ∀ byte ∈ text, isDigit radix byte = true
  value : numeral radix 0 text = n
  fits : n < bound

def Signed (radix bound : ℕ) (text : List UInt8) (n : ℕ) : Prop :=
  ∃ digits, text = plus :: digits ∧ Numeral radix bound digits n

theorem numeral_cons (radix value : ℕ) (byte : UInt8) (digits : List UInt8) :
    numeral radix value (byte :: digits) =
      numeral radix (value * radix + (digitValue byte).getD 0) digits := rfl

theorem le_numeral {radix : ℕ} (hr : 0 < radix) (value : ℕ) (digits : List UInt8) :
    value ≤ numeral radix value digits := by
  induction digits generalizing value with
  | nil => exact le_rfl
  | cons byte digits ih =>
    rw [numeral_cons]
    refine le_trans ?_ (ih _)
    exact le_trans (Nat.le_mul_of_pos_right value hr) (Nat.le_add_right _ _)

theorem isDigit_iff {radix : ℕ} {byte : UInt8} :
    isDigit radix byte = true ↔ ∃ digit, digitValue byte = some digit ∧ digit < radix := by
  cases h : digitValue byte <;> simp [isDigit,h]

/-- The checked arithmetic of the parser computes the value when it is in bounds. -/
theorem foldlM_pushDigit_iff {radix bound value n : ℕ} {digits : List UInt8} (hr : 0 < radix) (hv : value < bound) :
    digits.foldlM (pushDigit radix bound) value = some n ↔
      (∀ byte ∈ digits, isDigit radix byte = true) ∧ numeral radix value digits = n ∧ n < bound := by
  induction digits generalizing value with
  | nil =>
    simp only [List.foldlM_nil,numeral,List.foldl_nil]
    constructor
    · intro h
      cases h
      exact ⟨List.forall_mem_nil _,rfl,hv⟩
    · rintro ⟨_,rfl,_⟩
      rfl
  | cons byte digits ih =>
    rw [List.foldlM_cons,numeral_cons,List.forall_mem_cons,isDigit_iff]
    cases hd : digitValue byte with
    | none => simp [pushDigit,hd]
    | some digit =>
      by_cases hb : digit < radix ∧ value * radix + digit < bound
      · have hpush : pushDigit radix bound value byte = some (value * radix + digit) := by
          simp [pushDigit,hd,hb]
        simp only [hpush,Option.bind_eq_bind,Option.bind_some,Option.getD_some,ih hb.2]
        simp [hb.1]
      · have hpush : pushDigit radix bound value byte = none := by
          simp [pushDigit,hd,hb]
        rw [hpush]
        constructor
        · intro h
          cases h
        · -- The digits that follow only add to a value that is already out of bounds.
          rintro ⟨⟨⟨_,hsome,hlt⟩,_⟩,he,hn⟩
          cases hsome
          have hge := le_numeral hr (value * radix + digit) digits
          rw [Option.getD_some] at he
          exact absurd ⟨hlt,by omega⟩ hb

theorem numeral_lt_pow {radix value : ℕ} {digits : List UInt8} (hd : ∀ byte ∈ digits, isDigit radix byte = true) :
    numeral radix value digits < (value + 1) * radix ^ digits.length := by
  induction digits generalizing value with
  | nil => simp [numeral]
  | cons byte digits ih =>
    obtain ⟨hbyte,hrest⟩ := List.forall_mem_cons.mp hd
    obtain ⟨digit,hdigit,hlt⟩ := isDigit_iff.mp hbyte
    have hle : value * radix + digit + 1 ≤ (value + 1) * radix := by
      rw [Nat.add_mul,Nat.one_mul]
      omega
    calc numeral radix value (byte :: digits)
        = numeral radix (value * radix + digit) digits := by rw [numeral_cons,hdigit,Option.getD_some]
      _ < (value * radix + digit + 1) * radix ^ digits.length := ih hrest
      _ ≤ (value + 1) * radix * radix ^ digits.length := Nat.mul_le_mul_right _ hle
      _ = (value + 1) * radix ^ (byte :: digits).length := by
        rw [List.length_cons,Nat.pow_succ',Nat.mul_assoc]

theorem plus_not_digit (radix : ℕ) : isDigit radix plus = false := rfl

theorem Numeral.not_plus {radix bound n : ℕ} {text : List UInt8} (h : Numeral radix bound text n) :
    text.head? ≠ some plus := by
  intro hp
  have hd := h.digits plus (List.mem_of_mem_head? hp)
  rw [plus_not_digit] at hd
  cases hd

theorem Numeral.unique {radix bound m n : ℕ} {text : List UInt8} (h : Numeral radix bound text m)
    (h' : Numeral radix bound text n) : m = n := h.value.symm.trans h'.value

theorem pushDigits_iff {radix bound n : ℕ} {digits : List UInt8} (hr : 0 < radix) (hb : 0 < bound) :
    (if digits = [] then none else digits.foldlM (pushDigit radix bound) 0) = some n ↔
      Numeral radix bound digits n := by
  split
  next hnil => exact ⟨nofun,fun h => absurd hnil h.nonempty⟩
  next hne =>
    rw [foldlM_pushDigit_iff hr hb]
    exact ⟨fun h => ⟨hne,h.1,h.2.1,h.2.2⟩,fun h => ⟨h.digits,h.value,h.fits⟩⟩

/-- The integer parser accepts the numerals in bounds, with a plus sign or without. -/
theorem fromStrRadix_iff {radix bound n : ℕ} {text : List UInt8} (hr : 0 < radix) (hb : 0 < bound) :
    fromStrRadix radix bound text = some n ↔ Numeral radix bound text n ∨ Signed radix bound text n := by
  unfold fromStrRadix
  by_cases hp : text.head? = some plus
  · obtain ⟨rest,rfl⟩ := List.head?_eq_some_iff.mp hp
    simp only [List.head?_cons,if_true,List.tail_cons,pushDigits_iff hr hb]
    constructor
    · intro h
      exact .inr ⟨rest,rfl,h⟩
    · rintro (h | ⟨_,he,h⟩)
      · exact absurd hp h.not_plus
      · cases he
        exact h
  · simp only [if_neg hp,pushDigits_iff hr hb]
    constructor
    · exact .inl
    · rintro (h | ⟨_,rfl,_⟩)
      · exact h
      · exact absurd rfl hp

theorem digitValue_range {byte : UInt8} {digit : ℕ} (h : digitValue byte = some digit) :
    digit < 16 ∧ byte.toNat ≤ 102 := by
  unfold digitValue at h
  split at h
  next hb =>
    cases h
    have hle := UInt8.le_iff_toNat_le.mp hb.2
    simp at hle
    omega
  next =>
    split at h
    next hb =>
      cases h
      have hle := UInt8.le_iff_toNat_le.mp hb.2
      simp at hle
      omega
    next =>
      split at h
      next hb =>
        cases h
        have hle := UInt8.le_iff_toNat_le.mp hb.2
        simp at hle
        omega
      next => cases h

theorem isDigit_ascii {radix : ℕ} {byte : UInt8} (h : isDigit radix byte = true) : byte < 0x80 := by
  obtain ⟨digit,hd,_⟩ := isDigit_iff.mp h
  have hle := (digitValue_range hd).2
  rw [UInt8.lt_iff_toNat_lt]
  simp
  omega

end H12Tiny
