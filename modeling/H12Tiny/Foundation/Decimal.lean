import H12Tiny.Foundation.Numerals
import Mathlib.Data.Int.Notation
import Mathlib.Data.List.Basic
import Mathlib.Data.Nat.Notation
import Mathlib.Data.Option.Basic

/-! # Decimal notation

Numbers as they are written: a sign, digits with at most one point, and an exponent. The
notation is that of a lenient number parser. It allows leading zeros, a plus sign and a point
without digits on one side; a JSON number is written without any of these. A text is written
in this notation in at most one way, and the reader finds it.
-/
namespace H12Tiny

inductive Sign
  | plus
  | minus
  deriving DecidableEq

namespace Sign

def byte : Sign → UInt8
  | plus => 43
  | minus => 45

def text (sign : Option Sign) : List UInt8 := sign.elim [] fun sign => [sign.byte]

end Sign

def isDecimal (byte : UInt8) : Bool := 48 ≤ byte ∧ byte ≤ 57

def decimalValue (digits : List UInt8) : ℕ := digits.foldl (fun n byte => 10 * n + (byte.toNat - 48)) 0

abbrev Digits := {digits : List UInt8 // digits.all isDecimal = true}

structure Exponent where
  capital : Bool
  sign : Option Sign
  digits : Digits
  nonempty : digits.val ≠ []
  deriving DecidableEq

namespace Exponent

def mark (exponent : Exponent) : UInt8 := if exponent.capital then 69 else 101

def text (exponent : Exponent) : List UInt8 :=
  exponent.mark :: (Sign.text exponent.sign ++ exponent.digits.val)

end Exponent

/-- A number in decimal notation. There is a digit on one side of the point. -/
structure Decimal where
  sign : Option Sign
  whole : Digits
  fraction : Option Digits
  exponent : Option Exponent
  digit : whole.val ≠ [] ∨ fraction.any (·.val ≠ []) = true
  deriving DecidableEq

namespace Decimal

def fractionText (fraction : Option Digits) : List UInt8 := fraction.elim [] (46 :: ·.val)

def exponentText (exponent : Option Exponent) : List UInt8 := exponent.elim [] Exponent.text

def text (d : Decimal) : List UInt8 :=
  Sign.text d.sign ++ (d.whole.val ++ (fractionText d.fraction ++ exponentText d.exponent))

/-- The digits before the point, as JSON has them: without leading zeros. -/
def isJsonWhole (digits : List UInt8) : Bool := digits ≠ [] ∧ (digits.head? = some 48 → digits = [48])

/-- The number is written as JSON has it. -/
def isJson (d : Decimal) : Bool :=
  d.sign ≠ some .plus ∧ isJsonWhole d.whole.val = true ∧ d.fraction.all (·.val ≠ []) = true

/-- The power of ten that the digits are divided by, and the one they are multiplied by. -/
def divisor (d : Decimal) : ℕ :=
  (d.fraction.elim 0 (·.val.length)) +
    d.exponent.elim 0 fun e => if e.sign = some .minus then decimalValue e.digits.val else 0

def multiplier (d : Decimal) : ℕ :=
  d.exponent.elim 0 fun e => if e.sign = some .minus then 0 else decimalValue e.digits.val

def isBelow (limit : ℕ) (d : Decimal) : Bool :=
  decimalValue (d.whole.val ++ d.fraction.elim [] (·.val)) * Nat.pow 10 d.multiplier <
    limit * Nat.pow 10 d.divisor

/-- The text has neither a point nor an exponent and denotes the integer. -/
def IsInteger (d : Decimal) (n : ℤ) : Prop :=
  d.fraction = none ∧ d.exponent = none ∧
    n = if d.sign = some .minus then -(decimalValue d.whole.val : ℤ) else decimalValue d.whole.val

def integer (sign : Option Sign) (whole : Digits) (h : whole.val ≠ []) : Decimal := ⟨sign,whole,none,none,.inl h⟩

theorem integer_text (sign : Option Sign) (whole : Digits) (h : whole.val ≠ []) :
    (integer sign whole h).text = Sign.text sign ++ whole.val :=
  congrArg (Sign.text sign ++ ·) (List.append_nil whole.val)

theorem IsInteger.eq_integer {d : Decimal} {n : ℤ} (h : d.IsInteger n) : ∃ hne, d = integer d.sign d.whole hne := by
  obtain ⟨sign,whole,fraction,exponent,hdigit⟩ := d
  obtain ⟨rfl,rfl,-⟩ := h
  have hne : whole.val ≠ [] := by
    rcases hdigit with hwhole | hfraction
    · exact hwhole
    · cases hfraction
  exact ⟨hne,rfl⟩

end Decimal

section Reader

def readSign : List UInt8 → Option Sign × List UInt8
  | [] => (none,[])
  | byte :: rest =>
    if byte = Sign.plus.byte then (some .plus,rest)
    else if byte = Sign.minus.byte then (some .minus,rest)
    else (none,byte :: rest)

def readDigits (text : List UInt8) : Digits × List UInt8 :=
  (⟨text.takeWhile isDecimal,List.all_takeWhile⟩,text.dropWhile isDecimal)

def readFraction : List UInt8 → Option Digits × List UInt8
  | [] => (none,[])
  | byte :: rest =>
    if byte = 46 then (some (readDigits rest).1,(readDigits rest).2) else (none,byte :: rest)

def readExponent : List UInt8 → Option (Option Exponent)
  | [] => some none
  | byte :: rest =>
    let (sign,rest) := readSign rest
    let (digits,rest) := readDigits rest
    if h : (byte = 101 ∨ byte = 69) ∧ digits.val ≠ [] ∧ rest = [] then
      some (some ⟨byte = 69,sign,digits,h.2.1⟩)
    else none

def Decimal.read (text : List UInt8) : Option Decimal :=
  let (sign,rest) := readSign text
  let (whole,rest) := readDigits rest
  let (fraction,rest) := readFraction rest
  (readExponent rest).bind fun exponent =>
    if h : whole.val ≠ [] ∨ fraction.any (·.val ≠ []) = true then
      some ⟨sign,whole,fraction,exponent,h⟩
    else none

/-- The text does not begin with a byte of the class. -/
def Free (p : UInt8 → Bool) (text : List UInt8) : Prop := ∀ byte ∈ text.head?, p byte = false

def isSign (byte : UInt8) : Bool := byte = Sign.plus.byte ∨ byte = Sign.minus.byte

variable {p : UInt8 → Bool} {text rest : List UInt8}

theorem Free.nil : Free p [] := fun _ hmem => absurd hmem (by simp)

theorem Free.cons {byte : UInt8} (h : p byte = false) : Free p (byte :: rest) := by
  intro other hmem
  cases hmem
  exact h

theorem Free.append (htext : Free p text) (hrest : Free p rest) : Free p (text ++ rest) := by
  cases text with
  | nil => exact hrest
  | cons byte text => exact .cons (htext byte rfl)

theorem Free.digits (h : ∀ byte, isDecimal byte = true → p byte = false) (digits : Digits) :
    Free p digits.val := fun byte hmem =>
  h byte (List.all_eq_true.mp digits.property byte (List.mem_of_mem_head? hmem))

theorem isSign_decimal (byte : UInt8) (h : isDecimal byte = true) : isSign byte = false := by
  by_contra hsign
  rw [Bool.not_eq_false,isSign,decide_eq_true_eq] at hsign
  rcases hsign with rfl | rfl
  · exact absurd h (by decide)
  · exact absurd h (by decide)

theorem Free.fraction (h : p 46 = false) (fraction : Option Digits) :
    Free p (Decimal.fractionText fraction) := by
  cases fraction with
  | none => exact .nil
  | some digits => exact .cons h

theorem Free.exponent (h : p 101 = false) (h' : p 69 = false) (exponent : Option Exponent) :
    Free p (Decimal.exponentText exponent) := by
  cases exponent with
  | none => exact .nil
  | some e =>
    apply Free.cons
    rw [Exponent.mark]
    split
    · exact h'
    · exact h

theorem readSign_append (sign : Option Sign) (h : Free isSign rest) :
    readSign (Sign.text sign ++ rest) = (sign,rest) := by
  cases sign with
  | some sign =>
    cases sign with
    | plus => rfl
    | minus => rfl
  | none =>
    cases rest with
    | nil => rfl
    | cons byte rest =>
      have hbyte := h byte rfl
      rw [isSign,decide_eq_false_iff_not,not_or] at hbyte
      change readSign (byte :: rest) = _
      rw [readSign,if_neg hbyte.1,if_neg hbyte.2]

theorem Free.span (hrest : Free p rest) (htext : ∀ byte ∈ text, p byte = true) :
    (text ++ rest).takeWhile p = text ∧ (text ++ rest).dropWhile p = rest := by
  have hstop : rest.takeWhile p = [] ∧ rest.dropWhile p = rest := by
    cases rest with
    | nil => exact ⟨rfl,rfl⟩
    | cons byte rest => simp [hrest byte rfl]
  rw [List.takeWhile_append_of_pos htext,List.dropWhile_append_of_pos htext,hstop.1,hstop.2,List.append_nil]
  exact ⟨rfl,rfl⟩

theorem readDigits_append (digits : Digits) (h : Free isDecimal rest) :
    readDigits (digits.val ++ rest) = (digits,rest) := by
  obtain ⟨htake,hdrop⟩ := h.span (List.all_eq_true.mp digits.property)
  exact Prod.ext (Subtype.ext htake) hdrop

theorem readFraction_append (fraction : Option Digits) (h : Free isDecimal rest) (hpoint : Free (· == 46) rest) :
    readFraction (Decimal.fractionText fraction ++ rest) = (fraction,rest) := by
  cases fraction with
  | some digits =>
    change readFraction (46 :: (digits.val ++ rest)) = _
    rw [readFraction,if_pos rfl,readDigits_append digits h]
  | none =>
    cases rest with
    | nil => rfl
    | cons byte rest =>
      have hbyte := beq_eq_false_iff_ne.mp (hpoint byte rfl)
      change readFraction (byte :: rest) = _
      rw [readFraction,if_neg hbyte]

theorem readExponent_text (exponent : Option Exponent) :
    readExponent (Decimal.exponentText exponent) = some exponent := by
  cases exponent with
  | none => rfl
  | some e =>
    have hdigits := readDigits_append e.digits Free.nil
    rw [List.append_nil] at hdigits
    change readExponent (e.mark :: (Sign.text e.sign ++ e.digits.val)) = _
    rw [readExponent]
    simp only [readSign_append e.sign (Free.digits isSign_decimal e.digits),hdigits]
    obtain ⟨capital,sign,digits,hne⟩ := e
    cases capital with
    | true => simp [Exponent.mark,hne]
    | false => simp [Exponent.mark,hne]

namespace Decimal

theorem free_sign (d : Decimal) :
    Free isSign (d.whole.val ++ (fractionText d.fraction ++ exponentText d.exponent)) :=
  (Free.digits isSign_decimal d.whole).append ((Free.fraction rfl _).append (Free.exponent rfl rfl _))

theorem read_text (d : Decimal) : read d.text = some d := by
  have hexponent := Free.exponent (p := isDecimal) rfl rfl d.exponent
  rw [read,text]
  simp only [readSign_append d.sign d.free_sign,readDigits_append d.whole ((Free.fraction rfl _).append hexponent),
    readFraction_append d.fraction hexponent (Free.exponent rfl rfl _),readExponent_text,Option.bind_some,
    dif_pos d.digit]

end Decimal

theorem text_readSign (text : List UInt8) : Sign.text (readSign text).1 ++ (readSign text).2 = text := by
  cases text with
  | nil => rfl
  | cons byte rest =>
    rw [readSign]
    split
    next h => rw [h]; rfl
    next =>
      split
      next h => rw [h]; rfl
      next => rfl

theorem text_readDigits (text : List UInt8) : (readDigits text).1.val ++ (readDigits text).2 = text :=
  List.takeWhile_append_dropWhile

theorem text_readFraction (text : List UInt8) :
    Decimal.fractionText (readFraction text).1 ++ (readFraction text).2 = text := by
  cases text with
  | nil => rfl
  | cons byte rest =>
    rw [readFraction]
    split
    next h =>
      rw [h]
      exact congrArg (46 :: ·) (text_readDigits rest)
    next => rfl

theorem text_readExponent {exponent : Option Exponent} (h : readExponent text = some exponent) :
    Decimal.exponentText exponent = text := by
  cases text with
  | nil =>
    cases h
    rfl
  | cons byte rest =>
    rw [readExponent] at h
    dsimp only at h
    split at h
    next hshape =>
      have hrest := text_readSign rest
      rw [← text_readDigits (readSign rest).2,hshape.2.2,List.append_nil] at hrest
      cases h
      change Exponent.mark _ :: (Sign.text (readSign rest).1 ++ _) = _
      rw [hrest]
      rcases hshape.1 with rfl | rfl
      · rfl
      · rfl
    next => cases h

namespace Decimal

theorem text_of_read {d : Decimal} (h : read text = some d) : d.text = text := by
  rw [read] at h
  dsimp only at h
  obtain ⟨exponent,hexponent,hread⟩ := Option.bind_eq_some_iff.mp h
  have hend := text_readExponent hexponent
  clear h hexponent
  split at hread
  next =>
    cases hread
    rw [Decimal.text,hend,text_readFraction,text_readDigits,text_readSign]
  next => cases hread

theorem read_eq_some {d : Decimal} : read text = some d ↔ d.text = text :=
  ⟨text_of_read,fun h => h ▸ read_text d⟩

theorem text_injective {d d' : Decimal} (h : d.text = d'.text) : d = d' :=
  Option.some.inj ((read_text d).symm.trans (h ▸ read_text d'))

theorem head_minus {d : Decimal} : d.text.head? = some Sign.minus.byte ↔ d.sign = some .minus := by
  have hfree := d.free_sign
  rw [Decimal.text]
  cases d.sign with
  | none =>
    constructor
    · intro hhead
      exact absurd (hfree _ hhead) (by decide)
    · intro hsign
      cases hsign
  | some sign =>
    cases sign with
    | plus =>
      constructor
      · intro hhead
        exact absurd (Option.some.inj hhead) (by decide)
      · intro hsign
        cases hsign
    | minus => exact iff_of_true rfl rfl

end Decimal
end Reader
section Numerals

theorem isDigit_ten (byte : UInt8) : isDigit 10 byte = isDecimal byte := by
  unfold isDigit isDecimal digitValue
  split
  next h =>
    have hle := UInt8.le_iff_toNat_le.mp h.2
    rw [Option.any_some,decide_eq_true h,decide_eq_true_eq]
    change byte.toNat ≤ 57 at hle
    omega
  next h =>
    rw [decide_eq_false h]
    split
    next hletter =>
      have hge := UInt8.le_iff_toNat_le.mp hletter.1
      change 97 ≤ byte.toNat at hge
      rw [Option.any_some,decide_eq_false_iff_not]
      omega
    next =>
      split
      next hletter =>
        have hge := UInt8.le_iff_toNat_le.mp hletter.1
        change 65 ≤ byte.toNat at hge
        rw [Option.any_some,decide_eq_false_iff_not]
        omega
      next => rfl

theorem numeral_ten {text : List UInt8} (h : text.all isDecimal = true) : numeral 10 0 text = decimalValue text := by
  unfold numeral decimalValue
  refine List.foldl_ext _ _ _ fun value byte hbyte => ?_
  have hdecimal := List.all_eq_true.mp h byte hbyte
  rw [digitValue,if_pos (of_decide_eq_true hdecimal),Option.getD_some,Nat.mul_comm]

/-- The numerals to radix ten are the texts of decimal digits. -/
theorem numeral_ten_iff {bound n : ℕ} {text : List UInt8} :
    Numeral 10 bound text n ↔
      ∃ whole : Digits, whole.val = text ∧ whole.val ≠ [] ∧ decimalValue whole.val = n ∧ n < bound := by
  constructor
  · rintro ⟨hne,hdigits,hvalue,hfits⟩
    have hall : text.all isDecimal = true :=
      List.all_eq_true.mpr fun byte hbyte => isDigit_ten byte ▸ hdigits byte hbyte
    exact ⟨⟨text,hall⟩,rfl,hne,numeral_ten hall ▸ hvalue,hfits⟩
  · rintro ⟨whole,rfl,hne,hvalue,hfits⟩
    refine ⟨hne,fun byte hbyte => ?_,(numeral_ten whole.property).trans hvalue,hfits⟩
    rw [isDigit_ten]
    exact List.all_eq_true.mp whole.property byte hbyte

end Numerals

end H12Tiny
