import H12Tiny.Web.Query

/-! # Which query values become numbers

The three number parsers that a query value is tried with read decimal notation, which is wider
than that of JSON: they take leading zeros, a plus sign and a point without digits on one side.
A value in that notation is written as another text, unless it is a JSON number to begin with.
-/
namespace H12Tiny.Web
open Sync (Bytes utf8Valid u64Values)
open Normalize (digits)

/-- The parser of `f64` reads decimal notation, and what is at least the limit is rounded to
infinity. The names of infinity and not-a-number are read too, but as such. -/
def ReadsDecimals (lib : QueryLibrary) : Prop := ∀ text,
  (∃ x, lib.parse text = some x ∧ lib.isFinite x = true) ↔ ∃ d : Decimal, d.text = text ∧ d.isBelow f64Limit = true

/-- The integer is a value of `i64` or of `u64`. -/
def InRange (n : ℤ) : Prop := (-(i64Values : ℤ) ≤ n ∧ n < i64Values) ∨ (0 ≤ n ∧ n < u64Values)

/-- What is no JSON primitive is written as the string it is, and an integer as itself. -/
def KeepsType (lib : QueryLibrary) (value : Str) : Prop :=
  (value.bytes ∉ Json.literals → ¬ Json.IsNumber value.bytes →
    Json.StringLiteral (queryValueAsJson lib value) value.bytes) ∧
  ∀ n, Json.IsInteger value.bytes n → InRange n → Json.IsInteger (queryValueAsJson lib value) n

section Parsers

theorem fromStrRadix_decimal {bound n : ℕ} {text : Bytes} (hb : 0 < bound) :
    fromStrRadix 10 bound text = some n ↔
      ∃ d : Decimal, d.text = text ∧ d.sign ≠ some .minus ∧ d.IsInteger n ∧ n < bound := by
  rw [fromStrRadix_iff (by decide) hb]
  constructor
  · rintro (h | ⟨_,rfl,h⟩)
    · obtain ⟨whole,htext,hne,hvalue,hfits⟩ := numeral_ten_iff.mp h
      refine ⟨.integer none whole hne,(Decimal.integer_text _ _ _).trans htext,nofun,⟨rfl,rfl,?_⟩,hfits⟩
      exact congrArg Int.ofNat hvalue.symm
    · obtain ⟨whole,htext,hne,hvalue,hfits⟩ := numeral_ten_iff.mp h
      refine ⟨.integer (some .plus) whole hne,?_,nofun,⟨rfl,rfl,?_⟩,hfits⟩
      · exact (Decimal.integer_text _ _ _).trans (congrArg (43 :: ·) htext)
      · exact congrArg Int.ofNat hvalue.symm
  · rintro ⟨d,rfl,hsign,hinteger,hfits⟩
    obtain ⟨hne,heq⟩ := hinteger.eq_integer
    have hvalue := hinteger.2.2
    rw [if_neg hsign,Int.natCast_inj] at hvalue
    have hnumeral : Numeral 10 bound d.whole.val n := numeral_ten_iff.mpr ⟨d.whole,rfl,hne,hvalue.symm,hfits⟩
    rw [heq,Decimal.integer_text]
    cases hs : d.sign with
    | none => exact .inl hnumeral
    | some sign =>
      cases sign with
      | plus => exact .inr ⟨_,rfl,hnumeral⟩
      | minus => exact absurd hs hsign

theorem parseI64_decimal {n : ℤ} {text : Bytes} :
    parseI64 text = some n ↔
      ∃ d : Decimal, d.text = text ∧ d.IsInteger n ∧ -(i64Values : ℤ) ≤ n ∧ n < i64Values := by
  unfold parseI64
  split
  next hminus =>
    obtain ⟨rest,rfl⟩ := List.head?_eq_some_iff.mp hminus
    have hpos : 0 < i64Values := by decide
    rw [List.tail_cons,← Option.map_none,← apply_ite]
    simp only [Option.map_eq_some_iff,pushDigits_iff (by decide : 0 < 10) (Nat.succ_pos i64Values)]
    constructor
    · rintro ⟨m,hnumeral,rfl⟩
      obtain ⟨whole,rfl,hne,rfl,hfits⟩ := numeral_ten_iff.mp hnumeral
      exact ⟨.integer (some .minus) whole hne,Decimal.integer_text _ _ _,⟨rfl,rfl,rfl⟩,by omega,by omega⟩
    · rintro ⟨d,htext,hinteger,hlow,-⟩
      have hsign : d.sign = some .minus := Decimal.head_minus.mp (htext ▸ rfl)
      obtain ⟨hne,heq⟩ := hinteger.eq_integer
      have hwhole : d.whole.val = rest := by
        rw [heq,Decimal.integer_text,hsign] at htext
        exact List.tail_eq_of_cons_eq htext
      have hn : -((decimalValue d.whole.val : ℕ) : ℤ) = n := by
        rw [hinteger.2.2,if_pos hsign]
      exact ⟨_,numeral_ten_iff.mpr ⟨d.whole,hwhole,hne,rfl,by omega⟩,hn⟩
  next hminus =>
    simp only [Option.map_eq_some_iff,fromStrRadix_decimal (by decide : 0 < i64Values)]
    constructor
    · rintro ⟨m,⟨d,htext,hsign,hinteger,hfits⟩,rfl⟩
      exact ⟨d,htext,hinteger,by omega,by omega⟩
    · rintro ⟨d,rfl,hinteger,hlow,hhigh⟩
      have hsign : d.sign ≠ some .minus := fun hs => hminus (Decimal.head_minus.mpr hs)
      have hn : ((decimalValue d.whole.val : ℕ) : ℤ) = n := by
        rw [hinteger.2.2,if_neg hsign]
      exact ⟨_,⟨d,rfl,hsign,hn.symm ▸ hinteger,by omega⟩,hn⟩

theorem parseU64_decimal {n : ℕ} {text : Bytes} :
    parseU64 text = some n ↔
      ∃ d : Decimal, d.text = text ∧ d.sign ≠ some .minus ∧ d.IsInteger n ∧ n < u64Values :=
  fromStrRadix_decimal (by decide)

theorem i64Values_lt : i64Values < u64Values := by decide

theorem u64Values_le_roundingLimit {exponent : ℕ} (h : 64 ≤ exponent) : u64Values ≤ roundingLimit exponent := by
  have hfactor : 1 ≤ Nat.pow 2 54 - 1 := by decide
  have hpower : Nat.pow 2 64 ≤ Nat.pow 2 exponent := Nat.pow_le_pow_right (by decide) h
  calc u64Values = 1 * Nat.pow 2 64 := rfl
    _ ≤ roundingLimit exponent := Nat.mul_le_mul hfactor hpower

theorem u64Values_le_f64Limit : u64Values ≤ f64Limit := by
  unfold f64Limit
  exact u64Values_le_roundingLimit (by decide)

theorem isBelow_of_integer {d : Decimal} {n : ℤ} (h : d.IsInteger n) (hn : n.natAbs < u64Values) :
    d.isBelow f64Limit = true := by
  have hlimit := hn.trans_le u64Values_le_f64Limit
  have hvalue : decimalValue d.whole.val = n.natAbs := by
    rw [h.2.2]
    split
    · rw [Int.natAbs_neg,Int.natAbs_natCast]
    · rw [Int.natAbs_natCast]
  generalize f64Limit = limit at hlimit ⊢
  refine decide_eq_true ?_
  simp only [Decimal.multiplier,Decimal.divisor,h.1,h.2.1,Option.elim_none,List.append_nil,hvalue]
  change n.natAbs * 1 < limit * 1
  omega

end Parsers

section Values
variable {lib : QueryLibrary} {value : Str}

/-- The value is a number in decimal notation that is not rounded to infinity. -/
def IsFiniteDecimal (text : Bytes) : Prop := ∃ d : Decimal, d.text = text ∧ d.isBelow f64Limit = true

theorem not_literal {text : Bytes} (h : IsFiniteDecimal text) : text ∉ Json.literals := by
  obtain ⟨d,rfl,-⟩ := h
  have hall : ∀ text ∈ Json.literals, Decimal.read text = none := by decide
  intro hmem
  have hread := hall _ hmem
  rw [Decimal.read_text] at hread
  cases hread

theorem parseI64_finite {n : ℤ} {text : Bytes} (h : parseI64 text = some n) : IsFiniteDecimal text := by
  obtain ⟨d,htext,hinteger,hlow,hhigh⟩ := parseI64_decimal.mp h
  have hlt := i64Values_lt
  exact ⟨d,htext,isBelow_of_integer hinteger (by omega)⟩

theorem parseU64_finite {n : ℕ} {text : Bytes} (h : parseU64 text = some n) : IsFiniteDecimal text := by
  obtain ⟨d,htext,-,hinteger,hfits⟩ := parseU64_decimal.mp h
  exact ⟨d,htext,isBelow_of_integer hinteger (by omega)⟩

theorem queryValueAsJson_number (hlib : ReadsDecimals lib) (h : IsFiniteDecimal value.bytes) :
    Json.IsNumber (queryValueAsJson lib value) := by
  obtain ⟨x,hparse,hfinite⟩ := (hlib value.bytes).mpr h
  rw [queryValueAsJson,if_neg (not_literal h)]
  split
  next n _ => exact (showInt_isInteger n).isNumber
  next =>
    split
    next n _ => exact (digits_isInteger n).isNumber
    next =>
      simp only [hparse,hfinite,if_true]
      exact lib.display_number x hfinite

theorem queryValueAsJson_string (hlib : ReadsDecimals lib) (hliteral : value.bytes ∉ Json.literals)
    (h : ¬ IsFiniteDecimal value.bytes) : queryValueAsJson lib value = lib.toJson value := by
  rw [queryValueAsJson,if_neg hliteral]
  split
  next n hn => exact absurd (parseI64_finite hn) h
  next =>
    split
    next n hn => exact absurd (parseU64_finite hn) h
    next =>
      split
      next x hx =>
        split
        next hfinite => exact absurd ((hlib value.bytes).mp ⟨x,hx,hfinite⟩) h
        next => rfl
      next => rfl

theorem queryValueAsJson_integer {n : ℤ} (h : Json.IsInteger value.bytes n) (hrange : InRange n) :
    Json.IsInteger (queryValueAsJson lib value) n := by
  obtain ⟨d,htext,-,hinteger⟩ := h
  have hlt := i64Values_lt
  have hpositive : 0 < i64Values := by decide
  have hliteral : value.bytes ∉ Json.literals := by
    refine not_literal ⟨d,htext,isBelow_of_integer hinteger ?_⟩
    rcases hrange with hrange | hrange
    · omega
    · omega
  rw [queryValueAsJson,if_neg hliteral]
  by_cases hsigned : -(i64Values : ℤ) ≤ n ∧ n < i64Values
  · rw [parseI64_decimal.mpr ⟨d,htext,hinteger,hsigned⟩]
    exact showInt_isInteger n
  · -- The integer is too great for `i64`, so that it has no minus sign.
    have hpos : 0 ≤ n ∧ n < u64Values := hrange.resolve_left hsigned
    have hnone : parseI64 value.bytes = none := by
      rw [Option.eq_none_iff_forall_ne_some]
      intro m hm
      obtain ⟨d',htext',hinteger',hsigned'⟩ := parseI64_decimal.mp hm
      have hsame : m = n := by
        rw [Decimal.text_injective (htext'.trans htext.symm)] at hinteger'
        exact hinteger'.2.2.trans hinteger.2.2.symm
      exact hsigned (hsame ▸ hsigned')
    have hn : ((n.toNat : ℕ) : ℤ) = n := Int.toNat_of_nonneg hpos.1
    have hsign : d.sign ≠ some .minus := by
      intro hminus
      have hvalue := hinteger.2.2
      rw [if_pos hminus] at hvalue
      omega
    rw [hnone,parseU64_decimal.mpr ⟨d,htext,hsign,hn.symm ▸ hinteger,by omega⟩]
    exact hn ▸ digits_isInteger n.toNat

/-- The types are kept except for numbers in decimal notation that JSON does not have. -/
theorem keepsType_iff (lib : QueryLibrary) (hlib : ReadsDecimals lib) (value : Str) :
    KeepsType lib value ↔
      ¬ ∃ d : Decimal, d.text = value.bytes ∧ d.isJson = false ∧ d.isBelow f64Limit = true := by
  constructor
  · rintro ⟨hstring,-⟩ ⟨d,htext,hjson,hbelow⟩
    have hfinite : IsFiniteDecimal value.bytes := ⟨d,htext,hbelow⟩
    have hnumber : ¬ Json.IsNumber value.bytes := by
      rintro ⟨d',htext',hjson'⟩
      rw [Decimal.text_injective (htext'.trans htext.symm),hjson] at hjson'
      cases hjson'
    obtain ⟨d',htext',-⟩ := queryValueAsJson_number hlib hfinite
    exact (hstring (not_literal hfinite) hnumber).not_decimal d' htext'
  · intro hnot
    refine ⟨fun hliteral hnumber => ?_,fun n => queryValueAsJson_integer⟩
    have hinfinite : ¬ IsFiniteDecimal value.bytes := by
      rintro ⟨d,htext,hbelow⟩
      have hjson : d.isJson = false := Bool.eq_false_iff.mpr fun hjson => hnumber ⟨d,htext,hjson⟩
      exact hnot ⟨d,htext,hjson,hbelow⟩
    rw [queryValueAsJson_string hlib hliteral hinfinite]
    exact lib.toJson_literal value

end Values

section Instances

theorem decimalLibrary_reads : ReadsDecimals decimalLibrary := by
  intro text
  constructor
  · rintro ⟨d,hread,hbelow⟩
    exact ⟨d,Decimal.text_of_read hread,hbelow⟩
  · rintro ⟨d,rfl,hbelow⟩
    exact ⟨d,Decimal.read_text d,hbelow⟩

/-- The text `v1`, which no parser reads. -/
def versionTag : Str := ⟨[118,49],rfl⟩

theorem keepsType_versionTag : KeepsType decimalLibrary versionTag := by
  refine (keepsType_iff decimalLibrary decimalLibrary_reads versionTag).mpr ?_
  rintro ⟨d,htext,-⟩
  have hread := Decimal.read_text d
  rw [htext] at hread
  cases hread

/-- The text `007`. -/
def zeroPadded : Str := ⟨[48,48,55],rfl⟩

/-- A number with leading zeros is no JSON number, and it is written as another one. -/
theorem zeroPadded_rewritten :
    zeroPadded.bytes ∉ Json.literals ∧ ¬ Json.IsNumber zeroPadded.bytes ∧
      queryValueAsJson decimalLibrary zeroPadded = [55] ∧
      ¬ Json.StringLiteral (queryValueAsJson decimalLibrary zeroPadded) zeroPadded.bytes ∧
      ¬ KeepsType decimalLibrary zeroPadded := by
  have hnumber : ¬ Json.IsNumber zeroPadded.bytes := by decide
  have hliteral : zeroPadded.bytes ∉ Json.literals := by decide
  have hwritten : queryValueAsJson decimalLibrary zeroPadded = [55] := rfl
  have hstring : ¬ Json.StringLiteral (queryValueAsJson decimalLibrary zeroPadded) zeroPadded.bytes := by
    intro hstring
    obtain ⟨d,htext,-⟩ := digits_isInteger 7
    exact hstring.not_decimal d htext
  exact ⟨hliteral,hnumber,hwritten,hstring,fun hkeeps => hstring (hkeeps.1 hliteral hnumber)⟩

end Instances
end H12Tiny.Web
