import H12Tiny.Foundation.Except
import H12Tiny.Foundation.Json
import H12Tiny.Foundation.Loop
import H12Tiny.Http.RequestGrammar
import H12Tiny.Sync.Grammar
import H12Tiny.Sync.Request
import H12Tiny.Web.Limits

/-! # Queries as JSON

`decode_query_component`, `query_value_as_json`, `query_as_json` and the extractor of `Query`.
Texts are their bytes: every separator is ASCII, so splitting at a byte is splitting at a
character. The integer parsers are modelled; the parser and the printer of floating-point
numbers are the standard library's and the string writer is miniserde's, so that these are
parameters with the properties their documentation gives.
-/
namespace H12Tiny.Web
open Sync (Bytes utf8Valid u64Values)
open Normalize (digits)
open RequestGrammar (cut)

/-- A string: bytes in UTF-8. -/
structure Str where
  bytes : Bytes
  valid : utf8Valid bytes = true
  deriving DecidableEq

section Component

def hexDigit (byte : UInt8) : Option UInt8 :=
  if 48 ≤ byte ∧ byte ≤ 57 then some (byte - 48)
  else if 97 ≤ byte ∧ byte ≤ 102 then some (byte - 97 + 10)
  else if 65 ≤ byte ∧ byte ≤ 70 then some (byte - 65 + 10)
  else none

def invalidEscape : String := "invalid percent escape"

variable (input : Bytes)

/-- One pass of the loop over the bytes, with the index and the output so far. -/
def decodeBody (state : ℕ × Bytes) : Except String Bytes ⊕ ℕ × Bytes :=
  match input[state.1]? with
  | none => .inl (.ok state.2)
  | some byte =>
    if byte = 43 then .inr (state.1 + 1,state.2 ++ [32])
    else if byte = 37 then
      match input[state.1 + 1]?.bind hexDigit with
      | none => .inl (.error invalidEscape)
      | some high =>
        match input[state.1 + 2]?.bind hexDigit with
        | none => .inl (.error invalidEscape)
        | some low => .inr (state.1 + 3,state.2 ++ [high <<< 4 ||| low])
    else .inr (state.1 + 1,state.2 ++ [byte])

theorem decodeBody_decreases : Decreases (decodeBody input) fun state => input.length - state.1 := by
  intro state next h
  have hlt : state.1 < input.length ∧ state.1 < next.1 := by
    unfold decodeBody at h
    split at h
    next => cases h
    next byte hbyte =>
      refine ⟨(List.getElem?_eq_some_iff.mp hbyte).1,?_⟩
      split at h
      · cases h
        exact Nat.lt_succ_self _
      · split at h
        · split at h
          · cases h
          · split at h
            · cases h
            · cases h
              exact Nat.lt_add_of_pos_right (by decide)
        · cases h
          exact Nat.lt_succ_self _
  dsimp only
  omega

def decodeQueryComponent : Except String Str :=
  (loop (decodeBody input) _ (decodeBody_decreases input) (0,[])).bind fun output =>
    if h : utf8Valid output = true then .ok ⟨output,h⟩ else .error "query is not valid UTF-8"

end Component

section Integers

def minus : UInt8 := 45

/-- How many values of `i64` are not negative. -/
def i64Values : ℕ := 9223372036854775808

/-- `i64::from_str`. Below zero the digits are subtracted, so the least value is reached. -/
def parseI64 (src : Bytes) : Option ℤ :=
  if src.head? = some minus then
    if src.tail = [] then none
    else (src.tail.foldlM (pushDigit 10 (i64Values + 1)) 0).map fun n : ℕ => -(n : ℤ)
  else (fromStrRadix 10 i64Values src).map fun n : ℕ => (n : ℤ)

def parseU64 (src : Bytes) : Option ℕ := fromStrRadix 10 u64Values src

/-- `i64::to_string`. -/
def showInt (n : ℤ) : Bytes := if n < 0 then minus :: digits n.natAbs else digits n.natAbs

end Integers

/-- The parser and printer of `f64`, and `miniserde::json::to_string` of a string. -/
structure QueryLibrary where
  F64 : Type
  parse : Bytes → Option F64
  isFinite : F64 → Bool
  display : F64 → Bytes
  toJson : Str → Bytes
  display_number : ∀ x, isFinite x = true → Json.IsNumber (display x)
  toJson_literal : ∀ value, Json.StringLiteral (toJson value) value.bytes

section Writer
variable (lib : QueryLibrary)

def queryValueAsJson (value : Str) : Bytes :=
  if value.bytes ∈ Json.literals then value.bytes
  else
    match parseI64 value.bytes with
    | some number => showInt number
    | none =>
      match parseU64 value.bytes with
      | some number => digits number
      | none =>
        match lib.parse value.bytes with
        | some number => if lib.isFinite number then lib.display number else lib.toJson value
        | none => lib.toJson value

/-- One pass of the loop over the pairs, with the output so far and `has_pair`. -/
def pushPair (state : Bytes × Bool) (pair : Bytes) : Except String (Bytes × Bool) := do
  let (output,hasPair) := state
  let (rawKey,rawValue) := cut 61 pair
  let key ← decodeQueryComponent rawKey
  let value ← decodeQueryComponent rawValue
  let output := if hasPair then output ++ [44] else output
  .ok (output ++ lib.toJson key ++ [58] ++ queryValueAsJson lib value,true)

/-- The segments that hold a pair. -/
def segments (query : Bytes) : List Bytes := (query.splitOn 38).filter (· ≠ [])

def queryAsJson (query : Bytes) : Except String Bytes := do
  let (output,_) ← (segments query).foldlM (pushPair lib) ([123],false)
  .ok (output ++ [125])

/-- `Query::from_request`, with the decoder of the type that is asked for. -/
def queryFromRequest {T : Type} (fromStr : Bytes → Option T) (query : Option Bytes) : Except Rejection T :=
  ((queryAsJson lib (query.getD [])).bind fun json =>
    match fromStr json with
    | some value => .ok value
    | none => .error "invalid query").mapError fun error => ⟨.badRequest,"invalid query: " ++ error⟩

end Writer

/-- What an escape of two hexadecimal digits stands for. -/
def hexPair (high low : UInt8) : Option UInt8 :=
  (digitValue high).bind fun h => (digitValue low).map fun l => UInt8.ofNat (16 * h + l)

/-- The bytes of a component: a plus sign is a space, and an escape is the byte it stands for. -/
def unescape : Bytes → Option Bytes
  | [] => some []
  | byte :: rest =>
    if byte = 37 then
      match rest with
      | high :: low :: rest => (hexPair high low).bind fun decoded => (unescape rest).map (decoded :: ·)
      | _ => none
    else (unescape rest).map ((if byte = 43 then 32 else byte) :: ·)

section Decoding

theorem unescape_cons {byte : UInt8} (h : byte ≠ 37) (rest : Bytes) :
    unescape (byte :: rest) = (unescape rest).map ((if byte = 43 then 32 else byte) :: ·) := by
  rcases rest with _ | ⟨high,_ | ⟨low,rest⟩⟩
  · simp [unescape,h]
  · simp [unescape,h]
  · simp [unescape,h]

theorem unescape_escape (high low : UInt8) (rest : Bytes) :
    unescape (37 :: high :: low :: rest) =
      (hexPair high low).bind fun decoded => (unescape rest).map (decoded :: ·) := by
  rw [unescape,if_pos rfl]

theorem sub_add_eq {byte base : UInt8} {k : ℕ} (h : base ≤ byte) (hk : k ≤ base.toNat) :
    byte - base + UInt8.ofNat k = UInt8.ofNat (byte.toNat - (base.toNat - k)) := by
  have hle := UInt8.le_iff_toNat_le.mp h
  have hlt := byte.toNat_lt
  rw [← UInt8.toNat_inj,UInt8.toNat_add,UInt8.toNat_sub_of_le _ _ h,UInt8.toNat_ofNat',UInt8.toNat_ofNat']
  omega

theorem hexDigit_eq (byte : UInt8) : hexDigit byte = (digitValue byte).map UInt8.ofNat := by
  unfold hexDigit digitValue
  split
  next h => exact congrArg some ((UInt8.add_zero _).symm.trans (sub_add_eq h.1 (Nat.zero_le _)))
  next =>
    split
    next h => exact congrArg some (sub_add_eq h.1 (by decide))
    next =>
      split
      next h => exact congrArg some (sub_add_eq h.1 (by decide))
      next => rfl

theorem shift_or {h l : ℕ} (hh : h < 16) (hl : l < 16) :
    UInt8.ofNat h <<< 4 ||| UInt8.ofNat l = UInt8.ofNat (16 * h + l) := by
  have hall : ∀ h l : Fin 16, UInt8.ofNat h <<< 4 ||| UInt8.ofNat l = UInt8.ofNat (16 * h + l) := by decide
  exact hall ⟨h,hh⟩ ⟨l,hl⟩

theorem hexPair_eq (high low : UInt8) :
    hexPair high low = (hexDigit high).bind fun h => (hexDigit low).map fun l => h <<< 4 ||| l := by
  rw [hexPair,hexDigit_eq,hexDigit_eq]
  cases hhigh : digitValue high with
  | none => rfl
  | some h =>
    cases hlow : digitValue low with
    | none => rfl
    | some l => exact congrArg some (shift_or (digitValue_range hhigh).1 (digitValue_range hlow).1).symm

variable (input : Bytes)

def decodedFrom (state : ℕ × Bytes) : Except String Bytes :=
  (unescape (input.drop state.1)).elim (.error invalidEscape) fun bytes => .ok (state.2 ++ bytes)

theorem decodeBody_step (state : ℕ × Bytes) :
    decodeBody input state = .inl (decodedFrom input state) ∨
      ∃ next, decodeBody input state = .inr next ∧ decodedFrom input next = decodedFrom input state := by
  obtain ⟨index,output⟩ := state
  have hget : ∀ k, input[index + k]? = (input.drop index)[k]? := fun k => List.getElem?_drop.symm
  have hdrop : ∀ k, input.drop (index + k) = (input.drop index).drop k := fun k => List.drop_drop.symm
  have hfirst := hget 0
  rw [Nat.add_zero] at hfirst
  unfold decodeBody decodedFrom
  simp only [hfirst,hget]
  cases htext : input.drop index with
  | nil =>
    left
    rw [unescape,Option.elim_some,List.append_nil]
    rfl
  | cons byte rest =>
    by_cases hescape : byte = 37
    · -- The digits are looked for one after the other, and each may be missing.
      subst hescape
      simp only [List.getElem?_cons_zero,List.getElem?_cons_succ]
      rcases rest with _ | ⟨high,_ | ⟨low,rest⟩⟩
      · exact .inl rfl
      · left
        cases hhigh : hexDigit high with
        | none => simp [hhigh,unescape]
        | some h => simp [hhigh,unescape]
      · rw [unescape_escape,hexPair_eq]
        cases hhigh : hexDigit high with
        | none => simp [hhigh]
        | some h =>
          cases hlow : hexDigit low with
          | none => simp [hhigh,hlow]
          | some l =>
            right
            refine ⟨(index + 3,output ++ [h <<< 4 ||| l]),by simp [hhigh,hlow],?_⟩
            simp only [hdrop,htext,List.drop_succ_cons,List.drop_zero,Option.bind_some,Option.map_some]
            cases unescape rest with
            | none => rfl
            | some bytes => exact congrArg Except.ok (List.append_assoc _ _ _)
    · right
      refine ⟨(index + 1,output ++ [if byte = 43 then 32 else byte]),?_,?_⟩
      · rw [List.getElem?_cons_zero]
        by_cases hplus : byte = 43
        · simp [hplus]
        · simp [hplus,hescape]
      · rw [unescape_cons hescape]
        simp only [hdrop,htext,List.drop_succ_cons,List.drop_zero]
        cases unescape rest with
        | none => rfl
        | some bytes => exact congrArg Except.ok (List.append_assoc _ _ _)

theorem loop_decodeBody (state : ℕ × Bytes) :
    loop (decodeBody input) _ (decodeBody_decreases input) state = decodedFrom input state := by
  refine loop_induction (P := fun state result => result = decodedFrom input state)
    (decodeBody_decreases input) ?_ ?_ state
  · intro state result hbody
    rcases decodeBody_step input state with hstop | ⟨next,hnext,-⟩
    · rw [hstop] at hbody
      exact (Sum.inl.inj hbody).symm
    · rw [hnext] at hbody
      cases hbody
  · intro state next result hbody hresult
    rcases decodeBody_step input state with hstop | ⟨next',hnext,hsame⟩
    · rw [hstop] at hbody
      cases hbody
    · rw [hnext] at hbody
      cases hbody
      exact hresult.trans hsame

theorem decodeQueryComponent_ok {value : Str} :
    decodeQueryComponent input = .ok value ↔ unescape input = some value.bytes := by
  rw [decodeQueryComponent,loop_decodeBody,decodedFrom,List.drop_zero]
  cases unescape input with
  | none =>
    constructor
    · intro h
      cases h
    · intro h
      cases h
  | some bytes =>
    change (if h : utf8Valid bytes = true then Except.ok (⟨bytes,h⟩ : Str) else _) = _ ↔ _
    constructor
    · intro h
      split at h
      next => cases h; rfl
      next => cases h
    · intro h
      cases h
      rw [dif_pos value.valid]

end Decoding

section Integers

theorem digits_of_le {n : ℕ} (h : 10 ≤ n) : digits n = digits (n / 10) ++ digits (n % 10) := by
  rw [digits,digits,digits,Nat.toDigits_of_base_le (by decide) h,List.map_append,
    Nat.toDigits_of_lt_base (Nat.mod_lt n (by decide))]

theorem digits_head {n : ℕ} (h : n ≠ 0) : (digits n).head? ≠ some 48 := by
  induction n using Nat.strongRecOn with
  | ind n ih =>
    by_cases hlt : n < 10
    · have hall : ∀ n : Fin 10, n.val ≠ 0 → (digits n).head? ≠ some 48 := by decide
      exact hall ⟨n,hlt⟩ h
    · have hfirst := ih (n / 10) (by omega) (by omega)
      rw [digits_of_le (Nat.le_of_not_lt hlt),List.head?_append_of_ne_nil _ (Normalize.digits_ne_nil _)]
      exact hfirst

theorem digits_jsonWhole (n : ℕ) : Decimal.isJsonWhole (digits n) = true := by
  refine decide_eq_true ⟨Normalize.digits_ne_nil n,fun hzero => ?_⟩
  by_contra hne
  refine digits_head (fun hn => hne ?_) hzero
  rw [hn]
  rfl

def signed (sign : Option Sign) (n : ℕ) : Decimal :=
  .integer sign ⟨digits n,Normalize.digits_decimal n⟩ (Normalize.digits_ne_nil n)

theorem digits_isInteger (n : ℕ) : Json.IsInteger (digits n) n := by
  refine ⟨signed none n,Decimal.integer_text _ _ _,?_,rfl,rfl,?_⟩
  · exact decide_eq_true ⟨nofun,digits_jsonWhole n,rfl⟩
  · exact congrArg Int.ofNat (Normalize.decimalValue_digits n).symm

theorem showInt_isInteger (n : ℤ) : Json.IsInteger (showInt n) n := by
  unfold showInt
  split
  next hneg =>
    refine ⟨signed (some .minus) n.natAbs,Decimal.integer_text _ _ _,?_,rfl,rfl,?_⟩
    · exact decide_eq_true ⟨nofun,digits_jsonWhole _,rfl⟩
    · change n = -((decimalValue (digits n.natAbs) : ℕ) : ℤ)
      rw [Normalize.decimalValue_digits]
      omega
  next hpos =>
    have habs : (n.natAbs : ℤ) = n := by omega
    have hinteger := digits_isInteger n.natAbs
    rwa [habs] at hinteger

end Integers

section Values
variable (lib : QueryLibrary)

/-- What is written for a value is a literal, a number or a string. -/
theorem queryValueAsJson_scalar (value : Str) : Json.Scalar (queryValueAsJson lib value) := by
  unfold queryValueAsJson
  split
  next hliteral => exact .literal hliteral
  next =>
    split
    next n _ => exact .number (showInt_isInteger n).isNumber
    next =>
      split
      next n _ => exact .number (digits_isInteger n).isNumber
      next =>
        split
        next x _ =>
          split
          next hfinite => exact .number (lib.display_number x hfinite)
          next => exact .string (lib.toJson_literal value)
        next => exact .string (lib.toJson_literal value)

end Values

section Writing
variable (lib : QueryLibrary)

/-- A segment holds the pair: both sides of its first `=` are decoded to it. -/
def Holds (segment : Bytes) (pair : Str × Str) : Prop :=
  unescape (cut 61 segment).1 = some pair.1.bytes ∧ unescape (cut 61 segment).2 = some pair.2.bytes

def written (pair : Str × Str) : Bytes := lib.toJson pair.1 ++ 58 :: queryValueAsJson lib pair.2

variable {lib}

theorem pushPair_ok {output segment : Bytes} {hasPair : Bool} {state : Bytes × Bool} :
    pushPair lib (output,hasPair) segment = .ok state ↔
      ∃ pair, Holds segment pair ∧
        state = ((if hasPair then output ++ [44] else output) ++ written lib pair,true) := by
  simp only [pushPair,bind_eq_ok,decodeQueryComponent_ok]
  constructor
  · rintro ⟨key,hkey,value,hvalue,hstate⟩
    cases hstate
    refine ⟨(key,value),⟨hkey,hvalue⟩,?_⟩
    simp only [written,List.append_assoc,List.cons_append,List.nil_append]
  · rintro ⟨⟨key,value⟩,⟨hkey,hvalue⟩,hstate⟩
    refine ⟨key,hkey,value,hvalue,?_⟩
    rw [hstate]
    simp only [written,List.append_assoc,List.cons_append,List.nil_append]

/-- Once there is a pair, each one that follows is written behind a comma. -/
theorem foldlM_pushPair {output : Bytes} {texts : List Bytes} {state : Bytes × Bool} :
    texts.foldlM (pushPair lib) (output,true) = .ok state ↔
      ∃ pairs, List.Forall₂ Holds texts pairs ∧
        state = (output ++ pairs.flatMap (fun pair => 44 :: written lib pair),true) := by
  induction texts generalizing output with
  | nil =>
    simp only [List.foldlM_nil,List.forall₂_nil_left_iff,exists_eq_left,List.flatMap_nil,List.append_nil]
    exact ⟨fun h => (Except.ok.inj h).symm,fun h => congrArg Except.ok h.symm⟩
  | cons text texts ih =>
    simp only [List.foldlM_cons,bind_eq_ok,pushPair_ok,List.forall₂_cons_left_iff]
    constructor
    · rintro ⟨_,⟨pair,hpair,rfl⟩,hrest⟩
      obtain ⟨pairs,hpairs,rfl⟩ := ih.mp hrest
      refine ⟨pair :: pairs,⟨pair,pairs,hpair,hpairs,rfl⟩,?_⟩
      simp only [if_true,List.flatMap_cons,List.append_assoc,List.cons_append,List.nil_append]
    · rintro ⟨_,⟨pair,pairs,hpair,hpairs,rfl⟩,rfl⟩
      refine ⟨_,⟨pair,hpair,rfl⟩,ih.mpr ⟨pairs,hpairs,?_⟩⟩
      simp only [if_true,List.flatMap_cons,List.append_assoc,List.cons_append,List.nil_append]

/-- The query is converted when every segment holds a pair, and the object has one member for
each of them. -/
theorem queryAsJson_ok {query output : Bytes} :
    queryAsJson lib query = .ok output ↔
      ∃ pairs, List.Forall₂ Holds (segments query) pairs ∧
        output = Json.braced (Json.separated (pairs.map (written lib))) := by
  simp only [queryAsJson,bind_eq_ok]
  cases segments query with
  | nil =>
    simp only [List.foldlM_nil,List.forall₂_nil_left_iff,exists_eq_left]
    constructor
    · rintro ⟨_,hstate,houtput⟩
      cases hstate
      cases houtput
      rfl
    · rintro rfl
      exact ⟨_,rfl,rfl⟩
  | cons text texts =>
    simp only [List.foldlM_cons,bind_eq_ok,pushPair_ok,List.forall₂_cons_left_iff]
    constructor
    · rintro ⟨_,⟨_,⟨pair,hpair,rfl⟩,hrest⟩,houtput⟩
      obtain ⟨pairs,hpairs,rfl⟩ := foldlM_pushPair.mp hrest
      refine ⟨pair :: pairs,⟨pair,pairs,hpair,hpairs,rfl⟩,?_⟩
      cases houtput
      rw [List.map_cons,Json.separated_cons,List.flatMap_map]
      simp only [Json.braced,Bool.false_eq_true,if_false,List.append_assoc,List.cons_append,List.nil_append]
    · rintro ⟨_,⟨pair,pairs,hpair,hpairs,rfl⟩,rfl⟩
      refine ⟨_,⟨_,⟨pair,hpair,rfl⟩,foldlM_pushPair.mpr ⟨pairs,hpairs,rfl⟩⟩,?_⟩
      rw [List.map_cons,Json.separated_cons,List.flatMap_map]
      simp only [Json.braced,Bool.false_eq_true,if_false,List.append_assoc,List.cons_append,List.nil_append]

def member (lib : QueryLibrary) (pair : Str × Str) : Json.Member :=
  .compact (lib.toJson_literal pair.1) (queryValueAsJson lib pair.2)

/-- The output is an object with the keys as names and what is written for the values, and
with no other members. -/
theorem object_written (pairs : List (Str × Str)) (members : List (Bytes × Bytes)) :
    Json.Object (Json.braced (Json.separated (pairs.map (written lib)))) members ↔
      members = pairs.map fun pair => (pair.1.bytes,queryValueAsJson lib pair.2) := by
  have hcompact : ∀ m ∈ pairs.map (member lib), m.Compact := by
    intro m hm
    obtain ⟨pair,-,rfl⟩ := List.mem_map.mp hm
    exact ⟨Json.Member.text_compact _ _,queryValueAsJson_scalar lib pair.2⟩
  have htext : (pairs.map (member lib)).map Json.Member.text = pairs.map (written lib) := by
    rw [List.map_map]
    exact congrArg (List.map · pairs) (funext fun pair => Json.Member.text_compact _ _)
  have hentries : (pairs.map (member lib)).map Json.Member.entry =
      pairs.map fun pair => (pair.1.bytes,queryValueAsJson lib pair.2) := List.map_map
  rw [← htext,← hentries]
  constructor
  · exact Json.Object.unique hcompact
  · rintro rfl
    exact .members fun m hm => (hcompact m hm).scalar.value

end Writing

section Encoding

/-- The component is the content in form encoding. A byte is written as itself, unless it is a
space or has a meaning, or as an escape in either case; a space may also be a plus sign. -/
inductive Encodes : Bytes → Bytes → Prop
  | nil : Encodes [] []
  | plain {byte : UInt8} {component content : Bytes} (h : byte ∉ ([37,43,38,61,32] : Bytes))
      (rest : Encodes component content) : Encodes (byte :: component) (byte :: content)
  | space {component content : Bytes} (rest : Encodes component content) :
      Encodes (43 :: component) (32 :: content)
  | escape {high low byte : UInt8} {component content : Bytes} (hhigh : digitValue high = some (byte.toNat / 16))
      (hlow : digitValue low = some (byte.toNat % 16)) (rest : Encodes component content) :
      Encodes (37 :: high :: low :: component) (byte :: content)

def EncodesPair (segment : Bytes) (pair : Str × Str) : Prop :=
  ∃ key value, segment = key ++ 61 :: value ∧ Encodes key pair.1.bytes ∧ Encodes value pair.2.bytes

/-- The query is the pairs in form encoding, joined by `&`, with empty segments anywhere. -/
def FormEncoding (query : Bytes) (pairs : List (Str × Str)) : Prop :=
  ∃ parts : List Bytes, query = [38].intercalate parts ∧
    List.Forall₂ EncodesPair (parts.filter (· ≠ [])) pairs

/-- The keys and values of a query as they are written. -/
def components (query : Bytes) : List Bytes :=
  (segments query).flatMap fun segment => [(cut 61 segment).1,(cut 61 segment).2]

/-- There is a `%` that two hexadecimal digits do not follow. -/
def BadEscape (component : Bytes) : Prop :=
  ∃ index, component[index]? = some (37 : UInt8) ∧
    ¬ (component[index + 1]?.any Sync.isHex = true ∧ component[index + 2]?.any Sync.isHex = true)

theorem digitValue_ne {byte sep : UInt8} {n : ℕ} (h : digitValue byte = some n) (hsep : digitValue sep = none) :
    byte ≠ sep := by
  rintro rfl
  rw [h] at hsep
  cases hsep

theorem Encodes.not_mem {component content : Bytes} {sep : UInt8} (hsep : sep = 38 ∨ sep = 61)
    (h : Encodes component content) : sep ∉ component := by
  have hdigit : digitValue sep = none := by
    rcases hsep with rfl | rfl
    · rfl
    · rfl
  have hmarks : sep ≠ 37 ∧ sep ≠ 43 := by
    rcases hsep with rfl | rfl
    · decide
    · decide
  induction h with
  | nil => exact List.not_mem_nil
  | plain hplain rest ih =>
    refine List.not_mem_cons_of_ne_of_not_mem (fun he => hplain ?_) ih
    rcases hsep with rfl | rfl
    · simp [← he]
    · simp [← he]
  | space rest ih => exact List.not_mem_cons_of_ne_of_not_mem hmarks.2 ih
  | escape hhigh hlow rest ih =>
    exact List.not_mem_cons_of_ne_of_not_mem hmarks.1
      (List.not_mem_cons_of_ne_of_not_mem (digitValue_ne hhigh hdigit).symm
        (List.not_mem_cons_of_ne_of_not_mem (digitValue_ne hlow hdigit).symm ih))

theorem Encodes.unescape_eq {component content : Bytes} (h : Encodes component content) :
    unescape component = some content := by
  induction h with
  | nil => rfl
  | @plain byte component content hplain rest ih =>
    simp only [List.mem_cons,List.not_mem_nil,or_false,not_or] at hplain
    rw [unescape_cons hplain.1,ih,if_neg hplain.2.1]
    rfl
  | space rest ih =>
    rw [unescape_cons (by decide),ih]
    rfl
  | @escape high low byte component content hhigh hlow rest ih =>
    have hpair : hexPair high low = some byte := by
      rw [hexPair,hhigh,hlow,Option.bind_some,Option.map_some,Nat.div_add_mod,UInt8.ofNat_toNat]
    rw [unescape_escape,hpair,Option.bind_some,ih]
    rfl

theorem EncodesPair.holds {segment : Bytes} {pair : Str × Str} (h : EncodesPair segment pair) :
    Holds segment pair := by
  obtain ⟨key,value,rfl,hkey,hvalue⟩ := h
  rw [Holds,RequestGrammar.cut_append (hkey.not_mem (.inr rfl))]
  exact ⟨hkey.unescape_eq,hvalue.unescape_eq⟩

theorem EncodesPair.not_mem {segment : Bytes} {pair : Str × Str} (h : EncodesPair segment pair) :
    38 ∉ segment := by
  obtain ⟨key,value,rfl,hkey,hvalue⟩ := h
  rw [List.mem_append,List.mem_cons]
  rintro (hmem | hmem | hmem)
  · exact hkey.not_mem (.inl rfl) hmem
  · exact absurd hmem (by decide)
  · exact hvalue.not_mem (.inl rfl) hmem

theorem segments_intercalate {parts : List Bytes} (h : ∀ part ∈ parts, 38 ∉ part) :
    segments ([38].intercalate parts) = parts.filter (· ≠ []) := by
  rw [segments]
  by_cases hnil : parts = []
  · rw [hnil]
    rfl
  · rw [List.splitOn_intercalate 38 h hnil]

theorem FormEncoding.holds {query : Bytes} {pairs : List (Str × Str)} (h : FormEncoding query pairs) :
    List.Forall₂ Holds (segments query) pairs := by
  obtain ⟨parts,rfl,hparts⟩ := h
  rw [segments_intercalate]
  · exact hparts.imp fun _ _ hpair => hpair.holds
  · intro part hpart hmem
    have hne : part ≠ [] := List.ne_nil_of_mem hmem
    obtain ⟨pair,hpair⟩ := exists_forall₂_iff.mp ⟨pairs,hparts⟩ part
      (List.mem_filter.mpr ⟨hpart,decide_eq_true hne⟩)
    exact hpair.not_mem hmem

end Encoding

section Failures

/-- The component cannot be decoded: an escape is broken, or the bytes are not UTF-8. -/
def Undecodable (component : Bytes) : Prop :=
  BadEscape component ∨ ∃ bytes, unescape component = some bytes ∧ utf8Valid bytes = false

theorem badEscape_nil : ¬ BadEscape [] := by
  rintro ⟨index,hindex,-⟩
  cases hindex

theorem badEscape_cons {byte : UInt8} {rest : Bytes} :
    BadEscape (byte :: rest) ↔
      (byte = 37 ∧ ¬ (rest[0]?.any Sync.isHex = true ∧ rest[1]?.any Sync.isHex = true)) ∨ BadEscape rest := by
  constructor
  · rintro ⟨index,hindex,hdigits⟩
    cases index with
    | zero => exact .inl ⟨Option.some.inj hindex,hdigits⟩
    | succ index => exact .inr ⟨index,hindex,hdigits⟩
  · rintro (⟨rfl,hdigits⟩ | ⟨index,hindex,hdigits⟩)
    · exact ⟨0,rfl,hdigits⟩
    · exact ⟨index + 1,hindex,hdigits⟩

theorem badEscape_of_isHex {byte : UInt8} {rest : Bytes} (h : Sync.isHex byte = true) :
    BadEscape (byte :: rest) ↔ BadEscape rest := by
  have hne : byte ≠ 37 := by
    rintro rfl
    exact absurd h (by decide)
  rw [badEscape_cons,or_iff_right fun hbad => hne hbad.1]

theorem hexPair_eq_none {high low : UInt8} :
    hexPair high low = none ↔ ¬ (Sync.isHex high = true ∧ Sync.isHex low = true) := by
  rw [hexPair,Sync.isHex,Sync.isHex]
  cases digitValue high with
  | none => simp
  | some h =>
    cases digitValue low with
    | none => simp
    | some l => simp

theorem unescape_eq_none (component : Bytes) : unescape component = none ↔ BadEscape component := by
  induction component using unescape.induct with
  | case1 => exact ⟨nofun,fun h => absurd h badEscape_nil⟩
  | case2 high low rest ih =>
    rw [unescape_escape]
    by_cases hhex : Sync.isHex high = true ∧ Sync.isHex low = true
    · obtain ⟨decoded,hdecoded⟩ := Option.ne_none_iff_exists'.mp (mt hexPair_eq_none.mp (not_not.mpr hhex))
      have hdigits : ¬ ((37 : UInt8) = 37 ∧ ¬ ((high :: low :: rest)[0]?.any Sync.isHex = true ∧
          (high :: low :: rest)[1]?.any Sync.isHex = true)) := fun hbad => hbad.2 hhex
      rw [hdecoded,Option.bind_some,Option.map_eq_none_iff,ih,badEscape_cons,or_iff_right hdigits,
        badEscape_of_isHex hhex.1,badEscape_of_isHex hhex.2]
    · rw [hexPair_eq_none.mpr hhex]
      exact iff_of_true rfl (badEscape_cons.mpr (.inl ⟨rfl,hhex⟩))
  | case3 rest hshort =>
    have hbad : ¬ (rest[0]?.any Sync.isHex = true ∧ rest[1]?.any Sync.isHex = true) := by
      rcases rest with _ | ⟨high,_ | ⟨low,rest⟩⟩
      · simp
      · simp
      · exact (hshort high low rest rfl).elim
    refine iff_of_true ?_ (badEscape_cons.mpr (.inl ⟨rfl,hbad⟩))
    rw [unescape,if_pos rfl]
    exact hshort
  | case4 byte rest hplain ih =>
    rw [unescape_cons hplain,Option.map_eq_none_iff,ih,badEscape_cons,or_iff_right fun hbad => hplain hbad.1]

theorem undecodable_iff (component : Bytes) :
    Undecodable component ↔ ¬ ∃ value : Str, unescape component = some value.bytes := by
  rw [Undecodable,← unescape_eq_none]
  cases unescape component with
  | none => simp
  | some bytes =>
    constructor
    · rintro (hnone | ⟨_,hbytes,hinvalid⟩) ⟨value,hvalue⟩
      · cases hnone
      · cases hbytes
        rw [Option.some.inj hvalue,value.valid] at hinvalid
        cases hinvalid
    · intro hnot
      refine .inr ⟨bytes,rfl,?_⟩
      by_contra hvalid
      exact hnot ⟨⟨bytes,Bool.not_eq_false _ ▸ hvalid⟩,rfl⟩

/-- A segment holds a pair if neither of its components is undecodable. -/
theorem exists_holds_iff (segment : Bytes) :
    (∃ pair, Holds segment pair) ↔ ¬ Undecodable (cut 61 segment).1 ∧ ¬ Undecodable (cut 61 segment).2 := by
  rw [undecodable_iff,undecodable_iff,not_not,not_not]
  constructor
  · rintro ⟨pair,hkey,hvalue⟩
    exact ⟨⟨pair.1,hkey⟩,pair.2,hvalue⟩
  · rintro ⟨⟨key,hkey⟩,value,hvalue⟩
    exact ⟨(key,value),hkey,hvalue⟩

theorem queryAsJson_error (lib : QueryLibrary) (query : Bytes) :
    (∃ error, queryAsJson lib query = .error error) ↔ ∃ component ∈ components query, Undecodable component := by
  have hok : (∃ output, queryAsJson lib query = .ok output) ↔
      ∀ segment ∈ segments query, ∃ pair, Holds segment pair := by
    rw [← exists_forall₂_iff]
    constructor
    · rintro ⟨output,houtput⟩
      obtain ⟨pairs,hpairs,-⟩ := queryAsJson_ok.mp houtput
      exact ⟨pairs,hpairs⟩
    · rintro ⟨pairs,hpairs⟩
      exact ⟨_,queryAsJson_ok.mpr ⟨pairs,hpairs,rfl⟩⟩
  have herror : (∃ error, queryAsJson lib query = .error error) ↔ ¬ ∃ output, queryAsJson lib query = .ok output := by
    cases queryAsJson lib query with
    | error error => simp
    | ok output => simp
  rw [herror,hok]
  simp only [exists_holds_iff,components,List.mem_flatMap,List.mem_cons,List.not_mem_nil,or_false,not_forall]
  constructor
  · rintro ⟨segment,hsegment,hnot⟩
    by_cases hkey : Undecodable (cut 61 segment).1
    · exact ⟨_,⟨segment,hsegment,.inl rfl⟩,hkey⟩
    · exact ⟨_,⟨segment,hsegment,.inr rfl⟩,not_not.mp fun hvalue => hnot ⟨hkey,hvalue⟩⟩
  · rintro ⟨_,⟨segment,hsegment,rfl | rfl⟩,hbad⟩
    · exact ⟨segment,hsegment,fun hfine => hfine.1 hbad⟩
    · exact ⟨segment,hsegment,fun hfine => hfine.2 hbad⟩

/-- A form encoding of pairs is converted to an object with one member for each pair, and only
a component that cannot be decoded makes the conversion fail. -/
theorem queryAsJson_spec (lib : QueryLibrary) :
    (∀ pairs query, FormEncoding query pairs →
      ∃ output, queryAsJson lib query = .ok output ∧
        ∀ members, Json.Object output members ↔
          members = pairs.map fun pair => (pair.1.bytes,queryValueAsJson lib pair.2)) ∧
    ∀ query, (∃ error, queryAsJson lib query = .error error) ↔
      ∃ component ∈ components query,
        BadEscape component ∨ ∃ bytes, unescape component = some bytes ∧ utf8Valid bytes = false := by
  refine ⟨fun pairs query hencoding => ?_,queryAsJson_error lib⟩
  exact ⟨_,queryAsJson_ok.mpr ⟨pairs,hencoding.holds,rfl⟩,object_written pairs⟩

/-- Half way from the greatest number of 53 bits with this exponent to the power of two behind it. -/
def roundingLimit (exponent : ℕ) : ℕ := (Nat.pow 2 54 - 1) * Nat.pow 2 exponent

/-- From here on a number is rounded to an infinite `f64`. It is not meant to be evaluated. -/
@[irreducible] def f64Limit : ℕ := roundingLimit 970

/-- A library with decimal numbers for `f64`, which prints those that JSON has. -/
def decimalLibrary : QueryLibrary where
  F64 := Decimal
  parse := Decimal.read
  isFinite := Decimal.isBelow f64Limit
  display d := if d.isJson then d.text else digits 0
  toJson value := Json.quote value.bytes
  display_number d _ := by
    split
    next hjson => exact ⟨d,rfl,hjson⟩
    next => exact (digits_isInteger 0).isNumber
  toJson_literal value := Json.quote_literal value.bytes

/-- The pairs `a` with `" 7` and `b` with `-5`, written as `a=%22+7&&b=-5`. -/
theorem samplePairs_encoding : FormEncoding [97,61,37,50,50,43,55,38,38,98,61,45,53]
    [(⟨[97],rfl⟩,⟨[34,32,55],rfl⟩),(⟨[98],rfl⟩,⟨[45,53],rfl⟩)] := by
  refine ⟨[[97,61,37,50,50,43,55],[],[98,61,45,53]],rfl,.cons ?_ (.cons ?_ .nil)⟩
  · exact ⟨[97],[37,50,50,43,55],rfl,.plain (by decide) .nil,
      .escape rfl rfl (.space (.plain (by decide) .nil))⟩
  · exact ⟨[98],[45,53],rfl,.plain (by decide) .nil,.plain (by decide) (.plain (by decide) .nil)⟩

/-- The object has the members `"a":"\" 7"` and `"b":-5` and no others, and with `%2` for a
value there is none. -/
theorem queryAsJson_spec_decimal :
    (∃ output, queryAsJson decimalLibrary [97,61,37,50,50,43,55,38,38,98,61,45,53] = .ok output ∧
      output = [123,34,97,34,58,34,92,34,32,55,34,44,34,98,34,58,45,53,125] ∧
      ∀ members, Json.Object output members ↔ members = [([97],[34,92,34,32,55,34]),([98],[45,53])]) ∧
    ∃ error, queryAsJson decimalLibrary [97,61,37,50] = .error error := by
  obtain ⟨hok,herror⟩ := queryAsJson_spec decimalLibrary
  obtain ⟨output,houtput,hobject⟩ := hok _ _ samplePairs_encoding
  refine ⟨⟨output,houtput,?_,hobject⟩,?_⟩
  · have hwritten : queryAsJson decimalLibrary [97,61,37,50,50,43,55,38,38,98,61,45,53] =
        .ok [123,34,97,34,58,34,92,34,32,55,34,44,34,98,34,58,45,53,125] := rfl
    rw [houtput] at hwritten
    exact Except.ok.inj hwritten
  · refine (herror _).mpr ⟨[37,50],by decide,.inl ⟨0,rfl,?_⟩⟩
    rintro ⟨_,hlow⟩
    cases hlow

end Failures

section Extractor
variable (lib : QueryLibrary) {T : Type} (fromStr : Bytes → Option T) (query : Option Bytes)

/-- The extractor reads the value from the object, and refuses every other request as a bad one. -/
theorem queryFromRequest_ok (value : T) :
    queryFromRequest lib fromStr query = .ok value ↔
      ∃ json, queryAsJson lib (query.getD []) = .ok json ∧ fromStr json = some value := by
  unfold queryFromRequest
  cases queryAsJson lib (query.getD []) with
  | error error => simp [Except.bind,Except.mapError]
  | ok json =>
    cases hvalue : fromStr json with
    | none => simp [Except.bind,Except.mapError,hvalue]
    | some value' => simp [Except.bind,Except.mapError,hvalue]

theorem queryFromRequest_error {rejection : Rejection}
    (h : queryFromRequest lib fromStr query = .error rejection) : rejection.status = .badRequest := by
  unfold queryFromRequest at h
  generalize (queryAsJson lib (query.getD [])).bind _ = result at h
  cases result with
  | error error =>
    cases h
    rfl
  | ok value => cases h

end Extractor
end H12Tiny.Web
