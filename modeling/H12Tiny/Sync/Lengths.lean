import H12Tiny.Foundation.Except
import H12Tiny.Sync.Grammar
import H12Tiny.Sync.View
import Mathlib.Data.List.Forall2

/-! # The framing of a response

Which lengths and which header fields frame a body. Both length parsers delegate to the
integer parser of the standard library, so each accepts the numerals of its radix and,
besides them, numerals with a plus sign. The codings of the `Transfer-Encoding` fields
are collected with empty list elements left out, and only what is left decides whether
the fields count as present.
-/
namespace H12Tiny.Sync

section Lengths

/-- The part of a size line that is parsed as a number. -/
def chunkSizeText (line : Bytes) : Bytes := trimOws (line.takeWhile (· ≠ semicolon))

theorem u64Values_pos : 0 < u64Values := by decide

theorem parseChunkSize_iff (line : Bytes) (n : ℕ) :
    parseChunkSize line = .ok n ↔
      Numeral 16 u64Values (chunkSizeText line) n ∨ Signed 16 u64Values (chunkSizeText line) n := by
  rw [← fromStrRadix_iff (by decide) u64Values_pos]
  constructor
  · exact parseChunkSize_eq_ok
  · intro h
    have hutf8 := utf8Valid_of_fromStrRadix (by decide) u64Values_pos h
    rw [chunkSizeText] at h hutf8
    simp only [parseChunkSize,hutf8,if_true,h]

theorem parseContentLength_iff (value : Bytes) (n : ℕ) :
    parseContentLength value = .ok n ↔
      Numeral 10 u64Values (trimOws value) n ∨ Signed 10 u64Values (trimOws value) n := by
  rw [← fromStrRadix_iff (by decide) u64Values_pos]
  constructor
  · intro h
    unfold parseContentLength at h
    split at h
    · split at h
      next hsome =>
        cases h
        exact hsome
      next => cases h
    · cases h
  · intro h
    have hutf8 := utf8Valid_of_fromStrRadix (by decide) u64Values_pos h
    simp only [parseContentLength,hutf8,if_true,h]

theorem mergeContentLength_iff {Name Value : Type} (http : HeaderTypes Name Value) (contentLength : Option ℕ)
    (value : Value) (result : Option ℕ) :
    mergeContentLength http contentLength value = .ok result ↔
      ∃ n, result = some n ∧ parseContentLength (http.asBytes value) = .ok n ∧
        ∀ previous ∈ contentLength, previous = n := by
  unfold mergeContentLength
  cases hp : parseContentLength (http.asBytes value) with
  | error error =>
    constructor
    · intro h
      cases h
    · rintro ⟨_,_,h,_⟩
      cases h
  | ok n =>
    simp only [bind,Except.bind]
    cases contentLength with
    | none =>
      constructor
      · intro h
        cases h
        exact ⟨n,rfl,rfl,nofun⟩
      · rintro ⟨_,rfl,h,_⟩
        cases h
        rfl
    | some previous =>
      simp only [Option.mem_def,Option.some.injEq,forall_eq']
      by_cases he : previous = n
      · subst he
        rw [if_neg (not_not.mpr rfl)]
        constructor
        · intro h
          cases h
          exact ⟨previous,rfl,rfl,rfl⟩
        · rintro ⟨_,rfl,_,rfl⟩
          rfl
      · rw [if_pos he]
        constructor
        · intro h
          cases h
        · rintro ⟨m,_,h,hm⟩
          cases h
          exact absurd hm he

/-- A numeral is the only reading of a text that no sign stands in front of. -/
theorem readings_iff {radix : ℕ} {text : Bytes} :
    (∀ n, (Numeral radix u64Values text n ∨ Signed radix u64Values text n) ↔ Numeral radix u64Values text n) ↔
      ¬ ∃ n, Signed radix u64Values text n := by
  constructor
  · rintro h ⟨n,digits,rfl,hd⟩
    exact ((h n).mp (.inr ⟨digits,rfl,hd⟩)).not_plus rfl
  · intro h n
    exact ⟨fun hn => hn.resolve_right fun hs => h ⟨n,hs⟩,.inl⟩

end Lengths

section Framing
variable {Name Value : Type} (http : HeaderTypes Name Value)

theorem foldlM_mergeContentLength (values : List Value) (contentLength result : Option ℕ) :
    values.foldlM (mergeContentLength http) contentLength = .ok result ↔
      values = [] ∧ result = contentLength ∨
      values ≠ [] ∧ ∃ n, result = some n ∧ (∀ previous ∈ contentLength, previous = n) ∧
        ∀ value ∈ values, parseContentLength (http.asBytes value) = .ok n := by
  induction values generalizing contentLength with
  | nil =>
    simp only [List.foldlM_nil,true_and,ne_eq,not_true_eq_false,false_and,or_false]
    exact ⟨fun h => (Except.ok.inj h).symm,fun h => congrArg _ h.symm⟩
  | cons value values ih =>
    simp only [List.foldlM_cons,reduceCtorEq,false_and,ne_eq,not_false_eq_true,true_and,false_or,
      List.forall_mem_cons]
    constructor
    · intro h
      obtain ⟨merged,hmerged,hrest⟩ := bind_eq_ok.mp h
      obtain ⟨n,rfl,hn,hprevious⟩ := (mergeContentLength_iff http _ _ _).mp hmerged
      rcases (ih _).mp hrest with ⟨rfl,rfl⟩ | ⟨_,m,rfl,hm,hall⟩
      · exact ⟨n,rfl,hprevious,hn,List.forall_mem_nil _⟩
      · cases hm n rfl
        exact ⟨n,rfl,hprevious,hn,hall⟩
    · rintro ⟨n,rfl,hprevious,hn,hall⟩
      have hmerged := (mergeContentLength_iff http contentLength value _).mpr ⟨n,rfl,hn,hprevious⟩
      refine bind_eq_ok.mpr ⟨some n,hmerged,(ih _).mpr ?_⟩
      by_cases hnil : values = []
      · exact .inl ⟨hnil,rfl⟩
      · exact .inr ⟨hnil,n,rfl,fun m hm => (Option.some.inj hm).symm,hall⟩

variable [DecidableEq Name] (headers : HeaderMap Name Value)

theorem transferCodings_absent (h : headers.containsKey http.transferEncoding = false) :
    transferCodings http headers = [] := by
  rw [transferCodings,(HeaderMap.containsKey_eq_false _ _).mp h]
  rfl

theorem responseBodyMode_iff {status : StatusCode} (hstatus : status.isInformational = false)
    (hno : status ≠ .noContent) (hnot : status ≠ .notModified) (mode : BodyMode) :
    responseBodyMode http headers status false = .ok mode ↔
      (∃ coding, transferCodings http headers = [coding] ∧ eqIgnoreAsciiCase coding chunkedBytes = true ∧
        headers.containsKey http.contentLength = false ∧ mode = .chunked ⟨0,false,false⟩) ∨
      transferCodings http headers = [] ∧
        (headers.getAll http.contentLength = [] ∧ mode = .eof ∨
          headers.getAll http.contentLength ≠ [] ∧ ∃ n, mode = .contentLength n ∧
            ∀ value ∈ headers.getAll http.contentLength, parseContentLength (http.asBytes value) = .ok n) := by
  unfold responseBodyMode
  rw [if_neg (by simp [hstatus,hno,hnot])]
  cases hcodings : transferCodings http headers with
  | cons coding others =>
    simp only [reduceCtorEq,false_and,or_false,List.cons.injEq]
    constructor
    · intro h
      split at h
      · cases h
      next hguard =>
        cases h
        simp only [not_or,not_not,Bool.not_eq_true,Bool.not_eq_false] at hguard
        exact ⟨coding,⟨rfl,hguard.2.1⟩,hguard.2.2,hguard.1,rfl⟩
    · rintro ⟨_,⟨rfl,hothers⟩,hchunked,hlength,rfl⟩
      rw [if_neg (by simp [hlength,hothers,hchunked])]
  | nil =>
    simp only [List.ne_cons_self,false_and,exists_false,false_or,true_and,bind_eq_ok,
      foldlM_mergeContentLength,Option.not_mem_none,false_implies,implies_true,true_and]
    constructor
    · rintro ⟨_,⟨hnil,rfl⟩ | ⟨hne,n,rfl,hall⟩,h⟩
      · cases h
        exact .inl ⟨hnil,rfl⟩
      · cases h
        exact .inr ⟨hne,n,rfl,hall⟩
    · rintro (⟨hnil,rfl⟩ | ⟨hne,n,rfl,hall⟩)
      · exact ⟨none,.inl ⟨hnil,rfl⟩,rfl⟩
      · exact ⟨some n,.inr ⟨hne,n,rfl,hall⟩,rfl⟩

theorem responseBodyMode_length {status : StatusCode} (hstatus : status.isInformational = false)
    (hno : status ≠ .noContent) (hnot : status ≠ .notModified)
    (hte : headers.containsKey http.transferEncoding = false) (hne : headers.getAll http.contentLength ≠ [])
    (mode : BodyMode) : responseBodyMode http headers status false = .ok mode ↔
      ∃ n, mode = .contentLength n ∧ ∀ value ∈ headers.getAll http.contentLength,
        Numeral 10 u64Values (trimOws (http.asBytes value)) n ∨
          Signed 10 u64Values (trimOws (http.asBytes value)) n := by
  simp only [responseBodyMode_iff http headers hstatus hno hnot,transferCodings_absent http headers hte,
    parseContentLength_iff]
  constructor
  · rintro (⟨_,hcodings,_⟩ | ⟨_,⟨hnil,_⟩ | ⟨_,n,hmode,hall⟩⟩)
    · cases hcodings
    · exact absurd hnil hne
    · exact ⟨n,hmode,hall⟩
  · rintro ⟨n,hmode,hall⟩
    exact .inr ⟨trivial,.inr ⟨hne,n,hmode,hall⟩⟩

omit [DecidableEq Name] in
theorem common_readings_iff (fields : List Value) :
    (∀ mode : BodyMode, (∃ n, mode = .contentLength n ∧ ∀ field ∈ fields,
        Numeral 10 u64Values (trimOws (http.asBytes field)) n ∨
          Signed 10 u64Values (trimOws (http.asBytes field)) n) ↔
      ∃ n, mode = .contentLength n ∧ ∀ field ∈ fields,
        Numeral 10 u64Values (trimOws (http.asBytes field)) n) ↔
    ¬ ∃ n, (∀ field ∈ fields, Numeral 10 u64Values (trimOws (http.asBytes field)) n ∨
        Signed 10 u64Values (trimOws (http.asBytes field)) n) ∧
      ∃ field ∈ fields, Signed 10 u64Values (trimOws (http.asBytes field)) n := by
  constructor
  · rintro h ⟨n,hall,field,hfield,digits,hsigned,_⟩
    obtain ⟨_,_,hnumeral⟩ := (h (.contentLength n)).mp ⟨n,rfl,hall⟩
    have hplus := (hnumeral field hfield).not_plus
    rw [hsigned] at hplus
    exact hplus rfl
  · intro h mode
    constructor
    · rintro ⟨n,hmode,hall⟩
      refine ⟨n,hmode,fun field hfield => ?_⟩
      exact (hall field hfield).resolve_right fun hsigned => h ⟨n,hall,field,hfield,hsigned⟩
    · rintro ⟨n,hmode,hall⟩
      exact ⟨n,hmode,fun field hfield => .inl (hall field hfield)⟩

/-- The chunk size parser, the loop over the length fields and the framing that comes of it
accept by the grammar exactly the texts that are not a numeral behind a plus sign. -/
theorem lengths_by_grammar_iff (line : Bytes) (value : Value) :
    ((∀ n, parseChunkSize line = .ok n ↔ Numeral 16 u64Values (chunkSizeText line) n) ↔
      ¬ ∃ n, Signed 16 u64Values (chunkSizeText line) n) ∧
    ((∀ contentLength result, mergeContentLength http contentLength value = .ok result ↔
      ∃ n, result = some n ∧ Numeral 10 u64Values (trimOws (http.asBytes value)) n ∧
        ∀ previous ∈ contentLength, previous = n) ↔
      ¬ ∃ n, Signed 10 u64Values (trimOws (http.asBytes value)) n) ∧
    ∀ (headers : HeaderMap Name Value) (status : StatusCode), status.isInformational = false →
      status ≠ .noContent → status ≠ .notModified → headers.containsKey http.transferEncoding = false →
      headers.containsKey http.contentLength = true →
      ((∀ mode, responseBodyMode http headers status false = .ok mode ↔
        ∃ n, mode = .contentLength n ∧ ∀ field ∈ headers.getAll http.contentLength,
          Numeral 10 u64Values (trimOws (http.asBytes field)) n) ↔
        ¬ ∃ n, (∀ field ∈ headers.getAll http.contentLength,
            Numeral 10 u64Values (trimOws (http.asBytes field)) n ∨
              Signed 10 u64Values (trimOws (http.asBytes field)) n) ∧
          ∃ field ∈ headers.getAll http.contentLength, Signed 10 u64Values (trimOws (http.asBytes field)) n) := by
  refine ⟨?_,?_,?_⟩
  · simp only [parseChunkSize_iff]
    exact readings_iff
  · rw [← readings_iff]
    simp only [mergeContentLength_iff,← parseContentLength_iff]
    constructor
    · intro h n
      have hn := h none (some n)
      simpa using hn
    · intro h contentLength result
      simp only [h]
  · intro headers status hstatus hno hnot hte hlength
    have hne : headers.getAll http.contentLength ≠ [] := (HeaderMap.containsKey_iff _ _).mp hlength
    simp only [responseBodyMode_length http headers hstatus hno hnot hte hne]
    exact common_readings_iff http _

/-- The codings that the `Transfer-Encoding` fields list, all fields together. -/
def ListsCodings (codings : List Bytes) : Prop :=
  ∃ parts, List.Forall₂ (fun value texts => Lists (http.asBytes value) texts)
    (headers.getAll http.transferEncoding) parts ∧ parts.flatten = codings

theorem transferCodings_eq_flatMap : transferCodings http headers =
    (headers.getAll http.transferEncoding).flatMap fun value => listElements (http.asBytes value) := by
  simp only [transferCodings,List.map_flatMap,List.filter_flatMap,listElements]

theorem listsCodings_iff {codings : List Bytes} :
    ListsCodings http headers codings ↔ transferCodings http headers = codings := by
  have hparts : ∀ parts, List.Forall₂ (fun value texts => Lists (http.asBytes value) texts)
      (headers.getAll http.transferEncoding) parts ↔
      (headers.getAll http.transferEncoding).map (fun value => listElements (http.asBytes value)) = parts := by
    intro parts
    simp only [lists_iff]
    rw [← List.forall₂_map_left_iff (R := Eq),List.forall₂_eq_eq_eq]
  simp only [ListsCodings,hparts]
  rw [transferCodings_eq_flatMap,List.flatMap_def]
  constructor
  · rintro ⟨_,rfl,hcodings⟩
    exact hcodings
  · intro hcodings
    exact ⟨_,rfl,hcodings⟩

theorem parseContentLength_value (value : Bytes) (n : ℕ) :
    parseContentLength value = .ok n ↔ LengthIs value n ∨ SignedLengthIs value n := by
  rw [parseContentLength_iff,lengthIs_iff,signedLengthIs_iff]

/-- The framing that the fields of a response announce, when they announce one. -/
inductive Announced : BodyMode → Prop
  | chunked {coding : Bytes} : ListsCodings http headers [coding] →
      eqIgnoreAsciiCase coding chunkedBytes = true → headers.containsKey http.contentLength = false →
      Announced (.chunked ⟨0,false,false⟩)
  | contentLength {n : ℕ} : headers.containsKey http.transferEncoding = false →
      headers.containsKey http.contentLength = true →
      (∀ value ∈ headers.getAll http.contentLength, LengthIs (http.asBytes value) n) →
      Announced (.contentLength n)
  | eof : headers.containsKey http.transferEncoding = false →
      headers.containsKey http.contentLength = false → Announced .eof

/-- The fields are read as a framing they do not announce: `Transfer-Encoding` fields that
list no coding are passed over, or a length has a plus sign. -/
def Lenient : Prop :=
  ListsCodings http headers [] ∧
  (∃ n, ∀ value ∈ headers.getAll http.contentLength,
    LengthIs (http.asBytes value) n ∨ SignedLengthIs (http.asBytes value) n) ∧
  (headers.containsKey http.transferEncoding = true ∨
    ∃ value ∈ headers.getAll http.contentLength, ∃ n, SignedLengthIs (http.asBytes value) n)

section Announcing
variable {status : StatusCode} (hstatus : status.isInformational = false) (hno : status ≠ .noContent)
  (hnot : status ≠ .notModified) {mode : BodyMode}
include hstatus hno hnot

theorem Announced.accepted (h : Announced http headers mode) :
    responseBodyMode http headers status false = .ok mode := by
  rw [responseBodyMode_iff http headers hstatus hno hnot]
  cases h with
  | chunked hcodings hchunked hlength =>
    exact .inl ⟨_,(listsCodings_iff http headers).mp hcodings,hchunked,hlength,rfl⟩
  | contentLength hte hlength hall =>
    refine .inr ⟨transferCodings_absent http headers hte,.inr ⟨?_,_,rfl,?_⟩⟩
    · exact (HeaderMap.containsKey_iff _ _).mp hlength
    · intro value hvalue
      exact (parseContentLength_value _ _).mpr (.inl (hall value hvalue))
  | eof hte hlength =>
    exact .inr ⟨transferCodings_absent http headers hte,
      .inl ⟨(HeaderMap.containsKey_eq_false _ _).mp hlength,rfl⟩⟩

/-- With no coding listed, strict fields hold no `Transfer-Encoding` and only numerals. -/
theorem announced_of_strict (hstrict : ¬ Lenient http headers)
    (h : responseBodyMode http headers status false = .ok mode) : Announced http headers mode := by
  have habsent : ListsCodings http headers [] →
      (∃ n, ∀ value ∈ headers.getAll http.contentLength,
        LengthIs (http.asBytes value) n ∨ SignedLengthIs (http.asBytes value) n) →
      headers.containsKey http.transferEncoding = false := by
    intro hcodings hall
    by_contra hte
    exact hstrict ⟨hcodings,hall,.inl (Bool.of_not_eq_false hte)⟩
  simp only [responseBodyMode_iff http headers hstatus hno hnot,← listsCodings_iff,
    parseContentLength_value] at h
  rcases h with ⟨coding,hcodings,hchunked,hlength,rfl⟩ | ⟨hcodings,⟨hnil,rfl⟩ | ⟨hne,n,rfl,hall⟩⟩
  · exact .chunked hcodings hchunked hlength
  · refine .eof (habsent hcodings ⟨0,?_⟩) ((HeaderMap.containsKey_eq_false _ _).mpr hnil)
    rw [hnil]
    exact List.forall_mem_nil _
  · refine .contentLength (habsent hcodings ⟨n,hall⟩) ((HeaderMap.containsKey_iff _ _).mpr hne) ?_
    intro value hvalue
    rcases hall value hvalue with hn | hsigned
    · exact hn
    · exact absurd ⟨hcodings,⟨n,hall⟩,.inr ⟨value,hvalue,n,hsigned⟩⟩ hstrict

theorem Lenient.misread (h : Lenient http headers) :
    ∃ mode, responseBodyMode http headers status false = .ok mode ∧ ¬ Announced http headers mode := by
  simp only [responseBodyMode_iff http headers hstatus hno hnot,← listsCodings_iff,parseContentLength_value]
  obtain ⟨hcodings,⟨n,hall⟩,hlenient⟩ := h
  by_cases hnil : headers.getAll http.contentLength = []
  · refine ⟨.eof,.inr ⟨hcodings,.inl ⟨hnil,rfl⟩⟩,?_⟩
    rintro (_ | _ | ⟨habsent,_⟩)
    rcases hlenient with hte | ⟨value,hvalue,_⟩
    · exact Bool.false_ne_true (habsent.symm.trans hte)
    · rw [hnil] at hvalue
      cases hvalue
  · refine ⟨.contentLength n,.inr ⟨hcodings,.inr ⟨hnil,n,rfl,hall⟩⟩,?_⟩
    rintro (_ | ⟨habsent,_,hlength⟩)
    rcases hlenient with hte | ⟨value,hvalue,_,hsigned⟩
    · exact Bool.false_ne_true (habsent.symm.trans hte)
    · exact hsigned.not_lengthIs (hlength value hvalue)

end Announcing

/-- A body mode is accepted just when the fields announce it, for all fields that are not
read leniently. -/
theorem responseBodyMode_announced_iff {status : StatusCode} (hstatus : status.isInformational = false)
    (hno : status ≠ .noContent) (hnot : status ≠ .notModified) :
    (∀ mode, responseBodyMode http headers status false = .ok mode ↔ Announced http headers mode) ↔
      ¬ Lenient http headers := by
  constructor
  · intro h hlenient
    obtain ⟨mode,hmode,hmisread⟩ := hlenient.misread http headers hstatus hno hnot
    exact hmisread ((h mode).mp hmode)
  · intro hstrict mode
    constructor
    · exact announced_of_strict http headers hstatus hno hnot hstrict
    · exact Announced.accepted http headers hstatus hno hnot

end Framing

theorem lengths_by_grammar_plus :
    parseChunkSize [plus,53] = .ok 5 ∧ (¬ ∃ n, Numeral 16 u64Values (chunkSizeText [plus,53]) n) ∧
    mergeContentLength byteHeaders none [plus,53] = .ok (some 5) ∧
      ¬ ∃ n, Numeral 10 u64Values (trimOws (byteHeaders.asBytes [plus,53])) n :=
  ⟨rfl,fun ⟨_,h⟩ => h.not_plus rfl,rfl,fun ⟨_,h⟩ => h.not_plus rfl⟩

/-- A size and two lengths with blanks around them. -/
theorem lengths_by_grammar_blanks :
    parseChunkSize [32,49,97,9,semicolon,120] = .ok 26 ∧
    Numeral 16 u64Values (chunkSizeText [32,49,97,9,semicolon,120]) 26 ∧
    responseBodyMode byteHeaders
      [(byteHeaders.contentLength,[9,53,32]),(byteHeaders.contentLength,[48,53])] .notFound false =
        .ok (.contentLength 5) ∧
    Numeral 10 u64Values (trimOws [9,53,32]) 5 ∧ Numeral 10 u64Values (trimOws [48,53]) 5 := by
  have hsize := lengths_by_grammar_iff byteHeaders [32,49,97,9,semicolon,120] [9,53,32]
  have hline : ¬ ∃ n, Signed 16 u64Values (chunkSizeText [32,49,97,9,semicolon,120]) n := by
    rintro ⟨_,_,h,_⟩
    cases h
  have hlengths := hsize.2.2 [(byteHeaders.contentLength,[9,53,32]),(byteHeaders.contentLength,[48,53])]
    .notFound rfl (by decide) (by decide) rfl rfl
  have hfields : ∀ field ∈ [[9,53,32],[48,53]], ∀ n, ¬ Signed 10 u64Values (trimOws field) n := by
    intro field hfield n
    rcases List.mem_pair.mp hfield with rfl | rfl
    · rintro ⟨_,h,_⟩
      cases h
    · rintro ⟨_,h,_⟩
      cases h
  have hread := hlengths.mpr fun ⟨n,_,field,hfield,hsigned⟩ => hfields field hfield n hsigned
  obtain ⟨n,hn,hall⟩ := (hread (.contentLength 5)).mp rfl
  cases hn
  exact ⟨rfl,(hsize.1.mpr hline 26).mp rfl,rfl,hall _ List.mem_cons_self,
    hall _ (List.mem_cons_of_mem _ List.mem_cons_self)⟩

/-- A length of five, alone and behind a `Transfer-Encoding` field without a value. -/
def lengthField : HeaderMap Bytes Bytes := [(byteHeaders.contentLength,[53])]
def emptyCoding : HeaderMap Bytes Bytes := (byteHeaders.transferEncoding,[]) :: lengthField

/-- Two `Transfer-Encoding` fields, which list one coding together. -/
def codingFields : HeaderMap Bytes Bytes :=
  [(byteHeaders.transferEncoding,[32,comma]),(byteHeaders.transferEncoding,[9,67,72,117,110,107,101,100])]

theorem responseBodyMode_announced_length :
    Announced byteHeaders lengthField (.contentLength 5) ∧
    Announced byteHeaders codingFields (.chunked ⟨0,false,false⟩) := by
  have hinfo : StatusCode.notFound.isInformational = false := rfl
  have hlength : ¬ Lenient byteHeaders lengthField := by
    rintro ⟨_,_,h | ⟨value,hvalue,_,hsigned⟩⟩
    · cases h
    · cases List.mem_singleton.mp hvalue
      obtain ⟨_,htrim,_⟩ := signedLengthIs_iff.mp hsigned
      cases htrim
  have hcoding : ¬ Lenient byteHeaders codingFields := by
    rintro ⟨hcodings,_,_⟩
    cases (listsCodings_iff byteHeaders codingFields).mp hcodings
  have hfirst := (responseBodyMode_announced_iff byteHeaders lengthField hinfo (by decide) (by decide)).mpr hlength
  have hsecond := (responseBodyMode_announced_iff byteHeaders codingFields hinfo (by decide) (by decide)).mpr hcoding
  exact ⟨(hfirst _).mp rfl,(hsecond _).mp rfl⟩

theorem responseBodyMode_empty_coding :
    responseBodyMode byteHeaders emptyCoding .notFound false = .ok (.contentLength 5) ∧
    ¬ Announced byteHeaders emptyCoding (.contentLength 5) := by
  refine ⟨rfl,?_⟩
  intro h
  cases h with
  | contentLength habsent _ _ => cases habsent

end H12Tiny.Sync
