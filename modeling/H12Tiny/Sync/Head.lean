import H12Tiny.Foundation.Except
import H12Tiny.Http.RequestGrammar
import H12Tiny.Normalize.Request
import H12Tiny.Sync.Response

/-! # The text of a response head

A response head as a server sends it: a status line and field lines, each ended by CRLF,
and an empty line. The end of the head is found where its text ends, whatever comes
behind it, and the text is parsed to the head.
-/
namespace H12Tiny.Sync
open Normalize (digits)
open RequestGrammar (fieldText cut cut_append not_mem_of_all fieldText_ne_nil)

section Lines

/-- Lines with CRLF between them. -/
def joinLines (line : Bytes) : List Bytes → Bytes
  | [] => line
  | next :: lines => line ++ cr :: lf :: joinLines next lines

theorem joinLines_ended (line : Bytes) (lines : List Bytes) :
    (line :: lines).flatMap (· ++ crlf) = joinLines line lines ++ crlf := by
  induction lines generalizing line with
  | nil => simp [joinLines]
  | cons next lines ih =>
    rw [List.flatMap_cons,ih next]
    simp [joinLines,crlf]

theorem joinLines_cons (line : Bytes) (lines : List Bytes) : ∃ rest, joinLines line lines = line ++ rest := by
  cases lines with
  | nil => exact ⟨[],(List.append_nil line).symm⟩
  | cons next lines => exact ⟨_,rfl⟩

/-- A line break is not the start of an empty line if another line follows. -/
theorem findHeadEnd_break {byte : UInt8} {rest : Bytes} (h : byte ≠ cr) :
    findHeadEnd (cr :: lf :: byte :: rest) = (findHeadEnd (byte :: rest)).map (· + 2) := by
  have hfirst : ¬ (crlf ++ crlf) <+: cr :: lf :: byte :: rest := by
    intro hp
    have hp' := (List.cons_prefix_cons.mp (List.cons_prefix_cons.mp hp).2).2
    exact h (List.cons_prefix_cons.mp hp').1.symm
  have hsecond : ¬ (crlf ++ crlf) <+: lf :: byte :: rest := fun hp =>
    absurd (List.cons_prefix_cons.mp hp).1 (by decide)
  rw [findHeadEnd,findSub,if_neg hfirst,findSub,if_neg hsecond,Option.map_map]
  rfl

theorem findHeadEnd_joinLines {line : Bytes} {lines : List Bytes} (hcr : ∀ text ∈ line :: lines, cr ∉ text)
    (hne : ∀ text ∈ lines, text ≠ []) (rest : Bytes) :
    findHeadEnd (joinLines line lines ++ (crlf ++ crlf) ++ rest) = some (joinLines line lines).length := by
  induction lines generalizing line with
  | nil => exact findSub_of_not_mem (hcr line List.mem_cons_self)
  | cons next lines ih =>
    have hrest := ih (fun text h => hcr text (List.mem_cons_of_mem _ h))
      (fun text h => hne text (List.mem_cons_of_mem _ h))
    obtain ⟨tail,htail⟩ := joinLines_cons next lines
    obtain ⟨byte,bytes,hnext⟩ := List.exists_cons_of_ne_nil (hne next List.mem_cons_self)
    have hbyte : byte ≠ cr := by
      rintro rfl
      exact hcr next (List.mem_cons_of_mem _ List.mem_cons_self) (hnext ▸ List.mem_cons_self)
    have hbreak : findHeadEnd (cr :: lf :: (joinLines next lines ++ (crlf ++ crlf) ++ rest)) =
        some ((joinLines next lines).length + 2) := by
      rw [htail,hnext] at hrest ⊢
      exact (findHeadEnd_break hbyte).trans (congrArg _ hrest)
    have hskip : findHeadEnd (line ++ (cr :: lf :: (joinLines next lines ++ (crlf ++ crlf) ++ rest))) =
        some ((joinLines next lines).length + 2 + line.length) :=
      (findSub_skip (hcr line List.mem_cons_self)).trans (congrArg _ hbreak)
    simp only [joinLines,List.append_assoc,List.cons_append,List.length_append,List.length_cons] at hskip ⊢
    rw [hskip]
    congr 1
    omega

theorem stripLineCrlf_line {line : Bytes} (h : cr ∉ line) :
    stripLineCrlf line = .ok line ∧ stripLineCrlf (line ++ [cr]) = .ok line := by
  have hlast : line.getLast? ≠ some cr := fun e => h (List.mem_of_getLast? e)
  constructor
  · simp only [stripLineCrlf,if_neg hlast,if_neg h]
  · simp only [stripLineCrlf,List.getLast?_concat,if_true,List.dropLast_concat,if_neg h]

theorem splitOn_joinLines {line : Bytes} {lines : List Bytes}
    (h : ∀ text ∈ line :: lines, cr ∉ text ∧ lf ∉ text) :
    List.Forall₂ (fun raw text => stripLineCrlf raw = .ok text) ((joinLines line lines).splitOn lf)
      (line :: lines) := by
  obtain ⟨hcr,hlf⟩ := h line List.mem_cons_self
  obtain ⟨hlast,hended⟩ := stripLineCrlf_line hcr
  induction lines generalizing line with
  | nil =>
    rw [joinLines,List.splitOn_eq_singleton hlf]
    exact .cons hlast .nil
  | cons next lines ih =>
    have hnext : ∀ text ∈ next :: lines, cr ∉ text ∧ lf ∉ text := fun text hmem =>
      h text (List.mem_cons_of_mem _ hmem)
    have hline : lf ∉ line ++ [cr] := by
      simp only [List.mem_append,List.mem_singleton,not_or]
      exact ⟨hlf,by decide⟩
    obtain ⟨hcr',hlf'⟩ := hnext next List.mem_cons_self
    obtain ⟨hlast',hended'⟩ := stripLineCrlf_line hcr'
    have hsplit : joinLines line (next :: lines) = (line ++ [cr]) ++ lf :: joinLines next lines := by
      simp [joinLines]
    rw [hsplit,List.splitOn_append_cons_self_of_not_mem hline]
    exact .cons hended (ih hnext hcr' hlf' hlast' hended')

end Lines

section Digits

theorem not_mem_digits {byte : UInt8} (h : byte < 48) (n : ℕ) : byte ∉ digits n := fun hmem =>
  absurd (Normalize.digits_spec n byte hmem).1 (UInt8.not_le.mpr h)

theorem fromStrRadix_decimal {bound n : ℕ} (h : n < bound) : fromStrRadix 10 bound (digits n) = some n := by
  rw [fromStrRadix_iff (by decide) (Nat.zero_lt_of_lt h),numeral_ten_iff]
  exact .inl ⟨⟨digits n,Normalize.digits_decimal n⟩,rfl,Normalize.digits_ne_nil n,
    Normalize.decimalValue_digits n,h⟩

end Digits

section Heads
variable {Name Value : Type} {http : HeaderTypes Name Value}

/-- What the `http` crate checks of header names and values. -/
structure HeaderTypes.Lawful (http : HeaderTypes Name Value) : Prop where
  name {bytes : Bytes} {name : Name} : http.nameFromBytes bytes = some name → bytes ≠ [] ∧ bytes.all isToken = true
  value {bytes : Bytes} {value : Value} : http.valueFromBytes bytes = some value → bytes.all isFieldByte = true

/-- A header field and the bytes it is sent as. -/
structure SentField (http : HeaderTypes Name Value) where
  field : Name × Value
  bytes : Bytes × Bytes
  name_eq : http.nameFromBytes bytes.1 = some field.1
  value_eq : http.valueFromBytes bytes.2 = some field.2
  trimmed : trimOws bytes.2 = bytes.2

structure SentHead (http : HeaderTypes Name Value) where
  status : StatusCode
  version : Version
  reason : Bytes
  fields : List (SentField http)
  utf8 : utf8Valid reason = true
  oneLine : cr ∉ reason ∧ lf ∉ reason

def Version.asBytes : Version → Bytes
  | http10 => http10Bytes
  | http11 => http11Bytes

namespace SentHead

def toHead (sent : SentHead http) : Head Name Value :=
  ⟨sent.status,sent.version,sent.fields.map SentField.field⟩

def statusLine (sent : SentHead http) : Bytes :=
  sent.version.asBytes ++ space :: (digits sent.status.code ++ space :: sent.reason)

def fieldLines (sent : SentHead http) : List Bytes := sent.fields.map fun field => fieldText field.bytes

/-- The lines of the head and its empty line, each with CRLF behind it. -/
def bytes (sent : SentHead http) : Bytes :=
  (sent.statusLine :: sent.fieldLines).flatMap (· ++ crlf) ++ crlf

def text (sent : SentHead http) : Bytes := joinLines sent.statusLine sent.fieldLines

theorem bytes_eq (sent : SentHead http) : sent.bytes = sent.text ++ (crlf ++ crlf) := by
  rw [bytes,joinLines_ended,List.append_assoc]
  rfl

end SentHead

theorem Version.asBytes_not_mem (version : Version) :
    space ∉ version.asBytes ∧ cr ∉ version.asBytes ∧ lf ∉ version.asBytes := by
  cases version with
  | http10 => decide
  | http11 => decide

theorem Version.asBytes_ascii (version : Version) : version.asBytes.all (· < 0x80) = true := by
  cases version with
  | http10 => rfl
  | http11 => rfl

theorem SentHead.statusLine_oneLine (sent : SentHead http) : cr ∉ sent.statusLine ∧ lf ∉ sent.statusLine := by
  obtain ⟨-,hcr,hlf⟩ := sent.version.asBytes_not_mem
  obtain ⟨hcr',hlf'⟩ := sent.oneLine
  simp only [SentHead.statusLine,List.mem_append,List.mem_cons,not_or]
  exact ⟨⟨hcr,by decide,not_mem_digits (by decide) _,by decide,hcr'⟩,
    ⟨hlf,by decide,not_mem_digits (by decide) _,by decide,hlf'⟩⟩

theorem SentHead.statusLine_utf8 (sent : SentHead http) : utf8Valid sent.statusLine = true := by
  have hversion : ∀ byte ∈ sent.version.asBytes, byte < 0x80 := fun byte hbyte =>
    of_decide_eq_true (List.all_eq_true.mp sent.version.asBytes_ascii byte hbyte)
  have hdigits : ∀ byte ∈ digits sent.status.code, byte < 0x80 := fun byte hbyte =>
    UInt8.lt_of_le_of_lt (Normalize.digits_spec _ byte hbyte).2 (by decide)
  have hspace : ∀ rest, utf8Valid (space :: rest) = utf8Valid rest := fun rest =>
    @utf8Valid_append [space] rest (List.forall_mem_singleton.mpr (by decide))
  rw [SentHead.statusLine,utf8Valid_append hversion,hspace,utf8Valid_append hdigits,hspace,sent.utf8]

theorem nextField_space {text rest : Bytes} (h : space ∉ text) :
    nextField (some (text ++ space :: rest)) = some (text,some rest) := by
  have hcut : cut space (text ++ space :: rest) = (text,rest) := cut_append h
  have hmem : space ∈ text ++ space :: rest := List.mem_append_right _ List.mem_cons_self
  rw [nextField,if_pos hmem]
  rw [cut,Prod.mk.injEq] at hcut
  rw [hcut.1,hcut.2]

theorem parseStatus_digits (status : StatusCode) : parseStatus (some (digits status.code)) = .ok status := by
  have hbound : status.code < u16Values := Nat.lt_trans status.valid.2 (by decide)
  have hstatus : StatusCode.fromU16 status.code = some status := dif_pos status.valid
  simp only [parseStatus,fromStrRadix_decimal hbound,Option.bind_some,hstatus]

theorem parseVersion_asBytes (version : Version) : parseVersion (some version.asBytes) = .ok version := by
  cases version with
  | http10 => rfl
  | http11 => rfl

theorem parseStatusLine_sent (sent : SentHead http) {raw : Bytes}
    (h : stripLineCrlf raw = .ok sent.statusLine) : parseStatusLine raw = .ok (sent.status,sent.version) := by
  have hfirst : nextField (some sent.statusLine) = _ := nextField_space sent.version.asBytes_not_mem.1
  have hsecond : nextField (some (digits sent.status.code ++ space :: sent.reason)) = _ :=
    nextField_space (not_mem_digits (by decide) _)
  unfold parseStatusLine
  simp only [h,bind,Except.bind,sent.statusLine_utf8,if_true,hfirst,Option.map_some,Option.bind_some,
    hsecond,parseVersion_asBytes,parseStatus_digits]
  rfl

section Fields
variable (hlaw : http.Lawful)
include hlaw

theorem SentField.line (sent : SentField http) :
    (cr ∉ fieldText sent.bytes ∧ lf ∉ fieldText sent.bytes) ∧ colon ∉ sent.bytes.1 := by
  obtain ⟨hne,htoken⟩ := hlaw.name sent.name_eq
  have hfield : RequestGrammar.IsField sent.bytes := ⟨hne,htoken,hlaw.value sent.value_eq⟩
  exact ⟨⟨hfield.whole (by decide) (by decide) (by decide),hfield.whole (by decide) (by decide) (by decide)⟩,
    not_mem_of_all (by decide) htoken⟩

theorem parseField_sent (sent : SentField http) {raw : Bytes}
    (h : stripLineCrlf raw = .ok (fieldText sent.bytes)) : parseField http raw = .ok sent.field := by
  have hcut : cut colon (fieldText sent.bytes) = (sent.bytes.1,space :: sent.bytes.2) :=
    cut_append (sent.line hlaw).2
  rw [cut,Prod.mk.injEq] at hcut
  have htrim : trimOws (space :: sent.bytes.2) = sent.bytes.2 := sent.trimmed
  have hcolon : ¬ colon ∉ fieldText sent.bytes := fun hnot =>
    hnot (List.mem_append_right _ List.mem_cons_self)
  unfold parseField
  simp only [h,bind,Except.bind,if_neg (fieldText_ne_nil sent.bytes),if_neg hcolon,hcut.1,hcut.2,htrim,sent.name_eq,
    sent.value_eq]
  rfl

theorem foldlM_parseField {raws : List Bytes} {fields : List (SentField http)}
    (h : List.Forall₂ (fun raw text => stripLineCrlf raw = .ok text) raws
      (fields.map fun field => fieldText field.bytes)) (headers : HeaderMap Name Value) :
    raws.foldlM (fun headers line => (parseField http line).map fun field => headers ++ [field]) headers =
      .ok (headers ++ fields.map SentField.field) := by
  rw [List.forall₂_map_right_iff] at h
  refine foldlM_collect.mpr ⟨_,?_,rfl⟩
  rw [List.forall₂_map_right_iff]
  exact h.imp fun raw field hline => parseField_sent hlaw field hline

theorem parseResponseHead_text (sent : SentHead http) : parseResponseHead http sent.text = .ok sent.toHead := by
  have hlines : ∀ text ∈ sent.statusLine :: sent.fieldLines, cr ∉ text ∧ lf ∉ text := by
    refine List.forall_mem_cons.mpr ⟨sent.statusLine_oneLine,fun text htext => ?_⟩
    obtain ⟨field,-,rfl⟩ := List.mem_map.mp htext
    exact (field.line hlaw).1
  have hsplit := splitOn_joinLines hlines
  unfold parseResponseHead
  rw [SentHead.text]
  generalize (joinLines sent.statusLine sent.fieldLines).splitOn lf = raws at hsplit
  cases hsplit with
  | cons hstatus hfields =>
    have hheaders := foldlM_parseField hlaw hfields []
    simp only [parseFields,parseStatusLine_sent sent hstatus,hheaders,bind,Except.bind]
    rfl

theorem findHeadEnd_sent (sent : SentHead http) (rest : Bytes) :
    findHeadEnd (sent.bytes ++ rest) = some sent.text.length := by
  rw [sent.bytes_eq]
  refine findHeadEnd_joinLines ?_ ?_ rest
  · refine List.forall_mem_cons.mpr ⟨sent.statusLine_oneLine.1,fun text htext => ?_⟩
    obtain ⟨field,-,rfl⟩ := List.mem_map.mp htext
    exact (field.line hlaw).1.1
  · intro text htext
    obtain ⟨field,-,rfl⟩ := List.mem_map.mp htext
    exact fieldText_ne_nil field.bytes

end Fields
end Heads
end H12Tiny.Sync
