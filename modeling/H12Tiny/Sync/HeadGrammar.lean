import H12Tiny.Foundation.Except
import H12Tiny.Sync.Interim

/-! # What the head parser accepts

The parser splits at LF and strips a CR from the end of each line, so what it accepts is
described in two steps: the lines it sees, and which of them ended in CR. A head it
accepts is written as the grammar says just when the lines are separated by CRLF and the
status code has three characters.
-/
namespace H12Tiny.Sync

section Lines

theorem not_mem_of_mem_splitOn {byte : UInt8} {bytes line : Bytes} (h : line ∈ bytes.splitOn byte) :
    byte ∉ line := by
  induction bytes generalizing line with
  | nil =>
    rw [List.splitOn_nil,List.mem_singleton] at h
    rw [h]
    exact List.not_mem_nil
  | cons first rest ih =>
    rw [List.splitOn_cons_eq_if_modifyHead] at h
    split at h
    · rcases List.mem_cons.mp h with rfl | h
      · exact List.not_mem_nil
      · exact ih h
    next hne =>
      cases hs : rest.splitOn byte with
      | nil =>
        rw [hs] at h
        cases h
      | cons head tail =>
        rw [hs,List.modifyHead_cons,List.mem_cons] at h
        rw [hs] at ih
        rcases h with rfl | h
        · rw [List.mem_cons,not_or]
          refine ⟨?_,ih List.mem_cons_self⟩
          rintro rfl
          exact hne BEq.rfl
        · exact ih (List.mem_cons_of_mem _ h)

/-- Each line but the last ends in CR, and the last does not. -/
def Terminated : List Bytes → Prop
  | [] => True
  | line :: lines => (line.getLast? = some cr ↔ lines ≠ []) ∧ Terminated lines

theorem stripLineCrlf_eq_ok {raw line : Bytes} (h : stripLineCrlf raw = .ok line) :
    cr ∉ line ∧ (raw.getLast? = some cr ∧ raw = line ++ [cr] ∨ raw.getLast? ≠ some cr ∧ raw = line) := by
  by_cases hlast : raw.getLast? = some cr
  · simp only [stripLineCrlf,if_pos hlast] at h
    split at h
    · cases h
    next hcr =>
      cases h
      exact ⟨hcr,.inl ⟨hlast,(List.dropLast_append_getLast? cr hlast).symm⟩⟩
  · simp only [stripLineCrlf,if_neg hlast] at h
    split at h
    · cases h
    next hcr =>
      cases h
      exact ⟨hcr,.inr ⟨hlast,rfl⟩⟩

theorem intercalate_terminated {raw line : Bytes} {raws lines : List Bytes}
    (hraw : stripLineCrlf raw = .ok line)
    (hraws : List.Forall₂ (fun raw line => stripLineCrlf raw = .ok line) raws lines)
    (ht : Terminated (raw :: raws)) : [lf].intercalate (raw :: raws) = joinLines line lines := by
  induction hraws generalizing raw line with
  | nil =>
    rcases (stripLineCrlf_eq_ok hraw).2 with ⟨hcr,_⟩ | ⟨_,rfl⟩
    · exact absurd rfl (ht.1.mp hcr)
    · simp [joinLines]
  | @cons next nextLine raws lines hnext hrest ih =>
    have htail := ih hnext ht.2
    rcases (stripLineCrlf_eq_ok hraw).2 with ⟨_,rfl⟩ | ⟨hcr,_⟩
    · rw [joinLines,← htail]
      simp [List.intercalate,List.intersperse]
    · exact absurd (ht.1.mpr (List.cons_ne_nil _ _)) hcr

theorem terminated_joinLines {line : Bytes} {lines : List Bytes}
    (h : ∀ text ∈ line :: lines, cr ∉ text ∧ lf ∉ text) : Terminated ((joinLines line lines).splitOn lf) := by
  induction lines generalizing line with
  | nil =>
    obtain ⟨hcr,hlf⟩ := h line List.mem_cons_self
    rw [joinLines,List.splitOn_eq_singleton hlf]
    refine ⟨⟨fun hlast => absurd (List.mem_of_getLast? hlast) hcr,fun hne => absurd rfl hne⟩,trivial⟩
  | cons next lines ih =>
    have hlf : lf ∉ line ++ [cr] := by
      rw [List.mem_append,List.mem_singleton,not_or]
      exact ⟨(h line List.mem_cons_self).2,by decide⟩
    have hjoin : joinLines line (next :: lines) = (line ++ [cr]) ++ lf :: joinLines next lines := by
      simp [joinLines]
    rw [hjoin,List.splitOn_append_cons_self_of_not_mem hlf]
    refine ⟨⟨fun _ => List.splitOn_ne_nil _ _,fun _ => List.getLast?_concat⟩,ih ?_⟩
    intro text htext
    exact h text (List.mem_cons_of_mem _ htext)

theorem stripped_clean {raws lines : List Bytes}
    (h : List.Forall₂ (fun raw line => stripLineCrlf raw = .ok line) raws lines)
    (hlf : ∀ raw ∈ raws, lf ∉ raw) : ∀ line ∈ lines, cr ∉ line ∧ lf ∉ line := by
  induction h with
  | nil => exact List.forall_mem_nil _
  | cons hraw _ ih =>
    obtain ⟨hfirst,hrest⟩ := List.forall_mem_cons.mp hlf
    refine List.forall_mem_cons.mpr ⟨?_,ih hrest⟩
    obtain ⟨hcr,⟨_,rfl⟩ | ⟨_,rfl⟩⟩ := stripLineCrlf_eq_ok hraw
    · exact ⟨hcr,fun hmem => hfirst (List.mem_append_left _ hmem)⟩
    · exact ⟨hcr,hfirst⟩

end Lines

section StatusLine

theorem nextField_cases (text : Bytes) : ∃ field, space ∉ field ∧
    (text = field ∧ nextField (some text) = some (field,none) ∨
      ∃ rest, text = field ++ space :: rest ∧ nextField (some text) = some (field,some rest)) := by
  have hfield : space ∉ text.takeWhile (· ≠ space) := fun hmem => by
    simpa using List.mem_takeWhile_imp hmem
  refine ⟨text.takeWhile (· ≠ space),hfield,?_⟩
  by_cases hmem : space ∈ text
  · exact .inr ⟨_,eq_takeWhile_append hmem,by rw [nextField,if_pos hmem]⟩
  · left
    have hall : text.takeWhile (· ≠ space) = text := by
      rw [List.takeWhile_eq_self_iff]
      intro byte hbyte
      rw [decide_eq_true_eq]
      rintro rfl
      exact hmem hbyte
    rw [hall,nextField,if_neg hmem,hall]
    exact ⟨rfl,rfl⟩

theorem parseVersion_eq_ok {field : Option Bytes} {version : Version} (h : parseVersion field = .ok version) :
    field = some version.asBytes := by
  unfold parseVersion at h
  split at h
  next hfield =>
    cases h
    exact hfield
  next =>
    split at h
    next hfield =>
      cases h
      exact hfield
    next => cases h

theorem parseStatus_eq_ok {field : Option Bytes} {status : StatusCode} (h : parseStatus field = .ok status) :
    ∃ code, field = some code ∧
      (Numeral 10 u16Values code status.code ∨ Signed 10 u16Values code status.code) := by
  unfold parseStatus at h
  split at h
  · cases h
  next code =>
    refine ⟨code,rfl,?_⟩
    split at h
    next found hfound =>
      cases h
      obtain ⟨n,hn,hstatus⟩ := Option.bind_eq_some_iff.mp hfound
      unfold StatusCode.fromU16 at hstatus
      split at hstatus
      · cases hstatus
        exact (fromStrRadix_iff (by decide) (by decide)).mp hn
      · cases hstatus
    next => cases h

theorem parseStatusLine_eq_ok {raw : Bytes} {status : StatusCode} {version : Version}
    (h : parseStatusLine raw = .ok (status,version)) :
    ∃ code rest, stripLineCrlf raw = .ok (version.asBytes ++ space :: (code ++ rest)) ∧ space ∉ code ∧
      (rest = [] ∨ ∃ reason, rest = space :: reason) ∧
      (Numeral 10 u16Values code status.code ∨ Signed 10 u16Values code status.code) := by
  obtain ⟨line,hline,h⟩ := bind_eq_ok.mp h
  rw [hline]
  split at h
  · obtain ⟨_,hversion,h⟩ := bind_eq_ok.mp h
    obtain ⟨_,hstatus,h⟩ := bind_eq_ok.mp h
    cases h
    have hversion := parseVersion_eq_ok hversion
    obtain ⟨code,hcode,hnumber⟩ := parseStatus_eq_ok hstatus
    obtain ⟨first,-,⟨rfl,hfirst⟩ | ⟨behind,rfl,hfirst⟩⟩ := nextField_cases line
    · rw [hfirst] at hcode
      cases hcode
    · rw [hfirst] at hversion hcode
      obtain rfl : first = version.asBytes := Option.some.inj hversion
      obtain ⟨second,hspace,⟨rfl,hsecond⟩ | ⟨reason,rfl,hsecond⟩⟩ := nextField_cases behind
      · rw [Option.bind_some,hsecond] at hcode
        cases hcode
        exact ⟨behind,[],by rw [List.append_nil],hspace,.inl rfl,hnumber⟩
      · rw [Option.bind_some,hsecond] at hcode
        cases hcode
        exact ⟨second,space :: reason,rfl,hspace,.inr ⟨reason,rfl⟩,hnumber⟩
  · cases h

/-- A status code has three digits, so three characters leave no room for a sign. -/
theorem numeral_of_length {code : Bytes} {status : StatusCode}
    (h : Numeral 10 u16Values code status.code ∨ Signed 10 u16Values code status.code)
    (hlength : code.length = 3) : Numeral 10 u16Values code status.code := by
  rcases h with h | ⟨digits,rfl,h⟩
  · exact h
  · have hlt := @numeral_lt_pow 10 0 _ h.digits
    rw [List.length_cons,Nat.add_right_cancel_iff] at hlength
    rw [h.value,hlength] at hlt
    have hge := status.valid.1
    omega

/-- What stands between the first two spaces of the first line. -/
def statusText (bytes : Bytes) : Bytes :=
  ((bytes.takeWhile fun byte => byte ≠ cr ∧ byte ≠ lf).dropWhile (· ≠ space)).tail.takeWhile (· ≠ space)

theorem statusText_joinLines {version code rest : Bytes} {lines : List Bytes} (hversion : space ∉ version)
    (hcode : space ∉ code) (hrest : rest = [] ∨ ∃ reason, rest = space :: reason)
    (hline : cr ∉ version ++ space :: (code ++ rest) ∧ lf ∉ version ++ space :: (code ++ rest)) :
    statusText (joinLines (version ++ space :: (code ++ rest)) lines) = code := by
  have htake : (joinLines (version ++ space :: (code ++ rest)) lines).takeWhile
      (fun byte => byte ≠ cr ∧ byte ≠ lf) = version ++ space :: (code ++ rest) := by
    have hall : ∀ byte ∈ version ++ space :: (code ++ rest), decide (byte ≠ cr ∧ byte ≠ lf) = true := by
      intro byte hbyte
      rw [decide_eq_true_eq]
      exact ⟨fun he => hline.1 (he ▸ hbyte),fun he => hline.2 (he ▸ hbyte)⟩
    cases lines with
    | nil => exact List.takeWhile_eq_self_iff.mpr hall
    | cons next lines =>
      rw [joinLines,List.takeWhile_append_of_pos hall]
      simp
  rw [statusText,htake,List.dropWhile_append_of_pos (ne_of_not_mem hversion)]
  simp only [ne_eq,not_true_eq_false,decide_false,Bool.false_eq_true,not_false_eq_true,
    List.dropWhile_cons_of_neg,List.tail_cons]
  rw [List.takeWhile_append_of_pos (ne_of_not_mem hcode)]
  rcases hrest with rfl | ⟨reason,rfl⟩
  · simp
  · simp

end StatusLine

section Grammar
variable {Name Value : Type} (http : HeaderTypes Name Value)

/-- A field line: a token, a colon and a value, which white space may surround. -/
def FieldLine (line : Bytes) (field : Name × Value) : Prop :=
  ∃ name value, line = name ++ colon :: value ∧ name ≠ [] ∧ name.all isToken = true ∧
    http.nameFromBytes name = some field.1 ∧ http.valueFromBytes (trimOws value) = some field.2

/-- The head is written in the bytes: a status line with a code of three digits and field
lines, with CRLF between any two lines and no other CR or LF. -/
def Written (bytes : Bytes) (head : Head Name Value) : Prop :=
  ∃ code rest lines, bytes = joinLines (head.version.asBytes ++ space :: (code ++ rest)) lines ∧
    code.length = 3 ∧ Numeral 10 u16Values code head.status.code ∧
    (rest = [] ∨ ∃ reason, rest = space :: reason) ∧
    (∀ line ∈ (head.version.asBytes ++ space :: (code ++ rest)) :: lines, cr ∉ line ∧ lf ∉ line) ∧
    List.Forall₂ (FieldLine http) lines head.headers

/-- The lines are separated by CRLF alone, and the status code has three characters. -/
def Tight (bytes : Bytes) : Prop := Terminated (bytes.splitOn lf) ∧ (statusText bytes).length = 3

theorem parseField_eq_ok (hlaw : http.Lawful) {raw : Bytes} {field : Name × Value}
    (h : parseField http raw = .ok field) : ∃ line, stripLineCrlf raw = .ok line ∧ FieldLine http line field := by
  obtain ⟨line,hline,h⟩ := bind_eq_ok.mp h
  refine ⟨line,hline,?_⟩
  split at h
  · cases h
  · split at h
    · cases h
    next hcolon =>
      rw [not_not] at hcolon
      split at h
      · cases h
      next name hname =>
        split at h
        · cases h
        next value hvalue =>
          cases h
          obtain ⟨hne,htoken⟩ := hlaw.name hname
          exact ⟨_,_,eq_takeWhile_append hcolon,hne,htoken,hname,hvalue⟩

theorem parseFields_eq_ok (hlaw : http.Lawful) {raws : List Bytes} {headers : HeaderMap Name Value}
    (h : parseFields http raws = .ok headers) :
    ∃ lines, List.Forall₂ (fun raw line => stripLineCrlf raw = .ok line) raws lines ∧
      List.Forall₂ (FieldLine http) lines headers := by
  obtain ⟨fields,hfields,he⟩ := foldlM_collect.mp h
  rw [he,List.nil_append]
  clear h he
  induction hfields with
  | nil => exact ⟨[],.nil,.nil⟩
  | cons hfield _ ih =>
    obtain ⟨line,hline,hfield⟩ := parseField_eq_ok http hlaw hfield
    obtain ⟨lines,hlines,hparsed⟩ := ih
    exact ⟨line :: lines,.cons hline hlines,.cons hfield hparsed⟩

/-- The head as it was parsed: lines stripped of their ends, and what they say. -/
theorem parseResponseHead_eq_ok (hlaw : http.Lawful) {bytes : Bytes} {head : Head Name Value}
    (h : parseResponseHead http bytes = .ok head) :
    ∃ raw raws code rest lines, bytes.splitOn lf = raw :: raws ∧
      stripLineCrlf raw = .ok (head.version.asBytes ++ space :: (code ++ rest)) ∧
      List.Forall₂ (fun raw line => stripLineCrlf raw = .ok line) raws lines ∧ space ∉ code ∧
      (rest = [] ∨ ∃ reason, rest = space :: reason) ∧
      (Numeral 10 u16Values code head.status.code ∨ Signed 10 u16Values code head.status.code) ∧
      List.Forall₂ (FieldLine http) lines head.headers := by
  unfold parseResponseHead at h
  split at h
  · cases h
  next raw raws hsplit =>
    obtain ⟨⟨status,version⟩,hstatus,h⟩ := bind_eq_ok.mp h
    obtain ⟨headers,hheaders,h⟩ := bind_eq_ok.mp h
    cases h
    obtain ⟨code,rest,hraw,hcode,hrest,hnumber⟩ := parseStatusLine_eq_ok hstatus
    obtain ⟨lines,hlines,hparsed⟩ := parseFields_eq_ok http hlaw hheaders
    exact ⟨raw,raws,code,rest,lines,hsplit,hraw,hlines,hcode,hrest,hnumber,hparsed⟩

/-- A head that the parser accepts is written in the bytes, with the status, the version and
the headers that are returned, just when the bytes are tight. -/
theorem parseResponseHead_written_iff (hlaw : http.Lawful) {bytes : Bytes} {head : Head Name Value}
    (h : parseResponseHead http bytes = .ok head) : Written http bytes head ↔ Tight bytes := by
  constructor
  · rintro ⟨code,rest,lines,rfl,hlength,hnumeral,hrest,hlines,-⟩
    have hcode : space ∉ code := fun hmem => absurd (hnumeral.digits space hmem) (by decide)
    refine ⟨terminated_joinLines hlines,?_⟩
    rw [statusText_joinLines head.version.asBytes_not_mem.1 hcode hrest (hlines _ List.mem_cons_self)]
    exact hlength
  · rintro ⟨hterminated,hlength⟩
    obtain ⟨raw,raws,code,rest,lines,hsplit,hraw,hraws,hcode,hrest,hnumber,hfields⟩ :=
      parseResponseHead_eq_ok http hlaw h
    have hclean := stripped_clean (.cons hraw hraws) fun raw hmem => not_mem_of_mem_splitOn (hsplit ▸ hmem)
    have hbytes : bytes = joinLines (head.version.asBytes ++ space :: (code ++ rest)) lines := by
      rw [hsplit] at hterminated
      rw [← intercalate_terminated hraw hraws hterminated,← hsplit,List.intercalate_splitOn]
    rw [hbytes,statusText_joinLines head.version.asBytes_not_mem.1 hcode hrest
      (hclean _ List.mem_cons_self)] at hlength
    exact ⟨code,rest,lines,hbytes,hlength,numeral_of_length hnumber hlength,hrest,hclean,hfields⟩

end Grammar

/-- A status line and a field `a` of value `b` without its line end. -/
def tightHead : Bytes := http11Bytes ++ [32,52,48,52,13,10,97,58,98]

/-- The same with the line separated by LF alone. -/
def looseHead : Bytes := http11Bytes ++ [32,52,48,52,10,97,58,98]

def letterHead : Head Bytes Bytes := ⟨.notFound,.http11,[([97],[98])]⟩

theorem parseResponseHead_written_tight :
    parseResponseHead byteHeaders tightHead = .ok letterHead ∧ Written byteHeaders tightHead letterHead := by
  have hparse : parseResponseHead byteHeaders tightHead = .ok letterHead := rfl
  refine ⟨hparse,(parseResponseHead_written_iff byteHeaders byteHeaders_lawful hparse).mpr ⟨?_,rfl⟩⟩
  exact ⟨by decide,by decide,trivial⟩

theorem parseResponseHead_loose :
    findHeadEnd (looseHead ++ (crlf ++ crlf)) = some looseHead.length ∧
    parseResponseHead byteHeaders looseHead = .ok letterHead ∧ ¬ Written byteHeaders looseHead letterHead := by
  refine ⟨rfl,rfl,?_⟩
  rintro ⟨code,rest,lines,hbytes,-,-,-,hlines,-⟩
  have hterminated := terminated_joinLines hlines
  rw [← hbytes] at hterminated
  exact absurd (hterminated.1.mpr (List.cons_ne_nil _ _)) (by decide)

end H12Tiny.Sync
