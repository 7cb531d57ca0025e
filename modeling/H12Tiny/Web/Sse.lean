import H12Tiny.Foundation.EventStream
import Mathlib.Data.List.Forall2

/-! # Server-sent events

The events of the web layer and the bytes they are sent as. A reader recovers an event
from its frame exactly if the frame has no line end that the encoder did not write for
it: the data may hold line feeds, and carriage returns in front of one, and the type
and the identifier no line end at all.
-/
namespace H12Tiny.Web
open EventStream

/-- A comment with a line end cannot be added. -/
structure Event where
  data : Option Text := none
  event : Option Text := none
  id : Option Text := none
  retry : Option UInt64 := none
  comments : List Text := []
  single : ∀ comment ∈ comments, OneLine comment

namespace Event

def new : Event where
  single _ h := absurd h List.not_mem_nil

def setData (self : Event) (data : Text) : Event := { self with data := some data }

def setEvent (self : Event) (event : Text) : Event := { self with event := some event }

def setId (self : Event) (id : Text) : Event := { self with id := some id }

def setRetry (self : Event) (milliseconds : UInt64) : Event := { self with retry := some milliseconds }

theorem single_comment (self : Event) {comment : Text} (h : OneLine comment) :
    ∀ c ∈ self.comments ++ [comment], OneLine c := by
  intro c hc
  rcases List.mem_append.mp hc with hc | hc
  · exact self.single c hc
  · exact List.mem_singleton.mp hc ▸ h

/-- The assertion on the comment fails for one that has a line end. -/
def comment (self : Event) (comment : Text) : Option Event :=
  if h : OneLine comment then
    some { self with comments := self.comments ++ [comment], single := self.single_comment h }
  else none

def frame (name value : Text) : Text := name ++ ':' :: ' ' :: value ++ [lf]

/-- The comments and fields, each on the lines it is written as. -/
def head (self : Event) : Text :=
  self.comments.flatMap (fun comment => (':' :: comment) ++ [lf]) ++
  self.data.elim [] (fun data => (data.splitOn lf).flatMap (frame dataName)) ++
  self.event.elim [] (frame eventName) ++
  self.id.elim [] (frame idName) ++
  self.retry.elim [] (fun retry => frame retryName (Nat.toDigits 10 retry.toNat))

def encode (self : Event) : List UInt8 := (self.head ++ [lf]).flatMap String.utf8EncodeChar

/-- The block is the one of the event, and a reader dispatches it with the data of the
event or, if it has none, not at all. -/
def RecoveredFrom (self : Event) (block : Block) : Prop :=
  block.message = self.data.map (normalise false) ∧ block.event = self.event ∧ block.id = self.id ∧
    block.retry = self.retry.map UInt64.toNat ∧ block.others = []

instance (self : Event) (block : Block) : Decidable (self.RecoveredFrom block) :=
  inferInstanceAs (Decidable (_ ∧ _ ∧ _ ∧ _ ∧ _))

/-- No line end but the line feeds of the data and the carriage returns before them. -/
def Plain (self : Event) : Prop :=
  (∀ data ∈ self.data, hasBareCr data = false) ∧ (∀ event ∈ self.event, OneLine event) ∧
    ∀ id ∈ self.id, OneLine id

end Event

/-- The data behind the first field name, as it stands in the frame. -/
def framed : Text → Text
  | [] => [lf]
  | c :: rest => if c = lf then lf :: (dataName ++ ':' :: ' ' :: framed rest) else c :: framed rest

theorem framed_lf (rest : Text) : framed (lf :: rest) = lf :: (dataName ++ ':' :: ' ' :: framed rest) :=
  if_pos rfl

theorem framed_char {c : Char} (h : c ≠ lf) (rest : Text) : framed (c :: rest) = c :: framed rest :=
  if_neg h

theorem framed_data (data : Text) :
    (data.splitOn lf).flatMap (Event.frame dataName) = dataName ++ ':' :: ' ' :: framed data := by
  induction data with
  | nil => rfl
  | cons c rest ih =>
    rw [List.splitOn] at ih ⊢
    rw [List.splitOnP_cons_eq_if_modifyHead]
    split
    next hc =>
      rw [eq_of_beq hc,framed_lf,List.flatMap_cons,ih]
      rfl
    next hc =>
      have hne : c ≠ lf := fun e => hc (beq_iff_eq.mpr e)
      rw [framed_char hne]
      cases hsplit : List.splitOnP (· == lf) rest with
      | nil => exact absurd hsplit (List.splitOnP_ne_nil _ _)
      | cons first others =>
        rw [hsplit] at ih
        simp only [List.flatMap_cons,Event.frame,List.append_assoc,List.append_cancel_left_eq,
          List.cons_append,List.cons.injEq,true_and,List.modifyHead_cons] at ih ⊢
        rw [ih]

theorem oneLine_lead : OneLine (dataName ++ [':',' ']) := by decide

section Data
variable (block : Block)

theorem field_data (value : Text) : block.field (dataName ++ ':' :: ' ' :: value) =
    { block with data := block.data ++ value ++ [lf] } :=
  block.field_eq (by decide)

theorem fields_data (value : Text) (after : List Text) :
    block.fields ((dataName ++ ':' :: ' ' :: value) :: after) =
      ({ block with data := block.data ++ value ++ [lf] } : Block).fields after := by
  rw [Block.fields_cons _ (by simp [dataName]),field_data]

theorem lines_lead (text : Text) :
    lines false [] (dataName ++ ':' :: ' ' :: text) = lines false (dataName ++ [':',' ']) text := by
  simpa using lines_open oneLine_lead [] text

theorem data_recovered (data : Text) (h : hasBareCr data = false) (line : Text) :
    block.fields (lines false (dataName ++ ':' :: ' ' :: line) (framed data)) =
        { block with data := block.data ++ line ++ normalise false data ++ [lf] } ∧
      [] ∉ lines false (dataName ++ ':' :: ' ' :: line) (framed data) := by
  induction data using text_induction generalizing block line with
  | nil =>
    rw [framed,lines_lf,fields_data]
    exact ⟨by simp,by simp [dataName]⟩
  | feed rest ih =>
    obtain ⟨hfields,hblank⟩ := ih { block with data := block.data ++ line ++ [lf] } h []
    rw [framed_lf,lines_lf,lines_lead,fields_data]
    exact ⟨hfields.trans (by simp),by simpa [dataName] using hblank⟩
  | pair rest ih =>
    obtain ⟨hfields,hblank⟩ := ih { block with data := block.data ++ line ++ [lf] } h []
    rw [framed_char (by decide),framed_lf,lines_crlf,lines_lead,fields_data]
    exact ⟨hfields.trans (by simp),by simpa [dataName] using hblank⟩
  | bare rest hrest ih =>
    rw [hasBareCr_cr hrest] at h
    cases h
  | char c rest hlf hcr ih =>
    rw [hasBareCr_char hcr] at h
    obtain ⟨hfields,hblank⟩ := ih block h (line ++ [c])
    rw [framed_char hlf,lines_char hlf hcr,normalise_char hlf hcr]
    simp only [List.append_assoc,List.cons_append,List.nil_append] at hfields hblank ⊢
    exact ⟨hfields,hblank⟩

/-- A line that the frame did not start adds less to the data than its own length. -/
theorem field_shorter (line : Text) : (block.field line).data.length ≤ block.data.length + line.length := by
  have hlength := fieldValue_length line
  unfold Block.field Block.set
  split_ifs with hnil hdata
  · simp
  · rw [hdata] at hlength
    simp only [dataName,List.length_append,List.length_cons,List.length_nil] at hlength ⊢
    omega
  all_goals simp

theorem fields_shorter (line : Text) {after : List Text} {bound : ℕ}
    (h : ∀ block : Block, (block.fields after).data.length ≤ block.data.length + bound) :
    (block.fields (line :: after)).data.length ≤ block.data.length + line.length + bound := by
  by_cases hline : line = []
  · subst hline
    exact Nat.le_trans (Nat.le_add_right _ _) (Nat.le_add_right _ _)
  · have hshort := field_shorter block line
    have hafter := h (block.field line)
    rw [Block.fields_cons _ hline]
    omega

/-- A bare carriage return in the data costs the reader at least one character of it: the
text behind it is a line without a field name of the frame, or blank, or missing. -/
theorem data_lost (data line : Text) :
    (block.fields (lines false (dataName ++ ':' :: ' ' :: line) (framed data))).data.length +
          (hasBareCr data).toNat ≤
        block.data.length + line.length + (normalise false data).length + 1 ∧
      (block.fields (lines false line (framed data))).data.length ≤
        block.data.length + line.length + (normalise false data).length := by
  induction data using text_induction generalizing block line with
  | nil =>
    rw [framed,lines_lf,lines_lf,fields_data]
    exact ⟨by simp [hasBareCr]; omega,fields_shorter block line fun _ => Nat.le_refl _⟩
  | feed rest ih =>
    have h := (ih { block with data := block.data ++ line ++ [lf] } []).1
    have hloose := fields_shorter block line fun b =>
      Nat.le_trans (Nat.le_of_add_right_le (ih b []).1) (Nat.le_of_eq (Nat.add_assoc _ _ _))
    rw [framed_lf,lines_lf,lines_lf,lines_lead,fields_data]
    simp only [List.length_append,List.length_nil,hasBareCr_lf,normalise_lf,List.length_cons] at h hloose ⊢
    exact ⟨by omega,by omega⟩
  | pair rest ih =>
    have h := (ih { block with data := block.data ++ line ++ [lf] } []).1
    have hloose := fields_shorter block line fun b =>
      Nat.le_trans (Nat.le_of_add_right_le (ih b []).1) (Nat.le_of_eq (Nat.add_assoc _ _ _))
    rw [framed_char (by decide),framed_lf,lines_crlf,lines_crlf,lines_lead,fields_data]
    simp only [List.length_append,List.length_nil,hasBareCr_crlf,normalise_crlf,List.length_cons] at h hloose ⊢
    exact ⟨by omega,by omega⟩
  | bare rest hrest ih =>
    have hbehind : ∀ b : Block, (b.fields (lines true [] (framed rest))).data.length ≤
        b.data.length + (normalise false rest).length := by
      intro b
      cases rest with
      | nil => exact Nat.le_add_right _ _
      | cons c rest =>
        have hc : c ≠ lf := fun e => hrest (e ▸ rfl)
        rw [framed_char hc,lines_after hc,← framed_char hc]
        exact (ih b []).2
    have h := hbehind { block with data := block.data ++ line ++ [lf] }
    have hloose := fields_shorter block line hbehind
    rw [framed_char (by decide),lines_cr,lines_cr,fields_data,normalise_cr hrest,hasBareCr_cr hrest]
    simp only [List.length_append,List.length_nil,List.length_cons,Bool.toNat_true] at h hloose ⊢
    exact ⟨by omega,by omega⟩
  | char c rest hlf hcr ih =>
    have h := ih block (line ++ [c])
    rw [framed_char hlf,lines_char hlf hcr,lines_char hlf hcr,normalise_char hlf hcr,hasBareCr_char hcr]
    simp only [List.append_assoc,List.cons_append,List.length_append,List.length_cons,List.length_nil] at h ⊢
    exact ⟨by omega,by omega⟩

end Data

namespace Event

/-- The lines of the fields behind the data. -/
def trailer (self : Event) : Text :=
  self.event.elim [] (frame eventName) ++
  (self.id.elim [] (frame idName) ++
  self.retry.elim [] (fun retry => frame retryName (Nat.toDigits 10 retry.toNat)))

def dataText (self : Event) : Text :=
  self.data.elim [] (fun data => (data.splitOn lf).flatMap (frame dataName))

theorem closed_optional {α : Type} (value : Option α) (f : α → Text) (name : Text) :
    Closed (value.elim [] (fun x => frame name (f x))) := by
  cases value with
  | none => exact .inl rfl
  | some x => exact .line _

theorem lines_frame {name value : Text} (hname : OneLine name) (hvalue : OneLine value) :
    lines false [] (frame name value) = [name ++ ':' :: ' ' :: value] := by
  have hlead : OneLine [':',' '] := by decide
  have hline := lines_line ((hname.append hlead).append hvalue)
  simpa [frame] using hline

theorem oneLine_digits (n : ℕ) : OneLine (Nat.toDigits 10 n) := by
  have hdigit : ∀ c ∈ Nat.toDigits 10 n, c.isDigit := fun c hc =>
    Nat.isDigit_of_mem_toDigits (by decide) (by decide) hc
  exact ⟨fun h => absurd (hdigit lf h) (by decide),fun h => absurd (hdigit cr h) (by decide)⟩

section Comments
variable (comments : List Text) (h : ∀ comment ∈ comments, OneLine comment)
include h

theorem lines_comments :
    lines false [] (comments.flatMap (fun comment => (':' :: comment) ++ [lf])) =
      comments.map (':' :: ·) := by
  induction comments with
  | nil => rfl
  | cons comment comments ih =>
    have hcolon : OneLine [':'] := by decide
    have hline := lines_line (hcolon.append (h comment List.mem_cons_self))
    rw [List.flatMap_cons,(Closed.line _).lines_append,ih fun c hc => h c (List.mem_cons_of_mem _ hc)]
    exact congrArg (· ++ comments.map (':' :: ·)) hline

end Comments

theorem fields_comments (block : Block) (comments after : List Text) :
    block.fields (comments.map (':' :: ·) ++ after) = block.fields after := by
  induction comments with
  | nil => rfl
  | cons comment comments ih => exact ih

section Fields
variable {α : Type} (name : Text) (value : Option α) (f : α → Text)

/-- The line of a field that may be missing. -/
def optionalLine : List Text :=
  (value.map fun x => name ++ ':' :: ' ' :: f x).toList

theorem lines_optional (hname : OneLine name) (h : ∀ x ∈ value, OneLine (f x)) :
    lines false [] (value.elim [] (fun x => frame name (f x))) = optionalLine name value f := by
  cases value with
  | none => rfl
  | some x => exact lines_frame hname (h x rfl)

variable {name}

theorem optionalLine_field (hname : ':' ∉ name) {line : Text} (h : line ∈ optionalLine name value f)
    (block : Block) : ∃ x ∈ value, block.field line = block.set name (f x) := by
  cases value with
  | none => exact absurd h List.not_mem_nil
  | some x => exact ⟨x,rfl,List.mem_singleton.mp h ▸ block.field_eq hname⟩

theorem optionalLine_quiet (hname : ':' ∉ name) (hdata : name ≠ dataName) {line : Text}
    (h : line ∈ optionalLine name value f) (block : Block) : (block.field line).data = block.data := by
  obtain ⟨x,-,hset⟩ := optionalLine_field value f hname h block
  exact (congrArg Block.data hset).trans (block.set_data hdata _)

theorem blank_optionalLine : [] ∉ optionalLine name value f := by
  cases value with
  | none => exact List.not_mem_nil
  | some x => simp [optionalLine]

theorem fields_optionalLine (hname : ':' ∉ name) (block : Block) (after : List Text) :
    block.fields (optionalLine name value f ++ after) =
      (value.elim block fun x => block.set name (f x)).fields after := by
  cases value with
  | none => rfl
  | some x =>
    have hcons := @Block.fields_cons block (name ++ ':' :: ' ' :: f x) after (by simp)
    rw [block.field_eq hname] at hcons
    exact hcons

end Fields

def trailerLines (self : Event) : List Text :=
  optionalLine eventName self.event (·) ++ (optionalLine idName self.id (·) ++
    optionalLine retryName self.retry (fun retry => Nat.toDigits 10 retry.toNat))

section Trailer
variable (self : Event)

theorem lines_trailer (hevent : ∀ event ∈ self.event, OneLine event) (hid : ∀ id ∈ self.id, OneLine id) :
    lines false [] self.trailer = self.trailerLines := by
  have hretry := lines_optional retryName self.retry (fun retry => Nat.toDigits 10 retry.toNat) (by decide)
    (fun retry _ => oneLine_digits retry.toNat)
  rw [trailer,(closed_optional self.event (·) eventName).lines_append,
    (closed_optional self.id (·) idName).lines_append,lines_optional _ self.event (·) (by decide) hevent,
    lines_optional _ self.id (·) (by decide) hid,hretry]
  rfl

theorem blank_trailerLines : [] ∉ self.trailerLines := by
  simp only [trailerLines,List.mem_append,not_or]
  exact ⟨blank_optionalLine _ _,blank_optionalLine _ _,blank_optionalLine _ _⟩

theorem trailerLines_quiet : ∀ line ∈ self.trailerLines, ∀ block : Block, (block.field line).data = block.data := by
  intro line hline block
  rcases List.mem_append.mp hline with h | h
  · exact optionalLine_quiet _ _ (by decide) (by decide) h block
  rcases List.mem_append.mp h with h | h
  · exact optionalLine_quiet _ _ (by decide) (by decide) h block
  · exact optionalLine_quiet _ _ (by decide) (by decide) h block

theorem set_retry (block : Block) (n : ℕ) :
    block.set retryName (Nat.toDigits 10 n) = { block with retry := some n } := by
  have hdigits : (Nat.toDigits 10 n).all Char.isDigit := List.all_eq_true.mpr fun c hc =>
    Nat.isDigit_of_mem_toDigits (by decide) (by decide) hc
  have h : Nat.toDigits 10 n ≠ [] ∧ (Nat.toDigits 10 n).all Char.isDigit := ⟨Nat.toDigits_ne_nil,hdigits⟩
  have hset : block.set retryName (Nat.toDigits 10 n) =
      if Nat.toDigits 10 n ≠ [] ∧ (Nat.toDigits 10 n).all Char.isDigit then
        { block with retry := some (Nat.ofDigitChars 10 (Nat.toDigits 10 n) 0) }
      else block := rfl
  rw [hset,if_pos h,Nat.ofDigitChars_ten_toDigits]

theorem fields_trailerLines (hnul : ∀ id ∈ self.id, '\x00' ∉ id) (data : Text) :
    ({ data := data } : Block).fields self.trailerLines =
      { data := data, event := self.event, id := self.id, retry := self.retry.map UInt64.toNat } := by
  have hevent : (self.event.elim ({ data := data } : Block) fun event =>
      ({ data := data } : Block).set eventName event) = { data := data, event := self.event } := by
    cases self.event <;> rfl
  have hid : ∀ block : Block, block.id = none →
      (self.id.elim block fun id => block.set idName id) = { block with id := self.id } := by
    intro block hnone
    cases hself : self.id with
    | none => rw [Option.elim_none,← hnone]
    | some id => exact if_neg (hnul id hself)
  have hretry : ∀ block : Block, block.retry = none →
      (self.retry.elim block fun retry => block.set retryName (Nat.toDigits 10 retry.toNat)) =
        { block with retry := self.retry.map UInt64.toNat } := by
    intro block hnone
    cases self.retry with
    | none => rw [Option.elim_none,Option.map_none,← hnone]
    | some retry => exact set_retry block retry.toNat
  have hlast := fields_optionalLine self.retry (fun retry => Nat.toDigits 10 retry.toNat)
    (show ':' ∉ retryName by decide) { data := data, event := self.event, id := self.id } []
  rw [List.append_nil] at hlast
  rw [trailerLines,fields_optionalLine _ _ (by decide),fields_optionalLine _ _ (by decide),hevent,
    hid _ rfl,hlast,hretry _ rfl]
  rfl

end Trailer

section Recovery
variable (self : Event)

theorem head_eq : self.head =
    self.comments.flatMap (fun comment => (':' :: comment) ++ [lf]) ++ (self.dataText ++ self.trailer) := by
  simp only [head,dataText,trailer,List.append_assoc]

theorem closed_comments : Closed (self.comments.flatMap fun comment => (':' :: comment) ++ [lf]) :=
  .flatMap (fun _ => .line _) _

theorem closed_dataText : Closed self.dataText := by
  unfold dataText
  cases self.data with
  | none => exact .inl rfl
  | some data => exact .flatMap (fun _ => .line _) _

theorem closed_head : Closed self.head := by
  rw [head_eq]
  refine self.closed_comments.append (self.closed_dataText.append ?_)
  exact (closed_optional self.event (·) _).append ((closed_optional self.id (·) _).append
    (closed_optional self.retry _ _))

theorem lines_head : lines false [] self.head =
    self.comments.map (':' :: ·) ++ (lines false [] self.dataText ++ lines false [] self.trailer) := by
  rw [head_eq,self.closed_comments.lines_append,self.closed_dataText.lines_append,
    lines_comments _ self.single]

theorem lines_dataText {data : Text} (h : self.data = some data) :
    lines false [] self.dataText = lines false (dataName ++ [':',' ']) (framed data) := by
  rw [dataText,h,Option.elim_some,framed_data,lines_lead]

def firstBlock : Block := ({} : Block).fields (lines false [] self.head)

theorem firstBlock_eq : self.firstBlock =
    ({} : Block).fields (lines false [] self.dataText ++ lines false [] self.trailer) := by
  rw [firstBlock,lines_head,fields_comments]

theorem Plain.recovered {self : Event} (h : self.Plain) (hnul : ∀ id ∈ self.id, '\x00' ∉ id) :
    self.RecoveredFrom self.firstBlock ∧ [] ∉ lines false [] self.head := by
  obtain ⟨hdata,hevent,hid⟩ := h
  have hcomments : [] ∉ self.comments.map (':' :: ·) := by simp
  rw [firstBlock_eq,lines_head,lines_trailer self hevent hid]
  simp only [List.mem_append,not_or]
  cases hself : self.data with
  | none =>
    have hempty : lines false [] self.dataText = [] := by rw [dataText,hself]; rfl
    rw [hempty,List.nil_append,fields_trailerLines self hnul]
    exact ⟨⟨by rw [hself]; rfl,rfl,rfl,rfl,rfl⟩,hcomments,List.not_mem_nil,blank_trailerLines self⟩
  | some data =>
    obtain ⟨hfields,hblank⟩ := data_recovered {} data (hdata data hself) []
    rw [lines_dataText self hself]
    rw [Block.fields_append _ hblank,hfields,fields_trailerLines self hnul]
    exact ⟨⟨by simp [Block.message,hself],rfl,rfl,rfl,rfl⟩,hcomments,hblank,blank_trailerLines self⟩

theorem RecoveredFrom.plain {self : Event} (h : self.RecoveredFrom self.firstBlock) : self.Plain := by
  obtain ⟨hmessage,hevent,hid,-,-⟩ := h
  have hlines := lines_oneLine self.head false [] .nil
  have htexts := Block.fields_oneLine {} hlines (fun _ h => absurd h (Option.not_mem_none _))
    (fun _ h => absurd h (Option.not_mem_none _))
  have hone : (∀ event ∈ self.event, OneLine event) ∧ ∀ id ∈ self.id, OneLine id := by
    rw [← hevent,← hid]
    exact htexts
  refine ⟨?_,hone⟩
  intro data hself
  have hdata : self.firstBlock.data =
      (({} : Block).fields (lines false (dataName ++ [':',' ']) (framed data))).data := by
    rw [firstBlock_eq,lines_trailer self hone.1 hone.2,Block.fields_quiet _ (trailerLines_quiet self),
      lines_dataText self hself]
  have hlost := (data_lost {} data []).1
  rw [Option.mem_def.mp hself,Option.map_some] at hmessage
  have hlength := Block.message_length _ hmessage
  rw [hdata] at hlength
  simp only [List.length_nil] at hlost
  cases hbare : hasBareCr data with
  | false => rfl
  | true =>
    rw [hbare,Bool.toNat_true] at hlost
    omega

/-- The frame of an event is read as its first block, and behind it follows the rest of the
stream if no other line of the frame is blank. -/
theorem parse_head (rest : Text) : ∃ more, parse (self.head ++ [lf] ++ rest) = self.firstBlock :: more ∧
    ([] ∉ lines false [] self.head → more = parse rest) := by
  have hlines : lines false [] (self.head ++ [lf] ++ rest) =
      lines false [] self.head ++ [] :: lines false [] rest := by
    rw [List.append_assoc,self.closed_head.lines_append]
    rfl
  obtain ⟨more,hmore⟩ := @Block.blocks_first {} (lines false [] self.head) (lines false [] rest)
  refine ⟨more,by rw [parse,hlines,hmore]; rfl,fun hblank => ?_⟩
  rw [Block.blocks_append _ hblank] at hmore
  exact (List.cons.inj hmore).2.symm

end Recovery

/-- Read as an event stream, the frames of a sequence of events give exactly one block for each
of them, with its data, type, identifier and delay and no other field, exactly if no event has
a line end that the encoder does not write as one. -/
theorem frames_recovered_iff (events : List Event) (hnul : ∀ event ∈ events, ∀ id ∈ event.id, '\x00' ∉ id) :
    (∃ blocks, parseBytes (events.flatMap encode) = some blocks ∧
        List.Forall₂ RecoveredFrom events blocks) ↔
      ∀ event ∈ events, event.Plain := by
  have hparse : parseBytes (events.flatMap encode) =
      some (parse (events.flatMap fun event => event.head ++ [lf])) := by
    rw [← parseBytes_utf8,List.flatMap_assoc]
    rfl
  rw [hparse]
  simp only [Option.some.injEq,exists_eq_left']
  clear hparse
  induction events with
  | nil => simp [parse,blocks]
  | cons event events ih =>
    obtain ⟨more,hmore,hrest⟩ := event.parse_head (events.flatMap fun event => event.head ++ [lf])
    have ih := ih fun e he => hnul e (List.mem_cons_of_mem _ he)
    rw [List.flatMap_cons,hmore,List.forall₂_cons,List.forall_mem_cons]
    constructor
    · rintro ⟨hfirst,hothers⟩
      have hplain := hfirst.plain
      have hblank := (hplain.recovered (hnul event List.mem_cons_self)).2
      rw [hrest hblank] at hothers
      exact ⟨hplain,ih.mp hothers⟩
    · rintro ⟨hplain,hothers⟩
      obtain ⟨hfirst,hblank⟩ := hplain.recovered (hnul event List.mem_cons_self)
      rw [hrest hblank]
      exact ⟨hfirst,ih.mpr hothers⟩

def update : Event :=
  (((new.setEvent ['m','s','g']).setId ['1']).setRetry 5000).setData ['o','n','e','\n','t','w','o']

example : parse (update.head ++ [lf]) =
    [⟨['o','n','e','\n','t','w','o','\n'],some ['m','s','g'],some ['1'],some 5000,[]⟩] := by
  decide

/-- Its type brings a field of its own. -/
def forged : Event := (new.setData ['a']).setEvent ['b','\n','d','a','t','a',':',' ','c']

theorem frames_recovered_iff_update :
    (∀ event ∈ [update,forged], ∀ id ∈ event.id, '\x00' ∉ id) ∧
      ((∃ blocks, parseBytes ([update,forged].flatMap encode) = some blocks ∧
        List.Forall₂ RecoveredFrom [update,forged] blocks) ↔ ∀ event ∈ [update,forged], event.Plain) := by
  have hnul : ∀ event ∈ [update,forged], ∀ id ∈ event.id, '\x00' ∉ id := by
    simp [update,forged,new,setEvent,setId,setRetry,setData]
  exact ⟨hnul,frames_recovered_iff _ hnul⟩

/-- The data of the event that is read is not the data that was set, and the type is cut off. -/
theorem forged_not_recovered :
    (∀ id ∈ forged.id, '\x00' ∉ id) ∧
      parseBytes forged.encode = some [⟨['a','\n','c','\n'],some ['b'],none,none,[]⟩] ∧
      ¬ ∃ blocks, parseBytes ([forged].flatMap encode) = some blocks ∧
        List.Forall₂ RecoveredFrom [forged] blocks := by
  have hparse : parseBytes forged.encode = some [⟨['a','\n','c','\n'],some ['b'],none,none,[]⟩] := by
    rw [encode,parseBytes_utf8]
    decide
  refine ⟨fun id hid => absurd hid (Option.not_mem_none id),hparse,?_⟩
  rintro ⟨blocks,hblocks,hrecovered⟩
  rw [List.flatMap_singleton,hparse] at hblocks
  obtain rfl := Option.some.inj hblocks
  exact absurd (List.forall₂_cons.mp hrecovered).1 (by decide)

end Event

end H12Tiny.Web
