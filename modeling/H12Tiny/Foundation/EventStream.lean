import H12Tiny.Foundation.Search
import Mathlib.Data.List.Basic
import Mathlib.Data.Nat.Notation

/-! # Event streams

How a reader of server-sent events takes a stream apart. A line ends at a carriage
return, at a line feed or at the two together; a blank line ends a block; a line of a
block is a comment or sets a field. A block is kept with everything its lines set, so
that two blocks differ as soon as one reader can tell them apart. What stands behind
the last blank line is not read.
-/
namespace H12Tiny.EventStream

abbrev Text := List Char

def lf : Char := '\n'

def cr : Char := '\r'

def OneLine (text : Text) : Prop := lf ∉ text ∧ cr ∉ text

instance (text : Text) : Decidable (OneLine text) := inferInstanceAs (Decidable (_ ∧ _))

theorem OneLine.nil : OneLine [] := ⟨List.not_mem_nil,List.not_mem_nil⟩

theorem OneLine.append {s t : Text} (hs : OneLine s) (ht : OneLine t) : OneLine (s ++ t) :=
  ⟨fun h => (List.mem_append.mp h).elim hs.1 ht.1,fun h => (List.mem_append.mp h).elim hs.2 ht.2⟩

theorem OneLine.sublist {s t : Text} (ht : OneLine t) (h : s.Sublist t) : OneLine s :=
  ⟨fun hmem => ht.1 (h.subset hmem),fun hmem => ht.2 (h.subset hmem)⟩

/-- The complete lines of a text behind the open line `line`. A line feed right after a
carriage return belongs to the line that is closed already. -/
def lines (afterCr : Bool) (line : Text) : Text → List Text
  | [] => []
  | c :: rest =>
    if c = lf then
      if afterCr then lines false line rest else line :: lines false [] rest
    else if c = cr then line :: lines true [] rest
    else lines false (line ++ [c]) rest

def normalise (afterCr : Bool) : Text → Text
  | [] => []
  | c :: rest =>
    if c = lf then
      if afterCr then normalise false rest else lf :: normalise false rest
    else if c = cr then lf :: normalise true rest
    else c :: normalise false rest

def hasBareCr : Text → Bool
  | [] => false
  | c :: rest => (c = cr && rest.head? ≠ some lf) || hasBareCr rest

section Scanning
variable {afterCr : Bool} {line rest : Text} {c : Char}

@[simp] theorem lines_nil : lines afterCr line [] = [] := rfl

@[simp] theorem lines_lf : lines false line (lf :: rest) = line :: lines false [] rest := rfl

@[simp] theorem lines_crlf : lines afterCr line (cr :: lf :: rest) = line :: lines false [] rest := rfl

theorem lines_cr : lines afterCr line (cr :: rest) = line :: lines true [] rest := rfl

theorem lines_char (hlf : c ≠ lf) (hcr : c ≠ cr) :
    lines afterCr line (c :: rest) = lines false (line ++ [c]) rest := by
  simp only [lines,if_neg hlf,if_neg hcr]

/-- After a carriage return only a line feed is special. -/
theorem lines_after (h : c ≠ lf) : lines true line (c :: rest) = lines false line (c :: rest) := by
  simp only [lines,if_neg h]

@[simp] theorem normalise_nil : normalise afterCr [] = [] := rfl

@[simp] theorem normalise_lf : normalise false (lf :: rest) = lf :: normalise false rest := rfl

@[simp] theorem normalise_crlf :
    normalise afterCr (cr :: lf :: rest) = lf :: normalise false rest := rfl

theorem normalise_cr (h : rest.head? ≠ some lf) :
    normalise afterCr (cr :: rest) = lf :: normalise false rest := by
  cases rest with
  | nil => rfl
  | cons c rest =>
    have hc : c ≠ lf := fun e => h (by rw [e]; rfl)
    simp only [normalise,if_neg hc]
    rfl

theorem normalise_char (hlf : c ≠ lf) (hcr : c ≠ cr) :
    normalise afterCr (c :: rest) = c :: normalise false rest := by
  simp only [normalise,if_neg hlf,if_neg hcr]

@[simp] theorem hasBareCr_lf : hasBareCr (lf :: rest) = hasBareCr rest := rfl

@[simp] theorem hasBareCr_crlf : hasBareCr (cr :: lf :: rest) = hasBareCr rest := rfl

theorem hasBareCr_cr (h : rest.head? ≠ some lf) : hasBareCr (cr :: rest) = true := by
  simp [hasBareCr,h]

theorem hasBareCr_char (hcr : c ≠ cr) : hasBareCr (c :: rest) = hasBareCr rest := by
  simp [hasBareCr,hcr]

end Scanning

/-- Induction on a text from one line end, or one other character, to the next. -/
theorem text_induction {P : Text → Prop} (nil : P []) (feed : ∀ rest, P rest → P (lf :: rest))
    (pair : ∀ rest, P rest → P (cr :: lf :: rest))
    (bare : ∀ rest, rest.head? ≠ some lf → P rest → P (cr :: rest))
    (char : ∀ c rest, c ≠ lf → c ≠ cr → P rest → P (c :: rest)) : ∀ text, P text
  | [] => nil
  | c :: rest => by
    have ih := text_induction nil feed pair bare char rest
    by_cases hlf : c = lf
    · exact hlf ▸ feed rest ih
    by_cases hcr : c = cr
    · subst hcr
      cases rest with
      | nil => exact bare [] (by simp) ih
      | cons d rest =>
        by_cases hd : d = lf
        · exact hd ▸ pair rest (text_induction nil feed pair bare char rest)
        · exact bare (d :: rest) (by simpa using hd) ih
    · exact char c rest hlf hcr ih

theorem lines_oneLine (text : Text) (afterCr : Bool) (line : Text) (hline : OneLine line) :
    ∀ l ∈ lines afterCr line text, OneLine l := by
  induction text generalizing afterCr line with
  | nil => exact fun l hl => absurd hl List.not_mem_nil
  | cons c rest ih =>
    intro l hl
    unfold lines at hl
    split at hl
    · split at hl
      · exact ih false line hline l hl
      · rcases List.mem_cons.mp hl with rfl | hl
        · exact hline
        · exact ih false [] .nil l hl
    · split at hl
      · rcases List.mem_cons.mp hl with rfl | hl
        · exact hline
        · exact ih true [] .nil l hl
      next hlf hcr =>
        refine ih false _ (hline.append ⟨?_,?_⟩) l hl
        · exact fun h => hlf (List.mem_singleton.mp h).symm
        · exact fun h => hcr (List.mem_singleton.mp h).symm

theorem lines_open {text : Text} (h : OneLine text) (line rest : Text) :
    lines false line (text ++ rest) = lines false (line ++ text) rest := by
  induction text generalizing line with
  | nil => simp
  | cons c text ih =>
    have hlf : c ≠ lf := fun e => h.1 (e ▸ List.mem_cons_self)
    have hcr : c ≠ cr := fun e => h.2 (e ▸ List.mem_cons_self)
    rw [List.cons_append,lines_char hlf hcr,ih (h.sublist (List.sublist_cons_self c text))]
    simp

/-- Behind a line feed the reader starts afresh. -/
theorem lines_closed (text : Text) (afterCr : Bool) (line rest : Text) :
    lines afterCr line (text ++ lf :: rest) =
      lines afterCr line (text ++ [lf]) ++ lines false (if afterCr ∧ text = [] then line else []) rest := by
  induction text generalizing afterCr line with
  | nil => cases afterCr <;> simp [lines]
  | cons c text ih =>
    simp only [List.cons_append,lines]
    split
    · split
      · simpa using ih false line
      · simpa using ih false []
    · split
      · simpa using ih true []
      · simpa using ih false (line ++ [c])

def Closed (text : Text) : Prop := text = [] ∨ ∃ start, text = start ++ [lf]

theorem Closed.line (text : Text) : Closed (text ++ [lf]) := .inr ⟨text,rfl⟩

theorem Closed.append {s t : Text} (hs : Closed s) (ht : Closed t) : Closed (s ++ t) := by
  rcases ht with rfl | ⟨start,rfl⟩
  · rwa [List.append_nil]
  · exact .inr ⟨s ++ start,(List.append_assoc _ _ _).symm⟩

theorem Closed.flatMap {α : Type*} {f : α → Text} (hf : ∀ x, Closed (f x)) (xs : List α) :
    Closed (xs.flatMap f) := by
  induction xs with
  | nil => exact .inl rfl
  | cons x xs ih => exact (hf x).append ih

theorem Closed.lines_append {s : Text} (hs : Closed s) (t : Text) :
    lines false [] (s ++ t) = lines false [] s ++ lines false [] t := by
  rcases hs with rfl | ⟨start,rfl⟩
  · rfl
  · simpa using lines_closed start false [] t

theorem lines_line {text : Text} (h : OneLine text) : lines false [] (text ++ [lf]) = [text] := by
  rw [lines_open h]
  rfl

/-- What the lines of a block have set. -/
structure Block where
  data : Text := []
  event : Option Text := none
  id : Option Text := none
  retry : Option ℕ := none
  others : List Text := []
  deriving DecidableEq, Repr

def fieldName (line : Text) : Text := line.takeWhile (· ≠ ':')

def fieldValue (line : Text) : Text :=
  let value := (line.dropWhile (· ≠ ':')).tail
  if value.head? = some ' ' then value.tail else value

def dataName : Text := ['d','a','t','a']

def eventName : Text := ['e','v','e','n','t']

def idName : Text := ['i','d']

def retryName : Text := ['r','e','t','r','y']

namespace Block

def set (block : Block) (name value : Text) : Block :=
  if name = [] then block
  else if name = dataName then { block with data := block.data ++ value ++ [lf] }
  else if name = eventName then { block with event := some value }
  else if name = idName then
    if '\x00' ∈ value then block else { block with id := some value }
  else if name = retryName then
    if value ≠ [] ∧ value.all Char.isDigit then
      { block with retry := some (Nat.ofDigitChars 10 value 0) }
    else block
  else { block with others := block.others ++ [name] }

/-- The effect of one line that is not blank. A comment has no name. -/
def field (block : Block) (line : Text) : Block := block.set (fieldName line) (fieldValue line)

def fields (block : Block) : List Text → Block
  | [] => block
  | line :: rest => if line = [] then block else (block.field line).fields rest

/-- A block whose lines set no data is not dispatched. -/
def message (block : Block) : Option Text := if block.data = [] then none else some block.data.dropLast

end Block

def blocks (block : Block) : List Text → List Block
  | [] => []
  | line :: rest => if line = [] then block :: blocks {} rest else blocks (block.field line) rest

def parse (text : Text) : List Block := blocks {} (lines false [] text)

def parseBytes (bytes : List UInt8) : Option (List Block) :=
  bytes.toByteArray.utf8Decode?.map (fun text => parse text.toList)

theorem parseBytes_utf8 (text : Text) :
    parseBytes (text.flatMap String.utf8EncodeChar) = some (parse text) := by
  have hdecode := @List.utf8Decode?_utf8Encode text
  simp only [parseBytes]
  rw [show (text.flatMap String.utf8EncodeChar).toByteArray = text.utf8Encode from rfl,hdecode]
  simp

section Fields
variable {name value : Text}

theorem fieldName_eq (h : ':' ∉ name) : fieldName (name ++ ':' :: value) = name := by
  unfold fieldName
  rw [List.takeWhile_append_of_pos (ne_of_not_mem h)]
  simp

theorem fieldValue_eq (h : ':' ∉ name) : fieldValue (name ++ ':' :: ' ' :: value) = value := by
  unfold fieldValue
  rw [List.dropWhile_append_of_pos (ne_of_not_mem h)]
  simp

theorem Block.field_eq (block : Block) (h : ':' ∉ name) :
    block.field (name ++ ':' :: ' ' :: value) = block.set name value := by
  rw [Block.field,fieldName_eq h,fieldValue_eq h]

theorem fieldValue_sublist (line : Text) : (fieldValue line).Sublist line := by
  have htail := (List.tail_sublist (line.dropWhile (· ≠ ':'))).trans (List.dropWhile_sublist _)
  simp only [fieldValue]
  split
  · exact (List.tail_sublist _).trans htail
  · exact htail

theorem fieldValue_length (line : Text) :
    (fieldName line).length + (fieldValue line).length ≤ line.length := by
  have hsplit := congrArg List.length (List.takeWhile_append_dropWhile (p := (· ≠ ':')) (l := line))
  have hvalue : (fieldValue line).length ≤ (line.dropWhile (· ≠ ':')).length := by
    simp only [fieldValue]
    split
    · exact ((List.tail_sublist _).trans (List.tail_sublist _)).length_le
    · exact (List.tail_sublist _).length_le
  rw [List.length_append] at hsplit
  unfold fieldName
  omega

end Fields

namespace Block
variable (block : Block) {line : Text} {before after : List Text}

@[simp] theorem fields_nil : block.fields [] = block := rfl

theorem fields_cons (h : line ≠ []) : block.fields (line :: after) = (block.field line).fields after :=
  if_neg h

@[simp] theorem fields_blank : block.fields ([] :: after) = block := rfl

theorem message_length {text : Text} (h : block.message = some text) :
    block.data.length = text.length + 1 := by
  unfold message at h
  split at h
  next => cases h
  next hne =>
    have hpos := List.length_pos_iff.mpr hne
    rw [← Option.some.inj h,List.length_dropLast]
    omega

theorem fields_append (h : [] ∉ before) :
    block.fields (before ++ after) = (block.fields before).fields after := by
  induction before generalizing block with
  | nil => rfl
  | cons line before ih =>
    have hline : line ≠ [] := fun e => h (e ▸ List.mem_cons_self)
    rw [List.cons_append,fields_cons block hline,fields_cons block hline]
    exact ih _ (fun hmem => h (List.mem_cons_of_mem _ hmem))

theorem fields_quiet (h : ∀ line ∈ after, ∀ b : Block, (b.field line).data = b.data) :
    (block.fields (before ++ after)).data = (block.fields before).data := by
  induction before generalizing block with
  | nil =>
    induction after generalizing block with
    | nil => rfl
    | cons line after ih =>
      by_cases hline : line = []
      · rw [hline]
        rfl
      · have hdata := ih (fun l hl => h l (List.mem_cons_of_mem _ hl)) (block.field line)
        rw [List.nil_append,fields_cons block hline]
        exact hdata.trans (h line List.mem_cons_self block)
  | cons line before ih =>
    by_cases hline : line = []
    · rw [hline]
      rfl
    · rw [List.cons_append,fields_cons block hline,fields_cons block hline]
      exact ih _

theorem set_effect (name value : Text) :
    (name = dataName ∨ (block.set name value).data = block.data) ∧
      ((block.set name value).event = block.event ∨ (block.set name value).event = some value) ∧
      ((block.set name value).id = block.id ∨ (block.set name value).id = some value) := by
  unfold set
  split
  · exact ⟨.inr rfl,.inl rfl,.inl rfl⟩
  split
  next hdata => exact ⟨.inl hdata,.inl rfl,.inl rfl⟩
  split
  · exact ⟨.inr rfl,.inr rfl,.inl rfl⟩
  split
  · split
    · exact ⟨.inr rfl,.inl rfl,.inl rfl⟩
    · exact ⟨.inr rfl,.inl rfl,.inr rfl⟩
  split
  · split
    · exact ⟨.inr rfl,.inl rfl,.inl rfl⟩
    · exact ⟨.inr rfl,.inl rfl,.inl rfl⟩
  · exact ⟨.inr rfl,.inl rfl,.inl rfl⟩

theorem set_data {name : Text} (h : name ≠ dataName) (value : Text) :
    (block.set name value).data = block.data := (block.set_effect name value).1.resolve_left h

theorem fields_oneLine (hlines : ∀ line ∈ before, OneLine line)
    (hevent : ∀ event ∈ block.event, OneLine event) (hid : ∀ id ∈ block.id, OneLine id) :
    (∀ event ∈ (block.fields before).event, OneLine event) ∧
      ∀ id ∈ (block.fields before).id, OneLine id := by
  induction before generalizing block with
  | nil => exact ⟨hevent,hid⟩
  | cons line before ih =>
    by_cases hline : line = []
    · rw [hline]
      exact ⟨hevent,hid⟩
    · have hvalue : OneLine (fieldValue line) := (hlines line List.mem_cons_self).sublist (fieldValue_sublist line)
      rw [fields_cons block hline]
      obtain ⟨-,hevent',hid'⟩ := block.set_effect (fieldName line) (fieldValue line)
      refine ih _ (fun l hl => hlines l (List.mem_cons_of_mem _ hl)) ?_ ?_
      · rcases hevent' with h | h
        · rwa [field,h]
        · rw [field,h]
          exact fun event hset => Option.mem_some.mp hset ▸ hvalue
      · rcases hid' with h | h
        · rwa [field,h]
        · rw [field,h]
          exact fun id hset => Option.mem_some.mp hset ▸ hvalue

theorem blocks_first : ∃ more, blocks block (before ++ [] :: after) = block.fields before :: more := by
  induction before generalizing block with
  | nil => exact ⟨_,rfl⟩
  | cons line before ih =>
    by_cases hline : line = []
    · subst hline
      exact ⟨_,rfl⟩
    · rw [List.cons_append,fields_cons block hline]
      simpa only [blocks,if_neg hline] using ih (block.field line)

theorem blocks_append (h : [] ∉ before) :
    blocks block (before ++ [] :: after) = block.fields before :: blocks {} after := by
  induction before generalizing block with
  | nil => rfl
  | cons line before ih =>
    have hline : line ≠ [] := fun e => h (e ▸ List.mem_cons_self)
    rw [List.cons_append,fields_cons block hline]
    simp only [blocks,if_neg hline]
    exact ih _ (fun hmem => h (List.mem_cons_of_mem _ hmem))

/-- Behind a blank line a new block begins. -/
theorem blocks_closed (before after : List Text) :
    blocks block (before ++ [] :: after) = blocks block (before ++ [[]]) ++ blocks {} after := by
  induction before generalizing block with
  | nil => rfl
  | cons line before ih =>
    by_cases hline : line = []
    · subst hline
      exact congrArg (block :: ·) (ih {})
    · rw [List.cons_append,List.cons_append]
      simp only [blocks,if_neg hline]
      exact ih _

end Block

/-- The blocks that set something. Nothing comes of the others. -/
def significant (blocks : List Block) : List Block := blocks.filter (· ≠ {})

theorem significant_append (first second : List Block) :
    significant (first ++ second) = significant first ++ significant second := List.filter_append ..

end H12Tiny.EventStream
