import H12Tiny.Http.Uri

/-! # The grammar of HTTP/1.1 requests

A reader of one request: a request line, field lines and a blank line, each ended by
CRLF, and as many bytes of body as the one `Content-Length` field says. It is strict: no
line holds another CR or LF, a field name is a token right in front of its colon, a value
has no control byte but a tab and is read without the white space around it.
-/
namespace H12Tiny.RequestGrammar
open Sync (Bytes toAsciiLowercase trimOws isOws)

structure Message where
  method : Bytes
  target : Bytes
  fields : List (Bytes × Bytes)
  body : Bytes
  deriving DecidableEq

/-- The first line, and what stands behind its CRLF. -/
def takeLine (bytes : Bytes) : Option (Bytes × Bytes) :=
  let line := bytes.takeWhile (· ≠ 13)
  match bytes.dropWhile (· ≠ 13) with
  | 13 :: 10 :: rest => if 10 ∈ line then none else some (line,rest)
  | _ => none

/-- The version `HTTP/1.1`. -/
def version : Bytes := [72,84,84,80,47,49,46,49]

def cut (byte : UInt8) (text : Bytes) : Bytes × Bytes :=
  (text.takeWhile (· ≠ byte),(text.dropWhile (· ≠ byte)).tail)

def parseRequestLine (line : Bytes) : Option (Bytes × Bytes) :=
  let (method,rest) := cut 32 line
  let (target,rest) := cut 32 rest
  if method ≠ [] ∧ method.all isToken ∧ target ≠ [] ∧ target.all isUriByte ∧ rest = version then
    some (method,target)
  else none

def parseField (line : Bytes) : Option (Bytes × Bytes) :=
  let (name,value) := cut 58 line
  if 58 ∈ line ∧ name ≠ [] ∧ name.all isToken ∧ value.all isFieldByte then some (name,trimOws value) else none

/-- Field lines up to a blank line. Every line takes bytes off, so their number bounds them. -/
def parseFields : ℕ → Bytes → Option (List (Bytes × Bytes) × Bytes)
  | 0,_ => none
  | fuel + 1,bytes =>
    match takeLine bytes with
    | none => none
    | some (line,rest) =>
      if line = [] then some ([],rest)
      else (parseField line).bind fun field =>
        (parseFields fuel rest).map fun result => (field :: result.1,result.2)

/-- The values of the fields of this name, which is given in lower case. -/
def valuesOf (fields : List (Bytes × Bytes)) (name : Bytes) : List Bytes :=
  (fields.filter fun field => field.1.map toAsciiLowercase = name).map Prod.snd

def contentLength : Bytes := [99,111,110,116,101,110,116,45,108,101,110,103,116,104]

def transferEncoding : Bytes := [116,114,97,110,115,102,101,114,45,101,110,99,111,100,105,110,103]

def isDigit (byte : UInt8) : Bool := 48 ≤ byte ∧ byte ≤ 57

def parseLength (value : Bytes) : Option ℕ :=
  if value ≠ [] ∧ value.all isDigit then
    some (value.foldl (fun n byte => 10 * n + (byte.toNat - 48)) 0)
  else none

/-- The length of the body. A request with a transfer coding is not read here. -/
def bodyLength (fields : List (Bytes × Bytes)) : Option ℕ :=
  if valuesOf fields transferEncoding ≠ [] then none
  else
    match valuesOf fields contentLength with
    | [] => some 0
    | [value] => parseLength value
    | _ => none

def parseRequest (bytes : Bytes) : Option (Message × Bytes) :=
  (takeLine bytes).bind fun (line,rest) =>
    (parseRequestLine line).bind fun (method,target) =>
      (parseFields (rest.length + 1) rest).bind fun (fields,rest) =>
        (bodyLength fields).bind fun length =>
          if length ≤ rest.length then
            some (⟨method,target,fields,rest.take length⟩,rest.drop length)
          else none

section Lines
variable {text rest : Bytes}

theorem takeLine_line (hcr : 13 ∉ text) (hlf : 10 ∉ text) :
    takeLine (text ++ 13 :: 10 :: rest) = some (text,rest) := by
  have hpos := ne_of_not_mem hcr
  have hline : (text ++ 13 :: 10 :: rest).takeWhile (· ≠ 13) = text := by
    rw [List.takeWhile_append_of_pos hpos]
    simp
  have hrest : (text ++ 13 :: 10 :: rest).dropWhile (· ≠ 13) = 13 :: 10 :: rest := by
    rw [List.dropWhile_append_of_pos hpos]
    simp
  simp only [takeLine,hline,hrest,if_neg hlf]

theorem cut_append {byte : UInt8} (h : byte ∉ text) : cut byte (text ++ byte :: rest) = (text,rest) := by
  unfold cut
  rw [List.takeWhile_append_of_pos (ne_of_not_mem h),List.dropWhile_append_of_pos (ne_of_not_mem h)]
  simp

end Lines

theorem not_mem_of_all {p : UInt8 → Bool} {byte : UInt8} {text : Bytes} (hp : p byte = false)
    (h : text.all p = true) : byte ∉ text := fun hmem =>
  Bool.false_ne_true (hp.symm.trans (List.all_eq_true.mp h byte hmem))

theorem valuesOf_cons (field : Bytes × Bytes) (fields : List (Bytes × Bytes)) (name : Bytes) :
    valuesOf (field :: fields) name =
      if field.1.map toAsciiLowercase = name then field.2 :: valuesOf fields name else valuesOf fields name := by
  by_cases h : field.1.map toAsciiLowercase = name <;> simp [valuesOf,h]

def lineText (method target : Bytes) : Bytes := method ++ 32 :: (target ++ 32 :: version)

def fieldText (field : Bytes × Bytes) : Bytes := field.1 ++ 58 :: 32 :: field.2

structure IsField (field : Bytes × Bytes) : Prop where
  present : field.1 ≠ []
  token : field.1.all isToken = true
  value : field.2.all isFieldByte = true

section Texts
variable {method target rest : Bytes} {field : Bytes × Bytes}

theorem parseRequestLine_lineText (hmethod : method ≠ [] ∧ method.all isToken = true)
    (htarget : target ≠ [] ∧ target.all isUriByte = true) :
    parseRequestLine (lineText method target) = some (method,target) := by
  have hfirst : 32 ∉ method := not_mem_of_all (by decide) hmethod.2
  have hsecond : 32 ∉ target := not_mem_of_all (by decide) htarget.2
  simp only [parseRequestLine,lineText,cut_append hfirst,cut_append hsecond]
  exact if_pos ⟨hmethod.1,hmethod.2,htarget.1,htarget.2,trivial⟩

/-- No byte of a request line ends it. -/
theorem lineText_whole {byte : UInt8} (htoken : isToken byte = false) (huri : isUriByte byte = false)
    (hother : byte ∉ 32 :: version) (hmethod : method.all isToken = true)
    (htarget : target.all isUriByte = true) : byte ∉ lineText method target := by
  have hspace : byte ≠ 32 := fun e => hother (e ▸ List.mem_cons_self)
  simp only [lineText,List.mem_append,List.mem_cons,not_or]
  simp only [List.mem_cons,not_or] at hother
  exact ⟨not_mem_of_all htoken hmethod,hspace,not_mem_of_all huri htarget,hspace,hother.2⟩

theorem IsField.parse (h : IsField field) : parseField (fieldText field) = some (field.1,trimOws field.2) := by
  have hname : 58 ∉ field.1 := not_mem_of_all (by decide) h.token
  have htrim : trimOws (32 :: field.2) = trimOws field.2 := rfl
  have hvalue : (32 :: field.2).all isFieldByte = true := by
    rw [List.all_cons,h.value]
    rfl
  simp only [parseField,fieldText,cut_append hname,htrim]
  exact if_pos ⟨List.mem_append_right _ List.mem_cons_self,h.present,h.token,hvalue⟩

theorem IsField.whole (h : IsField field) {byte : UInt8} (htoken : isToken byte = false)
    (hfield : isFieldByte byte = false) (hother : byte ∉ ([58,32] : Bytes)) : byte ∉ fieldText field := by
  simp only [List.mem_cons,List.not_mem_nil,or_false,not_or] at hother
  simp only [fieldText,List.mem_append,List.mem_cons,not_or]
  exact ⟨not_mem_of_all htoken h.token,hother.1,hother.2,not_mem_of_all hfield h.value⟩

theorem fieldText_ne_nil (field : Bytes × Bytes) : fieldText field ≠ [] := by
  simp [fieldText]

def fieldsText (fields : List (Bytes × Bytes)) : Bytes := fields.flatMap fun field => fieldText field ++ [13,10]

theorem parseFields_fieldsText {fields : List (Bytes × Bytes)} (h : ∀ field ∈ fields, IsField field) {fuel : ℕ}
    (hfuel : fields.length < fuel) :
    parseFields fuel (fieldsText fields ++ 13 :: 10 :: rest) =
      some (fields.map fun field => (field.1,trimOws field.2),rest) := by
  obtain ⟨fuel,rfl⟩ : ∃ n, fuel = n + 1 := ⟨fuel - 1,by omega⟩
  induction fields generalizing fuel with
  | nil => rfl
  | cons field fields ih =>
    have hfield := h field List.mem_cons_self
    have hline : takeLine (fieldsText (field :: fields) ++ 13 :: 10 :: rest) =
        some (fieldText field,fieldsText fields ++ 13 :: 10 :: rest) := by
      have htake := @takeLine_line (fieldText field) (fieldsText fields ++ 13 :: 10 :: rest)
        (hfield.whole (by decide) (by decide) (by decide)) (hfield.whole (by decide) (by decide) (by decide))
      simpa [fieldsText] using htake
    obtain ⟨fuel,rfl⟩ : ∃ n, fuel = n + 1 := ⟨fuel - 1,by simp only [List.length_cons] at hfuel; omega⟩
    have hrest := ih (fun other hother => h other (List.mem_cons_of_mem _ hother)) fuel
      (by simp only [List.length_cons] at hfuel; omega)
    rw [parseFields,hline]
    simp only [if_neg (fieldText_ne_nil field),hfield.parse,hrest,Option.bind_some,Option.map_some,List.map_cons]

theorem fieldsText_length (fields : List (Bytes × Bytes)) : fields.length ≤ (fieldsText fields).length := by
  induction fields with
  | nil => exact Nat.le_refl 0
  | cons field fields ih =>
    simp only [fieldsText,List.flatMap_cons,List.length_append,List.length_cons] at ih ⊢
    omega

/-- A request that is written out by the grammar is read as itself. -/
theorem parseRequest_text {fields : List (Bytes × Bytes)} {body : Bytes}
    (hmethod : method ≠ [] ∧ method.all isToken = true) (htarget : target ≠ [] ∧ target.all isUriByte = true)
    (hfields : ∀ field ∈ fields, IsField field)
    (hlength : bodyLength (fields.map fun field => (field.1,trimOws field.2)) = some body.length) :
    parseRequest (lineText method target ++ 13 :: 10 :: (fieldsText fields ++ 13 :: 10 :: body)) =
      some (⟨method,target,fields.map fun field => (field.1,trimOws field.2),body⟩,[]) := by
  have hline := @takeLine_line (lineText method target) (fieldsText fields ++ 13 :: 10 :: body)
    (lineText_whole (by decide) (by decide) (by decide) hmethod.2 htarget.2)
    (lineText_whole (by decide) (by decide) (by decide) hmethod.2 htarget.2)
  have hfuel : fields.length < (fieldsText fields ++ 13 :: 10 :: body).length + 1 := by
    have := fieldsText_length fields
    rw [List.length_append]
    omega
  simp only [parseRequest,hline,Option.bind_some,parseRequestLine_lineText hmethod htarget,
    parseFields_fieldsText hfields hfuel,hlength,le_refl,if_true,List.take_length,List.drop_length]

end Texts

end H12Tiny.RequestGrammar
