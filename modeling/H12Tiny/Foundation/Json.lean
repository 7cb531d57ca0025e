import H12Tiny.Foundation.Decimal
import H12Tiny.Foundation.Numerals
import Mathlib.Data.List.Basic

/-! # JSON texts

The grammar of JSON over the bytes of UTF-8. A text is related to what it denotes only as far
as it is needed: a string literal to the bytes of its content, an object to the names of its
members and the texts of their values, in the order of the text. An object without white space
of which all values are scalars is read in one way: a string ends at its first quotation mark,
and a number or a literal where its bytes do.
-/
namespace H12Tiny.Json

def isBlank (byte : UInt8) : Bool := byte = 32 ∨ byte = 9 ∨ byte = 10 ∨ byte = 13

def Blank (text : List UInt8) : Prop := ∀ byte ∈ text, isBlank byte = true

/-- The texts `true`, `false` and `null`. -/
def literals : List (List UInt8) := [[116,114,117,101],[102,97,108,115,101],[110,117,108,108]]

def IsNumber (text : List UInt8) : Prop := ∃ d : Decimal, d.text = text ∧ d.isJson = true

/-- A number without a point and an exponent, and the integer it denotes. -/
def IsInteger (text : List UInt8) (n : ℤ) : Prop :=
  ∃ d : Decimal, d.text = text ∧ d.isJson = true ∧ d.IsInteger n

section Strings

/-- The bytes that stand for one byte behind a backslash, with that byte. -/
def escapes : List (UInt8 × UInt8) :=
  [(34,34),(92,92),(47,47),(98,8),(102,12),(110,10),(114,13),(116,9)]

/-- The code unit of four hexadecimal digits. -/
def codeUnit (a b c d : UInt8) : Option ℕ := do
  let w ← digitValue a
  let x ← digitValue b
  let y ← digitValue c
  let z ← digitValue d
  some (4096 * w + 256 * x + 16 * y + z)

def isSurrogate (n : ℕ) : Bool := 0xD800 ≤ n ∧ n < 0xE000

/-- The code point of a surrogate pair. -/
def pairValue (high low : ℕ) : ℕ := 0x10000 + (high - 0xD800) * 0x400 + (low - 0xDC00)

/-- A character of a string as it is written, and the bytes that it denotes. -/
inductive Piece : List UInt8 → List UInt8 → Prop
  | plain {byte : UInt8} (h : 32 ≤ byte ∧ byte ≠ 34 ∧ byte ≠ 92) : Piece [byte] [byte]
  | escape {mark byte : UInt8} (h : (mark,byte) ∈ escapes) : Piece [92,mark] [byte]
  | unicode {a b c d : UInt8} {char : Char} (h : codeUnit a b c d = some char.toNat) :
      Piece [92,117,a,b,c,d] (String.utf8EncodeChar char)
  | surrogates {a b c d a' b' c' d' : UInt8} {high low : ℕ} {char : Char}
      (hhigh : codeUnit a b c d = some high) (hlow : codeUnit a' b' c' d' = some low)
      (hpair : 0xD800 ≤ high ∧ high < 0xDC00 ∧ 0xDC00 ≤ low ∧ low < 0xE000)
      (hchar : char.toNat = pairValue high low) :
      Piece [92,117,a,b,c,d,92,117,a',b',c',d'] (String.utf8EncodeChar char)

/-- What stands between the quotation marks, and the bytes that it denotes. -/
inductive Denotes : List UInt8 → List UInt8 → Prop
  | nil : Denotes [] []
  | cons {piece bytes body content : List UInt8} (h : Piece piece bytes) (rest : Denotes body content) :
      Denotes (piece ++ body) (bytes ++ content)

def StringLiteral (text content : List UInt8) : Prop := ∃ body, text = 34 :: (body ++ [34]) ∧ Denotes body content

end Strings

section Values

structure Item where
  before : List UInt8
  value : List UInt8
  after : List UInt8
  before_blank : Blank before
  after_blank : Blank after

def Item.text (item : Item) : List UInt8 := item.before ++ (item.value ++ item.after)

/-- A member of an object: a name, a colon and an item. -/
structure Member where
  before : List UInt8
  literal : List UInt8
  name : List UInt8
  after : List UInt8
  item : Item
  before_blank : Blank before
  denotes : StringLiteral literal name
  after_blank : Blank after

def Member.text (member : Member) : List UInt8 :=
  member.before ++ (member.literal ++ (member.after ++ 58 :: member.item.text))

def separated (texts : List (List UInt8)) : List UInt8 := [44].intercalate texts

def bracketed (body : List UInt8) : List UInt8 := 91 :: (body ++ [93])
def braced (body : List UInt8) : List UInt8 := 123 :: (body ++ [125])

inductive Value : List UInt8 → Prop
  | literal {text : List UInt8} (h : text ∈ literals) : Value text
  | number {text : List UInt8} (h : IsNumber text) : Value text
  | string {text content : List UInt8} (h : StringLiteral text content) : Value text
  | array {items : List Item} (h : ∀ item ∈ items, Value item.value) :
      Value (bracketed (separated (items.map Item.text)))
  | emptyArray {blank : List UInt8} (h : Blank blank) : Value (bracketed blank)
  | object {members : List Member} (h : ∀ member ∈ members, Value member.item.value) :
      Value (braced (separated (members.map Member.text)))
  | emptyObject {blank : List UInt8} (h : Blank blank) : Value (braced blank)

/-- The name of a member and the text of its value. -/
def Member.entry (member : Member) : List UInt8 × List UInt8 := (member.name,member.item.value)

/-- The text is an object with these members, each given by its name and the text of its value. -/
inductive Object : List UInt8 → List (List UInt8 × List UInt8) → Prop
  | members {members : List Member} (h : ∀ member ∈ members, Value member.item.value) :
      Object (braced (separated (members.map Member.text))) (members.map Member.entry)
  | empty {blank : List UInt8} (h : Blank blank) : Object (braced blank) []

end Values

theorem blank_nil : Blank [] := List.forall_mem_nil _

def Member.compact {literal name : List UInt8} (h : StringLiteral literal name) (value : List UInt8) : Member :=
  ⟨[],literal,name,[],⟨[],value,[],blank_nil,blank_nil⟩,blank_nil,h,blank_nil⟩

theorem Member.text_compact {literal name : List UInt8} (h : StringLiteral literal name) (value : List UInt8) :
    (Member.compact h value).text = literal ++ 58 :: value :=
  congrArg (fun tail => literal ++ 58 :: tail) (List.append_nil value)

theorem IsInteger.isNumber {text : List UInt8} {n : ℤ} (h : IsInteger text n) : IsNumber text := by
  obtain ⟨d,htext,hjson,-⟩ := h
  exact ⟨d,htext,hjson⟩

instance (text : List UInt8) : Decidable (IsNumber text) :=
  decidable_of_iff ((Decimal.read text).any Decimal.isJson = true) <| by
    rw [Option.any_eq_true]
    simp only [Decimal.read_eq_some]
    rfl

section ReadingStrings

def readLow (high : ℕ) : List UInt8 → Option (List UInt8 × List UInt8)
  | _ :: _ :: a :: b :: c :: d :: rest =>
    (codeUnit a b c d).map fun low => (String.utf8EncodeChar (Char.ofNat (pairValue high low)),rest)
  | _ => none

def readUnicode : List UInt8 → Option (List UInt8 × List UInt8)
  | a :: b :: c :: d :: rest =>
    (codeUnit a b c d).bind fun n =>
      if isSurrogate n then readLow n rest else some (String.utf8EncodeChar (Char.ofNat n),rest)
  | _ => none

def readEscape : List UInt8 → Option (List UInt8 × List UInt8)
  | [] => none
  | mark :: rest =>
    if mark = 117 then readUnicode rest else (escapes.lookup mark).map fun byte => ([byte],rest)

def readPiece : List UInt8 → Option (List UInt8 × List UInt8)
  | [] => none
  | byte :: rest =>
    if byte = 34 then none else if byte = 92 then readEscape rest else some ([byte],rest)

theorem lookup_escapes {mark byte : UInt8} (h : (mark,byte) ∈ escapes) :
    mark ≠ 117 ∧ escapes.lookup mark = some byte := by
  have hall : escapes.all (fun p => p.1 != 117 && escapes.lookup p.1 == some p.2) = true := rfl
  have hboth := List.all_eq_true.mp hall (mark,byte) h
  rw [Bool.and_eq_true,bne_iff_ne,beq_iff_eq] at hboth
  exact hboth

theorem not_isSurrogate (char : Char) : isSurrogate char.toNat = false := by
  have hvalid : char.toNat < 0xD800 ∨ 0xDFFF < char.toNat ∧ char.toNat < 0x110000 := char.valid
  rw [isSurrogate,decide_eq_false_iff_not]
  omega

theorem Piece.read {piece bytes : List UInt8} (h : Piece piece bytes) (rest : List UInt8) :
    readPiece (piece ++ rest) = some (bytes,rest) := by
  cases h with
  | plain h => simp [readPiece,h.2.1,h.2.2]
  | escape h =>
    obtain ⟨hmark,hlookup⟩ := lookup_escapes h
    simp [readPiece,readEscape,hmark,hlookup]
  | @unicode a b c d char h =>
    simp [readPiece,readEscape,readUnicode,h,not_isSurrogate,Char.ofNat_toNat]
  | @surrogates a b c d a' b' c' d' high low char hhigh hlow hpair hchar =>
    have hsurrogate : isSurrogate high = true := decide_eq_true ⟨hpair.1,by omega⟩
    simp [readPiece,readEscape,readUnicode,readLow,hhigh,hlow,hsurrogate,← hchar,Char.ofNat_toNat]

/-- A string ends at its first quotation mark, and denotes one content. -/
theorem Denotes.unique {body body' content content' rest rest' : List UInt8} (h : Denotes body content)
    (h' : Denotes body' content') (heq : body ++ 34 :: rest = body' ++ 34 :: rest') :
    content = content' ∧ rest = rest' := by
  induction h generalizing body' content' with
  | nil =>
    cases h' with
    | nil => exact ⟨rfl,List.tail_eq_of_cons_eq heq⟩
    | @cons _ _ tail' _ hpiece _ =>
      have hread := hpiece.read (tail' ++ 34 :: rest')
      rw [← List.append_assoc,← heq] at hread
      cases hread
  | @cons _ _ tail _ hpiece _ ih =>
    rw [List.append_assoc] at heq
    have hread := hpiece.read (tail ++ 34 :: rest)
    cases h' with
    | nil =>
      rw [heq] at hread
      cases hread
    | cons hpiece' hrest' =>
      rw [heq,List.append_assoc,hpiece'.read] at hread
      obtain ⟨rfl,hbody⟩ := Prod.mk.inj (Option.some.inj hread)
      obtain ⟨rfl,hrest⟩ := ih hrest' hbody.symm
      exact ⟨rfl,hrest⟩

theorem StringLiteral.unique {text text' content content' rest rest' : List UInt8} (h : StringLiteral text content)
    (h' : StringLiteral text' content') (heq : text ++ rest = text' ++ rest') :
    text = text' ∧ content = content' ∧ rest = rest' := by
  obtain ⟨body,hbody,hdenotes⟩ := h
  obtain ⟨body',hbody',hdenotes'⟩ := h'
  have hsame : body ++ 34 :: rest = body' ++ 34 :: rest' := by
    rw [hbody,hbody'] at heq
    simpa using heq
  obtain ⟨hcontent,rfl⟩ := hdenotes.unique hdenotes' hsame
  exact ⟨List.append_cancel_right heq,hcontent,rfl⟩

end ReadingStrings

section ReadingObjects

def isTokenByte (byte : UInt8) : Bool :=
  isDecimal byte = true ∨ isSign byte = true ∨ byte = 46 ∨ byte = 69 ∨ 97 ≤ byte ∧ byte ≤ 122

def Token (text : List UInt8) : Prop := text ≠ [] ∧ text.all isTokenByte = true

theorem token_literal {text : List UInt8} (h : text ∈ literals) : Token text := by
  have hall : literals.all (fun text => text != [] && text.all isTokenByte) = true := rfl
  have hboth := List.all_eq_true.mp hall text h
  rw [Bool.and_eq_true,bne_iff_ne] at hboth
  exact hboth

theorem all_isTokenByte {digits : Digits} : digits.val.all isTokenByte = true :=
  List.all_eq_true.mpr fun byte hbyte =>
    decide_eq_true (.inl (List.all_eq_true.mp digits.property byte hbyte))

theorem all_signText (sign : Option Sign) : (Sign.text sign).all isTokenByte = true := by
  cases sign with
  | none => rfl
  | some sign => cases sign <;> rfl

theorem token_decimal (d : Decimal) : Token d.text := by
  have hfraction : (Decimal.fractionText d.fraction).all isTokenByte = true := by
    cases d.fraction with
    | none => rfl
    | some digits => exact Bool.and_eq_true_iff.mpr ⟨rfl,all_isTokenByte⟩
  have hexponent : (Decimal.exponentText d.exponent).all isTokenByte = true := by
    cases d.exponent with
    | none => rfl
    | some e =>
      have hmark : isTokenByte e.mark = true := by
        rw [Exponent.mark]
        split <;> rfl
      refine Bool.and_eq_true_iff.mpr ⟨hmark,?_⟩
      rw [List.all_append,all_signText,all_isTokenByte]
      rfl
  constructor
  · intro hnil
    have hread := Decimal.read_text d
    rw [hnil] at hread
    cases hread
  · rw [Decimal.text,List.all_append,List.all_append,List.all_append,all_signText,all_isTokenByte,hfraction,hexponent]
    rfl

theorem StringLiteral.not_decimal {text content : List UInt8} (h : StringLiteral text content) (d : Decimal) :
    d.text ≠ text := by
  intro htext
  obtain ⟨body,rfl,-⟩ := h
  have hall := (token_decimal d).2
  rw [htext] at hall
  cases (List.all_eq_true.mp hall 34 List.mem_cons_self)

theorem Token.unique {text text' rest rest' : List UInt8} (h : Token text) (h' : Token text')
    (hrest : Free isTokenByte rest) (hrest' : Free isTokenByte rest') (heq : text ++ rest = text' ++ rest') :
    text = text' ∧ rest = rest' := by
  obtain ⟨htake,hdrop⟩ := hrest.span (List.all_eq_true.mp h.2)
  obtain ⟨htake',hdrop'⟩ := hrest'.span (List.all_eq_true.mp h'.2)
  rw [heq] at htake hdrop
  exact ⟨htake.symm.trans htake',hdrop.symm.trans hdrop'⟩

/-- A value that is not made of other ones. -/
inductive Scalar : List UInt8 → Prop
  | literal {text : List UInt8} (h : text ∈ literals) : Scalar text
  | number {text : List UInt8} (h : IsNumber text) : Scalar text
  | string {text content : List UInt8} (h : StringLiteral text content) : Scalar text

theorem Scalar.value {text : List UInt8} (h : Scalar text) : Value text := by
  cases h with
  | literal h => exact .literal h
  | number h => exact .number h
  | string h => exact .string h

theorem Scalar.kind {text : List UInt8} (h : Scalar text) : Token text ∨ ∃ content, StringLiteral text content := by
  cases h with
  | literal h => exact .inl (token_literal h)
  | number h =>
    obtain ⟨d,rfl,-⟩ := h
    exact .inl (token_decimal d)
  | string h => exact .inr ⟨_,h⟩

theorem Value.kind {text : List UInt8} (h : Value text) :
    Scalar text ∨ ∃ byte rest, text = byte :: rest ∧ (byte = 91 ∨ byte = 123) := by
  cases h with
  | literal h => exact .inl (.literal h)
  | number h => exact .inl (.number h)
  | string h => exact .inl (.string h)
  | array | emptyArray => exact .inr ⟨_,_,rfl,.inl rfl⟩
  | object | emptyObject => exact .inr ⟨_,_,rfl,.inr rfl⟩

def isScalarStart (byte : UInt8) : Bool := isTokenByte byte = true ∨ byte = 34

theorem Scalar.start {text : List UInt8} (h : Scalar text) :
    ∃ byte rest, text = byte :: rest ∧ isScalarStart byte = true := by
  rcases h.kind with htoken | ⟨_,body,rfl,-⟩
  · obtain ⟨byte,rest,rfl⟩ := List.exists_cons_of_ne_nil htoken.1
    exact ⟨byte,rest,rfl,decide_eq_true (.inl (List.all_eq_true.mp htoken.2 byte List.mem_cons_self))⟩
  · exact ⟨34,_,rfl,rfl⟩

theorem not_isBlank {byte : UInt8} (h : isScalarStart byte = true) : isBlank byte = false := by
  by_contra hblank
  rw [Bool.not_eq_false,isBlank,decide_eq_true_eq] at hblank
  rcases hblank with rfl | rfl | rfl | rfl <;> cases h

/-- In front of what a token does not go on with, a scalar is one value only. -/
theorem Scalar.unique {text text' rest rest' : List UInt8} (h : Scalar text) (h' : Value text')
    (hrest : Free isTokenByte rest) (hrest' : Free isTokenByte rest') (heq : text ++ rest = text' ++ rest') :
    text = text' ∧ rest = rest' := by
  have hquote : ∀ {token literal content x y : List UInt8}, Token token → StringLiteral literal content →
      token ++ x ≠ literal ++ y := by
    rintro token literal content x y ⟨hne,hall⟩ ⟨body,rfl,-⟩ hsame
    obtain ⟨byte,tail,rfl⟩ := List.exists_cons_of_ne_nil hne
    have hbyte := List.all_eq_true.mp hall byte List.mem_cons_self
    rw [(List.cons.inj hsame).1] at hbyte
    cases hbyte
  rcases h'.kind with hscalar | ⟨bracket,_,rfl,hbracket⟩
  · rcases h.kind with htoken | ⟨_,hstring⟩ <;> rcases hscalar.kind with htoken' | ⟨_,hstring'⟩
    · exact htoken.unique htoken' hrest hrest' heq
    · exact absurd heq (hquote htoken hstring')
    · exact absurd heq.symm (hquote htoken' hstring)
    · obtain ⟨htext,-,hsame⟩ := hstring.unique hstring' heq
      exact ⟨htext,hsame⟩
  · obtain ⟨byte,_,rfl,hstart⟩ := h.start
    rw [(List.cons.inj heq).1] at hstart
    rcases hbracket with rfl | rfl
    · cases hstart
    · cases hstart

theorem Blank.eq_nil {blank text rest : List UInt8} (h : Blank blank) (htext : Free isBlank text)
    (heq : text = blank ++ rest) : blank = [] := by
  cases blank with
  | nil => rfl
  | cons byte blank =>
    have hbyte := htext byte (by rw [heq]; rfl)
    rw [h byte List.mem_cons_self] at hbyte
    cases hbyte

/-- The members behind the first one, and the brace that ends the object. -/
def closing (texts : List (List UInt8)) : List UInt8 := texts.flatMap (44 :: ·) ++ [125]

theorem closing_cons (text : List UInt8) (texts : List (List UInt8)) :
    closing (text :: texts) = 44 :: (text ++ closing texts) := by
  rw [closing,List.flatMap_cons,List.append_assoc]
  rfl

theorem separated_cons (text : List UInt8) (texts : List (List UInt8)) :
    separated (text :: texts) = text ++ texts.flatMap (44 :: ·) := by
  induction texts generalizing text with
  | nil => exact List.intercalate_singleton.trans (List.append_nil text).symm
  | cons next texts ih =>
    rw [separated,List.intercalate_cons_cons,List.append_assoc]
    exact congrArg (fun tail => text ++ 44 :: tail) (ih next)

theorem braced_cons (text : List UInt8) (texts : List (List UInt8)) :
    braced (separated (text :: texts)) = 123 :: (text ++ closing texts) := by
  rw [braced,separated_cons,List.append_assoc,closing]

theorem free_closing {p : UInt8 → Bool} (hcomma : p 44 = false) (hbrace : p 125 = false)
    (texts : List (List UInt8)) : Free p (closing texts) := by
  cases texts with
  | nil => exact .cons hbrace
  | cons text texts =>
    rw [closing_cons]
    exact .cons hcomma

/-- A member without white space, of which the value is a scalar. -/
structure Member.Compact (member : Member) : Prop where
  text : member.text = member.literal ++ 58 :: member.item.value
  scalar : Scalar member.item.value

theorem Blank.free {p : UInt8 → Bool} {blank : List UInt8} (h : Blank blank) (hspace : p 32 = false)
    (htab : p 9 = false) (hlf : p 10 = false) (hcr : p 13 = false) : Free p blank := by
  intro byte hmem
  have hbyte := h byte (List.mem_of_mem_head? hmem)
  rw [isBlank,decide_eq_true_eq] at hbyte
  rcases hbyte with rfl | rfl | rfl | rfl
  · exact hspace
  · exact htab
  · exact hlf
  · exact hcr

theorem StringLiteral.free {p : UInt8 → Bool} {text content : List UInt8} (h : StringLiteral text content)
    (hquote : p 34 = false) (rest : List UInt8) : Free p (text ++ rest) := by
  obtain ⟨body,rfl,-⟩ := h
  exact .cons hquote

theorem Member.text_ne (member : Member) (rest : List UInt8) : member.text ++ rest ≠ [125] := by
  intro heq
  have hfree : Free (· == 125) (member.text ++ rest) := by
    rw [Member.text,List.append_assoc,List.append_assoc]
    exact (member.before_blank.free rfl rfl rfl rfl).append (member.denotes.free rfl _)
  rw [heq] at hfree
  cases hfree 125 rfl

theorem Member.Compact.unique {member member' : Member} {texts texts' : List (List UInt8)} (h : member.Compact)
    (hvalue : Value member'.item.value) (heq : member.text ++ closing texts = member'.text ++ closing texts') :
    member.entry = member'.entry ∧ closing texts = closing texts' := by
  obtain ⟨before,literal,name,after,⟨before',value,after',hbefore',hafter'⟩,hbefore,hname,hafter⟩ := member'
  rw [h.text,List.append_assoc] at heq
  simp only [Member.text,Item.text,List.append_assoc,List.cons_append] at heq
  -- The name begins with a quotation mark, so nothing stands before it.
  obtain rfl := hbefore.eq_nil (member.denotes.free rfl _) heq
  obtain ⟨-,hnames,hrest⟩ := member.denotes.unique hname heq
  obtain rfl := hafter.eq_nil (.cons rfl) hrest
  have hvalues := (List.cons.inj hrest).2
  have hstart : Free isBlank (member.item.value ++ closing texts) := by
    obtain ⟨byte,rest,hbyte,hscalar⟩ := h.scalar.start
    rw [hbyte]
    exact .cons (not_isBlank hscalar)
  obtain rfl := hbefore'.eq_nil hstart hvalues
  obtain ⟨hsame,hend⟩ := h.scalar.unique hvalue (free_closing rfl rfl texts)
    ((hafter'.free rfl rfl rfl rfl).append (free_closing rfl rfl texts')) hvalues
  obtain rfl := hafter'.eq_nil (free_closing rfl rfl texts) hend
  exact ⟨Prod.ext hnames hsame,hend⟩

theorem closing_unique {entries members : List Member} (h : ∀ member ∈ entries, member.Compact)
    (hvalues : ∀ member ∈ members, Value member.item.value)
    (heq : closing (entries.map Member.text) = closing (members.map Member.text)) :
    entries.map Member.entry = members.map Member.entry := by
  induction entries generalizing members with
  | nil =>
    cases members with
    | nil => rfl
    | cons member members =>
      rw [List.map_cons,closing_cons] at heq
      cases heq
  | cons entry entries ih =>
    cases members with
    | nil =>
      rw [List.map_cons,closing_cons] at heq
      cases heq
    | cons member members =>
      obtain ⟨hcompact,hrest⟩ := List.forall_mem_cons.mp h
      obtain ⟨hvalue,hmore⟩ := List.forall_mem_cons.mp hvalues
      rw [List.map_cons,List.map_cons,closing_cons,closing_cons] at heq
      obtain ⟨hentry,hend⟩ := hcompact.unique hvalue (List.cons.inj heq).2
      rw [List.map_cons,List.map_cons,hentry,ih hrest hmore hend]

/-- An object without white space of which the values are scalars has no other members. -/
theorem Object.unique {entries : List Member} {members : List (List UInt8 × List UInt8)}
    (h : ∀ member ∈ entries, member.Compact)
    (hobject : Object (braced (separated (entries.map Member.text))) members) :
    members = entries.map Member.entry := by
  generalize htext : braced (separated (entries.map Member.text)) = text at hobject
  cases hobject with
  | @members others hvalues =>
    cases entries with
    | nil =>
      cases others with
      | nil => rfl
      | cons other others =>
        rw [List.map_cons,braced_cons] at htext
        exact absurd (List.cons.inj htext).2.symm (other.text_ne _)
    | cons entry entries =>
      cases others with
      | nil =>
        rw [List.map_cons,braced_cons] at htext
        exact absurd (List.cons.inj htext).2 (entry.text_ne _)
      | cons other others =>
        rw [List.map_cons,List.map_cons,braced_cons,braced_cons] at htext
        refine (closing_unique h hvalues ?_).symm
        rw [List.map_cons,List.map_cons,closing_cons,closing_cons,(List.cons.inj htext).2]
  | empty hblank =>
    cases entries with
    | nil => rfl
    | cons entry entries =>
      have hcompact := h entry List.mem_cons_self
      rw [List.map_cons,braced_cons] at htext
      have hbody := (List.cons.inj htext).2
      have hfree : Free isBlank (entry.text ++ closing (entries.map Member.text)) := by
        rw [hcompact.text,List.append_assoc]
        exact entry.denotes.free rfl _
      obtain rfl := hblank.eq_nil hfree hbody
      exact absurd hbody (entry.text_ne _)

end ReadingObjects

section Quoting

def hexSymbol (n : ℕ) : UInt8 := UInt8.ofNat (if n < 10 then 48 + n else 87 + n)

/-- A byte as it is written in a string literal. -/
def quoteByte (byte : UInt8) : List UInt8 :=
  if byte = 34 ∨ byte = 92 then [92,byte]
  else if byte < 32 then [92,117,48,48,hexSymbol (byte.toNat / 16),hexSymbol (byte.toNat % 16)]
  else [byte]

def quote (content : List UInt8) : List UInt8 := 34 :: (content.flatMap quoteByte ++ [34])

theorem codeUnit_control {n : ℕ} (h : n < 32) :
    codeUnit 48 48 (hexSymbol (n / 16)) (hexSymbol (n % 16)) = some (Char.ofNat n).toNat ∧
      String.utf8EncodeChar (Char.ofNat n) = [UInt8.ofNat n] := by
  have hall : ∀ n : Fin 32, codeUnit 48 48 (hexSymbol (n / 16)) (hexSymbol (n % 16)) = some (Char.ofNat n).toNat ∧
      String.utf8EncodeChar (Char.ofNat n) = [UInt8.ofNat n] := by decide
  exact hall ⟨n,h⟩

theorem piece_quoteByte (byte : UInt8) : Piece (quoteByte byte) [byte] := by
  unfold quoteByte
  split
  next hmark =>
    apply Piece.escape
    rcases hmark with rfl | rfl
    · decide
    · decide
  next hmark =>
    split
    next hcontrol =>
      obtain ⟨hunit,hchar⟩ := codeUnit_control (UInt8.lt_iff_toNat_lt.mp hcontrol)
      have hpiece := Piece.unicode hunit
      rw [hchar,UInt8.ofNat_toNat] at hpiece
      exact hpiece
    next hcontrol => exact .plain ⟨UInt8.not_lt.mp hcontrol,not_or.mp hmark⟩

theorem quote_literal (content : List UInt8) : StringLiteral (quote content) content := by
  refine ⟨_,rfl,?_⟩
  induction content with
  | nil => exact .nil
  | cons byte content ih => exact .cons (piece_quoteByte byte) ih

end Quoting
end H12Tiny.Json
