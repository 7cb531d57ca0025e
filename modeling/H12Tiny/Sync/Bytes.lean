import H12Tiny.Foundation.Numerals
import H12Tiny.Foundation.Search
import Mathlib.Algebra.GroupWithZero.Nat
import Mathlib.Data.List.DropRight
import Mathlib.Data.Option.Basic

/-! # Byte strings of the blocking client

The helpers at the end of the blocking client's `lib.rs` and the parts of the
standard library they call. A byte slice is a list of bytes, a `u64` a natural
number below `u64Values`.
-/
namespace H12Tiny.Sync

inductive IoErrorKind
  | wouldBlock
  | timedOut
  | interrupted
  | unexpectedEof
  | invalidData
  | invalidInput
  | other
  deriving DecidableEq, Repr

structure IoError where
  kind : IoErrorKind
  message : String
  deriving DecidableEq, Repr

abbrev Bytes := List UInt8

def cr : UInt8 := 13
def lf : UInt8 := 10
def crlf : Bytes := [cr,lf]
def colon : UInt8 := 58
def semicolon : UInt8 := 59

def findHeadEnd (bytes : Bytes) : Option ℕ := findSub (crlf ++ crlf) bytes

def findCrlf (bytes : Bytes) : Option ℕ := findSub crlf bytes

def isOws (byte : UInt8) : Bool := byte = 32 ∨ byte = 9

def trimOws (bytes : Bytes) : Bytes := (bytes.dropWhile isOws).rdropWhile isOws

def toAsciiLowercase (byte : UInt8) : UInt8 := if 65 ≤ byte ∧ byte ≤ 90 then byte + 32 else byte

def isContinuation (byte : UInt8) : Bool := 0x80 ≤ byte ∧ byte ≤ 0xBF

/-- The second byte of a sequence of three or four bytes, which excludes overlong
forms, surrogates and values past the last code point. -/
def isSecond (first byte : UInt8) : Bool :=
  if first = 0xE0 then 0xA0 ≤ byte ∧ byte ≤ 0xBF
  else if first = 0xED then 0x80 ≤ byte ∧ byte ≤ 0x9F
  else if first = 0xF0 then 0x90 ≤ byte ∧ byte ≤ 0xBF
  else if first = 0xF4 then 0x80 ≤ byte ∧ byte ≤ 0x8F
  else isContinuation byte

/-- `std::str::from_utf8` succeeds. -/
def utf8Valid : Bytes → Bool
  | [] => true
  | a :: rest =>
    if a < 0x80 then utf8Valid rest
    else
      match rest with
      | [] => false
      | b :: rest =>
        if 0xC2 ≤ a ∧ a ≤ 0xDF then isContinuation b && utf8Valid rest
        else
          match rest with
          | [] => false
          | c :: rest =>
            if 0xE0 ≤ a ∧ a ≤ 0xEF then isSecond a b && isContinuation c && utf8Valid rest
            else
              match rest with
              | [] => false
              | d :: rest =>
                decide (0xF0 ≤ a ∧ a ≤ 0xF4) && isSecond a b && isContinuation c &&
                  isContinuation d && utf8Valid rest

/-- How many values the integer types have. -/
def u16Values : ℕ := 65536
def u64Values : ℕ := 18446744073709551616

def parseChunkSize (line : Bytes) : Except IoError ℕ :=
  let size := trimOws (line.takeWhile (· ≠ semicolon))
  if utf8Valid size then
    match fromStrRadix 16 u64Values size with
    | some size => .ok size
    | none => .error ⟨.invalidData,"HTTP chunk size was invalid"⟩
  else .error ⟨.invalidData,"HTTP chunk size was not ASCII"⟩

@[simp] theorem crlf_length : crlf.length = 2 := rfl

theorem utf8Valid_append {bytes rest : Bytes} (h : ∀ b ∈ bytes, b < 0x80) :
    utf8Valid (bytes ++ rest) = utf8Valid rest := by
  induction bytes with
  | nil => rfl
  | cons b bytes ih =>
    rw [List.cons_append,utf8Valid.eq_def]
    dsimp only
    rw [if_pos (h b List.mem_cons_self)]
    exact ih (fun c hc => h c (List.mem_cons_of_mem _ hc))

theorem utf8Valid_of_ascii {bytes : Bytes} (h : ∀ b ∈ bytes, b < 0x80) : utf8Valid bytes = true := by
  rw [← List.append_nil bytes,utf8Valid_append h]
  rfl

theorem trimOws_eq_self {bytes : Bytes} (h : ∀ b ∈ bytes, isOws b = false) : trimOws bytes = bytes := by
  have hleft : bytes.dropWhile isOws = bytes := by
    rw [List.dropWhile_eq_self_iff]
    intro hlen
    rw [h _ (List.getElem_mem hlen)]
    exact Bool.false_ne_true
  rw [trimOws,hleft,List.rdropWhile_eq_self_iff]
  intro hne
  rw [h _ (List.getLast_mem hne)]
  exact Bool.false_ne_true

theorem eq_takeWhile_append {byte : UInt8} {text : Bytes} (h : byte ∈ text) :
    text = text.takeWhile (· ≠ byte) ++ byte :: (text.dropWhile (· ≠ byte)).tail := by
  induction text with
  | nil => cases h
  | cons first rest ih =>
    by_cases hfirst : first = byte
    · simp [hfirst]
    · have hrest := ih ((List.mem_cons.mp h).resolve_left (Ne.symm hfirst))
      simpa [hfirst] using hrest

/-- What the integer parser accepts is ASCII. -/
theorem utf8Valid_of_fromStrRadix {radix bound n : ℕ} {text : Bytes} (hr : 0 < radix) (hb : 0 < bound)
    (h : fromStrRadix radix bound text = some n) : utf8Valid text = true := by
  apply utf8Valid_of_ascii
  rcases (fromStrRadix_iff hr hb).mp h with hn | ⟨digits,rfl,hn⟩
  · intro byte hm
    exact isDigit_ascii (hn.digits byte hm)
  · rw [List.forall_mem_cons]
    exact ⟨by decide,fun byte hm => isDigit_ascii (hn.digits byte hm)⟩

end H12Tiny.Sync
