import Mathlib.Data.List.Basic
import Mathlib.Data.Nat.Notation

/-! # Types of the `http` crate

Status codes and methods as the crates of this repository receive them from the `http`
crate: a value carries the check that its constructor makes.
-/
namespace H12Tiny

structure StatusCode where
  code : ℕ
  valid : 100 ≤ code ∧ code < 1000
  deriving DecidableEq, Repr

namespace StatusCode

def fromU16 (code : ℕ) : Option StatusCode := if h : 100 ≤ code ∧ code < 1000 then some ⟨code,h⟩ else none

def isInformational (status : StatusCode) : Bool := status.code < 200

def switchingProtocols : StatusCode := ⟨101,by decide⟩
def noContent : StatusCode := ⟨204,by decide⟩
def notModified : StatusCode := ⟨304,by decide⟩
def badRequest : StatusCode := ⟨400,by decide⟩
def notFound : StatusCode := ⟨404,by decide⟩
def methodNotAllowed : StatusCode := ⟨405,by decide⟩
def requestTimeout : StatusCode := ⟨408,by decide⟩
def payloadTooLarge : StatusCode := ⟨413,by decide⟩
def internalServerError : StatusCode := ⟨500,by decide⟩

end StatusCode

def isToken (byte : UInt8) : Bool :=
  (48 ≤ byte ∧ byte ≤ 57) ∨ (65 ≤ byte ∧ byte ≤ 90) ∨ (94 ≤ byte ∧ byte ≤ 122) ∨
    byte ∈ ([33,35,36,37,38,39,42,43,45,46,124,126] : List UInt8)

/-- A byte of a header value: no control byte but a tab. -/
def isFieldByte (byte : UInt8) : Bool := (32 ≤ byte ∧ byte ≠ 127) ∨ byte = 9

def isLowerToken (byte : UInt8) : Bool := isToken byte ∧ ¬ (65 ≤ byte ∧ byte ≤ 90)

/-- A header name is a token in lower case. -/
@[ext] structure HeaderName where
  bytes : List UInt8
  valid : bytes ≠ [] ∧ bytes.all isLowerToken = true
  deriving DecidableEq

theorem HeaderName.lower (name : HeaderName) (byte : UInt8) (h : byte ∈ name.bytes) :
    isToken byte = true ∧ ¬ (65 ≤ byte ∧ byte ≤ 90) :=
  of_decide_eq_true (List.all_eq_true.mp name.valid.2 byte h)

structure HeaderValue where
  bytes : List UInt8
  valid : bytes.all isFieldByte = true
  deriving DecidableEq

/-- A byte that `HeaderValue::from_str` takes. -/
def isValueChar (byte : UInt8) : Bool := (32 ≤ byte ∧ byte < 127) ∨ byte = 9

theorem isFieldByte_of_isValueChar {byte : UInt8} (h : isValueChar byte) : isFieldByte byte := by
  unfold isValueChar at h
  unfold isFieldByte
  simp only [decide_eq_true_eq] at h ⊢
  refine h.imp_left fun hrange => ⟨hrange.1,?_⟩
  rintro rfl
  exact absurd hrange.2 (by decide)

theorem all_isFieldByte {text : List UInt8} (h : text.all isValueChar = true) : text.all isFieldByte = true :=
  List.all_eq_true.mpr fun byte hbyte => isFieldByte_of_isValueChar (List.all_eq_true.mp h byte hbyte)

def HeaderValue.fromStr (text : List UInt8) : Option HeaderValue :=
  if h : text.all isValueChar = true then some ⟨text,all_isFieldByte h⟩ else none

inductive Method
  | options
  | get
  | post
  | put
  | delete
  | head
  | trace
  | connect
  | patch
  | extension (token : List UInt8) (valid : token ≠ [] ∧ token.all isToken = true)
  deriving DecidableEq

def Method.asBytes : Method → List UInt8
  | options => [79,80,84,73,79,78,83]
  | get => [71,69,84]
  | post => [80,79,83,84]
  | put => [80,85,84]
  | delete => [68,69,76,69,84,69]
  | head => [72,69,65,68]
  | trace => [84,82,65,67,69]
  | connect => [67,79,78,78,69,67,84]
  | patch => [80,65,84,67,72]
  | extension token _ => token

theorem Method.asBytes_token (method : Method) : method.asBytes ≠ [] ∧ method.asBytes.all isToken = true := by
  cases method with
  | extension token valid => exact valid
  | _ => decide

end H12Tiny
