import H12Tiny.Foundation.HeaderMap
import H12Tiny.Http.Types
import H12Tiny.Sync.Body
import H12Tiny.Sync.FieldValues

/-! # The blocking response head

`read_response` and the functions it calls. Header names and values are those of the
`http` crate, which is not part of this repository: how they are read from bytes is a
parameter, and a header map is the list of the fields in the order in which they were
appended. The only source an error has here is an input or output error.
-/
namespace H12Tiny.Sync

inductive ErrorKind
  | absoluteUriRequired
  | unsupportedScheme
  | tlsUnavailable
  | connect
  | tls
  | alpn
  | unsupportedVersion
  | unsupportedUpgrade
  | sendRequest
  | response
  | timeout
  deriving DecidableEq, Repr

structure Error where
  kind : ErrorKind
  source : Option IoError
  deriving DecidableEq, Repr

def isTimeout (error : IoError) : Bool := error.kind = .timedOut ∨ error.kind = .wouldBlock

namespace Error

def new (kind : ErrorKind) : Error := ⟨kind,none⟩

def withSource (kind : ErrorKind) (source : IoError) : Error := ⟨kind,some source⟩

def fromIo (kind : ErrorKind) (error : IoError) : Error :=
  withSource (if isTimeout error then .timeout else kind) error

end Error

def responseError (message : String) : Error := .withSource .response ⟨.invalidData,message⟩

inductive Version
  | http10
  | http11
  deriving DecidableEq, Repr

/-- The parts of the `http` crate's header types that are used. -/
structure HeaderTypes (Name Value : Type) where
  nameFromBytes : Bytes → Option Name
  valueFromBytes : Bytes → Option Value
  asBytes : Value → Bytes
  contentLength : Name
  transferEncoding : Name

structure Head (Name Value : Type) where
  status : StatusCode
  version : Version
  headers : HeaderMap Name Value
  deriving DecidableEq

def stripLineCrlf (line : Bytes) : Except Error Bytes :=
  let line := if line.getLast? = some cr then line.dropLast else line
  if cr ∈ line then .error (responseError "HTTP response header was not CRLF terminated") else .ok line

def space : UInt8 := 32

/-- The next field of `splitn` on what is left of the text, if anything is. -/
def nextField : Option Bytes → Option (Bytes × Option Bytes)
  | none => none
  | some text =>
    some (text.takeWhile (· ≠ space),if space ∈ text then some (text.dropWhile (· ≠ space)).tail else none)

def http10Bytes : Bytes := [72,84,84,80,47,49,46,48]
def http11Bytes : Bytes := [72,84,84,80,47,49,46,49]

def parseVersion (field : Option Bytes) : Except Error Version :=
  if field = some http10Bytes then .ok .http10
  else if field = some http11Bytes then .ok .http11
  else .error (responseError "response did not use HTTP/1.x")

def parseStatus (field : Option Bytes) : Except Error StatusCode :=
  match field with
  | none => .error (responseError "HTTP response omitted its status code")
  | some text =>
    match (fromStrRadix 10 u16Values text).bind StatusCode.fromU16 with
    | some status => .ok status
    | none => .error (responseError "HTTP response supplied an invalid status code")

def parseStatusLine (line : Bytes) : Except Error (StatusCode × Version) := do
  let line ← stripLineCrlf line
  if utf8Valid line then
    let first := nextField (some line)
    let version ← parseVersion (first.map Prod.fst)
    let second := nextField (first.bind Prod.snd)
    let status ← parseStatus (second.map Prod.fst)
    return (status,version)
  else throw (responseError "HTTP response status line was not ASCII")

section Headers
variable {Name Value : Type} (http : HeaderTypes Name Value)

def parseField (line : Bytes) : Except Error (Name × Value) := do
  let line ← stripLineCrlf line
  if line = [] then throw (responseError "unexpected empty line in HTTP response headers")
  else if colon ∉ line then throw (responseError "malformed HTTP response header")
  else
    match http.nameFromBytes (line.takeWhile (· ≠ colon)) with
    | none => throw (responseError "HTTP response header name was invalid")
    | some name =>
      match http.valueFromBytes (trimOws (line.dropWhile (· ≠ colon)).tail) with
      | none => throw (responseError "HTTP response header value was invalid")
      | some value => return (name,value)

def parseFields (lines : List Bytes) : Except Error (HeaderMap Name Value) :=
  lines.foldlM (fun headers line => (parseField http line).map fun field => headers ++ [field]) []

def parseResponseHead (head : Bytes) : Except Error (Head Name Value) :=
  match head.splitOn lf with
  | [] => .error (responseError "malformed HTTP response status line")
  | statusLine :: lines => do
    let (status,version) ← parseStatusLine statusLine
    let headers ← parseFields http lines
    return ⟨status,version,headers⟩

variable [DecidableEq Name]

def eqIgnoreAsciiCase (left right : Bytes) : Bool :=
  left.map toAsciiLowercase = right.map toAsciiLowercase

def chunkedBytes : Bytes := [99,104,117,110,107,101,100]

def transferCodings (headers : HeaderMap Name Value) : List Bytes :=
  (((headers.getAll http.transferEncoding).flatMap fun value => (http.asBytes value).splitOn comma).map
    trimOws).filter (· ≠ [])

def parseContentLength (value : Bytes) : Except Error ℕ :=
  if utf8Valid (trimOws value) then
    match fromStrRadix 10 u64Values (trimOws value) with
    | some length => .ok length
    | none => .error (responseError "HTTP Content-Length was invalid")
  else .error (responseError "HTTP Content-Length was not ASCII")

/-- One iteration of the loop over the `Content-Length` values. -/
def mergeContentLength (contentLength : Option ℕ) (value : Value) : Except Error (Option ℕ) := do
  let value ← parseContentLength (http.asBytes value)
  match contentLength with
  | some previous =>
    if previous ≠ value then throw (responseError "HTTP response has conflicting Content-Length values")
    else return some value
  | none => return some value

def responseBodyMode (headers : HeaderMap Name Value) (status : StatusCode) (headRequest : Bool) :
    Except Error BodyMode :=
  if headRequest ∨ status.isInformational ∨ status = .noContent ∨ status = .notModified then .ok .empty
  else
    match transferCodings http headers with
    | coding :: others =>
      if headers.containsKey http.contentLength ∨ others ≠ [] ∨ ¬ eqIgnoreAsciiCase coding chunkedBytes then
        .error (responseError "HTTP response has unsupported or ambiguous transfer framing")
      else .ok (.chunked ⟨0,false,false⟩)
    | [] => do
      match ← (headers.getAll http.contentLength).foldlM (mergeContentLength http) none with
      | some length => return .contentLength length
      | none => return .eof

def headLimit : Error := responseError "HTTP response headers exceed the configured limit"
def headClosed : Error := responseError "connection closed before HTTP response headers"

/-- `read_response_head`, and the head and the blank line drained behind it. -/
def takeResponseHead : EStateM Error Inbound Bytes :=
  takeUntil (crlf ++ crlf) maxResponseHeadBytes headLimit headClosed (Error.fromIo .response)

/-- What is done with a head: an interim response is skipped. -/
def acceptHead (headRequest : Bool) (head : Bytes) : Except Error ((Head Name Value × BodyMode) ⊕ Unit) := do
  let head ← parseResponseHead http head
  if head.status.isInformational ∧ head.status ≠ .switchingProtocols then return .inr ()
  else if head.status = .switchingProtocols then throw (.new .unsupportedUpgrade)
  else
    let mode ← responseBodyMode http head.headers head.status headRequest
    return .inl (head,mode)

def readResponseBody (headRequest : Bool) (_ : Unit) :
    EStateM Error Inbound ((Head Name Value × BodyMode) ⊕ Unit) := do
  let head ← takeResponseHead
  ofExcept (acceptHead http headRequest head)

theorem readResponse_lowers (headRequest : Bool) :
    Lowers (readResponseBody http headRequest) (fun _ inbound => inbound.size) := by
  intro _ inbound _ inbound' h
  unfold readResponseBody at h
  simp only [bind,EStateM.bind] at h
  split at h
  next head inbound₁ hhead =>
    have hsize := takeUntil_size hhead
    rw [List.length_append,crlf_length] at hsize
    rw [(ofExcept_eq_ok h).2]
    simp only
    omega
  next => cases h

structure Response (Name Value : Type) extends Head Name Value where
  body : ResponseBody

def readResponse (headRequest : Bool) (connection : Connection) : Except Error (Response Name Value) :=
  match loopM (readResponseBody http headRequest) _ (readResponse_lowers http headRequest) () ⟨connection,[]⟩ with
  | .ok (head,mode) inbound => .ok ⟨head,⟨inbound,mode⟩⟩
  | .error error _ => .error error

end Headers
end H12Tiny.Sync
