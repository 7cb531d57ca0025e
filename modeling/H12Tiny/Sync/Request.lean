import H12Tiny.Foundation.Plans
import H12Tiny.Http.RequestGrammar
import H12Tiny.Normalize.Request
import H12Tiny.Sync.Response

/-! # The blocking request

`write_request`, and that a reader of the HTTP/1.1 grammar gets back from its bytes just
the request that was normalized. The connection takes every write or fails it; what a
failed write leaves behind is not looked at.
-/
namespace H12Tiny.Sync
open Normalize (digits)
open Plan (Follows)

/-- The writing side of a connection, with the failures that its writes will meet. -/
structure Outgoing where
  written : Bytes
  faults : List (Option IoError)

def writeAll (bytes : Bytes) : EStateM IoError Outgoing Unit := fun out =>
  match out.faults with
  | [] => .ok () ⟨out.written ++ bytes,[]⟩
  | none :: faults => .ok () ⟨out.written ++ bytes,faults⟩
  | some error :: faults => .error error ⟨out.written,faults⟩

def flush : EStateM IoError Outgoing Unit := writeAll []

def sending (write : EStateM IoError Outgoing Unit) : EStateM Error Outgoing Unit :=
  EStateM.adaptExcept (Error.fromIo .sendRequest) write

/-- The header name `content-length`. -/
def contentLengthName : HeaderName := ⟨RequestGrammar.contentLength,by decide⟩

/-- The header name `transfer-encoding`. -/
def transferEncodingName : HeaderName := ⟨RequestGrammar.transferEncoding,by decide⟩

/-- The header name `connection`. -/
def connectionName : HeaderName := ⟨[99,111,110,110,101,99,116,105,111,110],by decide⟩

/-- The header value `close`. -/
def closeValue : HeaderValue := ⟨[99,108,111,115,101],by decide⟩

theorem digits_valid (n : ℕ) : (digits n).all isFieldByte = true := by
  refine List.all_eq_true.mpr fun byte hbyte => ?_
  obtain ⟨hlow,hhigh⟩ := Normalize.digits_spec n byte hbyte
  exact isFieldByte_of_isValueChar (Normalize.isValueChar_of_ascii
    ⟨UInt8.lt_of_lt_of_le (by decide) hlow,UInt8.lt_of_le_of_lt hhigh (by decide)⟩)

/-- The decimal length of a body, which is always a header value. -/
def lengthValue (n : ℕ) : HeaderValue := ⟨digits n,digits_valid n⟩

def withLength (body : Bytes) (headers : HeaderMap HeaderName HeaderValue) : HeaderMap HeaderName HeaderValue :=
  if ¬ headers.containsKey contentLengthName ∧ ¬ headers.containsKey transferEncodingName then
    headers.insert contentLengthName (lengthValue body.length)
  else headers

def withConnection (headers : HeaderMap HeaderName HeaderValue) : HeaderMap HeaderName HeaderValue :=
  if ¬ headers.containsKey connectionName then headers.insert connectionName closeValue else headers

def sentHeaders (body : Bytes) (headers : HeaderMap HeaderName HeaderValue) : HeaderMap HeaderName HeaderValue :=
  withConnection (withLength body headers)

def writeField (field : HeaderName × HeaderValue) : EStateM IoError Outgoing Unit := do
  writeAll field.1.bytes
  writeAll [58,32]
  writeAll field.2.bytes
  writeAll crlf

def writeRequest (request : Normalize.Request Bytes) : EStateM Error Outgoing Unit := do
  let headers := sentHeaders request.body request.headers
  sending (writeAll (request.method.asBytes ++ [32] ++ request.uri.display ++ [32] ++ http11Bytes ++ crlf))
  headers.forM fun field => sending (writeField field)
  sending (do writeAll crlf; writeAll request.body; flush)

theorem fromIo_mem {kinds : List ErrorKind} {kind : ErrorKind} (hkind : kind ∈ kinds) (htimeout : .timeout ∈ kinds)
    (error : IoError) : (Error.fromIo kind error).kind ∈ kinds := by
  change (if isTimeout error then ErrorKind.timeout else kind) ∈ kinds
  split
  · exact htimeout
  · exact hkind

/-- The kinds of an error while the request is written. -/
def sendKinds : List ErrorKind := [.sendRequest,.timeout]

section Writes
variable {ε : Type} {Q : ε → Prop}

/-- The program writes these bytes: all of them unless a write fails, and then an initial part
of them. -/
structure Writes (Q : ε → Prop) (program : EStateM ε Outgoing Unit) (bytes : Bytes) : Prop where
  follows : Follows Outgoing.written bytes (fun _ => True) (fun _ => Q) program
  runs : ∀ out, out.faults = [] → program out = .ok () ⟨out.written ++ bytes,[]⟩

theorem writes_writeAll (bytes : Bytes) : Writes (fun _ => True) (writeAll bytes) bytes := by
  constructor
  · rintro ⟨written,faults⟩
    rcases faults with _ | ⟨_ | error,faults⟩
    · exact ⟨rfl,trivial⟩
    · exact ⟨rfl,trivial⟩
    · exact ⟨[],List.nil_prefix,(List.append_nil _).symm,trivial⟩
  · rintro ⟨written,faults⟩ h
    cases h
    rfl

theorem writes_pure : Writes Q (pure () : EStateM ε Outgoing Unit) [] := by
  refine ⟨Follows.pure trivial,?_⟩
  rintro ⟨written,faults⟩ h
  cases h
  rw [List.append_nil]
  rfl

theorem Writes.bind {first second : EStateM ε Outgoing Unit} {a b : Bytes} (hfirst : Writes Q first a)
    (hsecond : Writes Q second b) : Writes Q (first >>= fun _ => second) (a ++ b) := by
  refine ⟨hfirst.follows.bind a b fun _ _ => hsecond.follows,?_⟩
  intro out hfaults
  change EStateM.bind first (fun _ => second) out = _
  rw [EStateM.bind,hfirst.runs out hfaults,← List.append_assoc]
  exact hsecond.runs _ rfl

theorem Writes.sending {write : EStateM IoError Outgoing Unit} {bytes : Bytes}
    (h : Writes (fun _ => True) write bytes) :
    Writes (fun error => error.kind ∈ sendKinds) (sending write) bytes := by
  constructor
  · exact Follows.adaptExcept (h.follows.weaken (fun _ h => h) fun _ e _ _ => fromIo_mem (by decide) (by decide) e)
  · intro out hfaults
    rw [Sync.sending,EStateM.adaptExcept,h.runs out hfaults]

def fieldBytes (field : HeaderName × HeaderValue) : Bytes × Bytes := (field.1.bytes,field.2.bytes)

theorem writes_writeField (field : HeaderName × HeaderValue) :
    Writes (fun _ => True) (writeField field) (RequestGrammar.fieldText (fieldBytes field) ++ crlf) := by
  have h := (writes_writeAll field.1.bytes).bind ((writes_writeAll [58,32]).bind
    ((writes_writeAll field.2.bytes).bind (writes_writeAll crlf)))
  simpa [writeField,RequestGrammar.fieldText,fieldBytes] using h

theorem writes_fields (headers : HeaderMap HeaderName HeaderValue) :
    Writes (fun error => error.kind ∈ sendKinds) (headers.forM fun field => sending (writeField field))
      (RequestGrammar.fieldsText (headers.map fieldBytes)) := by
  induction headers with
  | nil => exact writes_pure
  | cons field headers ih =>
    have h := (writes_writeField field).sending.bind ih
    exact h

def requestText (request : Normalize.Request Bytes) : Bytes :=
  RequestGrammar.lineText request.method.asBytes request.uri.display ++ 13 :: 10 ::
    (RequestGrammar.fieldsText ((sentHeaders request.body request.headers).map fieldBytes) ++
      13 :: 10 :: request.body)

theorem writes_writeRequest (request : Normalize.Request Bytes) :
    Writes (fun error => error.kind ∈ sendKinds) (writeRequest request) (requestText request) := by
  have hlast : Writes (fun _ => True)
      (do writeAll crlf; writeAll request.body; flush : EStateM IoError Outgoing Unit) (crlf ++ (request.body ++ [])) :=
    (writes_writeAll crlf).bind ((writes_writeAll request.body).bind (writes_writeAll []))
  have h := (writes_writeAll (request.method.asBytes ++ [32] ++ request.uri.display ++ [32] ++ http11Bytes ++
    crlf)).sending.bind ((writes_fields (sentHeaders request.body request.headers)).bind
      hlast.sending)
  have htext : request.method.asBytes ++ [32] ++ request.uri.display ++ [32] ++ http11Bytes ++ crlf ++
      (RequestGrammar.fieldsText ((sentHeaders request.body request.headers).map fieldBytes) ++
        (crlf ++ (request.body ++ []))) = requestText request := by
    simp [requestText,RequestGrammar.lineText,RequestGrammar.version,http11Bytes,crlf,cr,lf]
  rw [htext] at h
  exact h

end Writes

section Reading

theorem isField_fieldBytes (field : HeaderName × HeaderValue) : RequestGrammar.IsField (fieldBytes field) where
  present := field.1.valid.1
  token := List.all_eq_true.mpr fun byte hbyte => (field.1.lower byte hbyte).1
  value := field.2.valid

theorem lowercase_name (name : HeaderName) : name.bytes.map toAsciiLowercase = name.bytes := by
  refine (List.map_congr_left fun byte hbyte => ?_).trans (List.map_id _)
  exact if_neg (name.lower byte hbyte).2

def readFields (headers : HeaderMap HeaderName HeaderValue) : List (Bytes × Bytes) :=
  (headers.map fieldBytes).map fun field => (field.1,trimOws field.2)

theorem valuesOf_readFields (headers : HeaderMap HeaderName HeaderValue) (name : HeaderName) :
    RequestGrammar.valuesOf (readFields headers) name.bytes =
      (headers.getAll name).map fun value => trimOws value.bytes := by
  induction headers with
  | nil => rfl
  | cons field headers ih =>
    have hname : (fieldBytes field).1.map toAsciiLowercase = name.bytes ↔ field.1 = name := by
      rw [fieldBytes,lowercase_name,HeaderName.ext_iff]
    rw [HeaderMap.getAll_cons,readFields,List.map_cons,List.map_cons,RequestGrammar.valuesOf_cons]
    simp only [hname]
    split
    · rw [List.map_cons,← ih]
      rfl
    · exact ih

theorem parseLength_digits (n : ℕ) : RequestGrammar.parseLength (digits n) = some n := by
  have hall : (digits n).all RequestGrammar.isDigit = true := Normalize.digits_decimal n
  rw [RequestGrammar.parseLength,if_pos ⟨Normalize.digits_ne_nil n,hall⟩]
  exact congrArg some (Normalize.decimalValue_digits n)

theorem trimOws_digits (n : ℕ) : trimOws (digits n) = digits n := by
  refine trimOws_eq_self fun byte hbyte => ?_
  obtain ⟨hlow,-⟩ := Normalize.digits_spec n byte hbyte
  have hne : ¬ (byte = 32 ∨ byte = 9) := by
    rintro (rfl | rfl)
    · exact absurd hlow (by decide)
    · exact absurd hlow (by decide)
  exact decide_eq_false hne

section Fields
variable (body : Bytes) (headers : HeaderMap HeaderName HeaderValue)

variable (hlength : headers.containsKey contentLengthName = false)
  (hcoding : headers.containsKey transferEncodingName = false)
include hlength hcoding

theorem withLength_eq : withLength body headers = headers.insert contentLengthName (lengthValue body.length) := by
  rw [withLength,if_pos]
  rw [hlength,hcoding]
  exact ⟨Bool.false_ne_true,Bool.false_ne_true⟩

theorem sentHeaders_other {name : HeaderName} (hname : name ≠ contentLengthName) (hconnection : name ≠ connectionName) :
    (sentHeaders body headers).getAll name = headers.getAll name := by
  have hfirst : (withLength body headers).getAll name = headers.getAll name := by
    rw [withLength_eq body headers hlength hcoding,HeaderMap.getAll_insert_of_ne _ _ _ hname]
  rw [sentHeaders,withConnection]
  split
  · rw [HeaderMap.getAll_insert_of_ne _ _ _ hconnection,hfirst]
  · exact hfirst

theorem sentHeaders_length : (sentHeaders body headers).getAll contentLengthName = [lengthValue body.length] := by
  have hfirst : (withLength body headers).getAll contentLengthName = [lengthValue body.length] := by
    rw [withLength_eq body headers hlength hcoding,HeaderMap.getAll_insert_self]
  rw [sentHeaders,withConnection]
  split
  · rw [HeaderMap.getAll_insert_of_ne _ _ _ (by decide),hfirst]
  · exact hfirst

theorem sentHeaders_connection : (sentHeaders body headers).getAll connectionName =
    if headers.containsKey connectionName then headers.getAll connectionName else [closeValue] := by
  have hfirst : (withLength body headers).getAll connectionName = headers.getAll connectionName := by
    rw [withLength_eq body headers hlength hcoding,HeaderMap.getAll_insert_of_ne _ _ _ (by decide)]
  have hkey : (withLength body headers).containsKey connectionName = headers.containsKey connectionName := by
    rw [Bool.eq_iff_iff,HeaderMap.containsKey_iff,HeaderMap.containsKey_iff,hfirst]
  rw [sentHeaders,withConnection,hkey]
  cases headers.containsKey connectionName with
  | false => exact HeaderMap.getAll_insert_self _ _ _
  | true => exact hfirst

theorem bodyLength_sent : RequestGrammar.bodyLength (readFields (sentHeaders body headers)) = some body.length := by
  have hte := valuesOf_readFields (sentHeaders body headers) transferEncodingName
  have hcl := valuesOf_readFields (sentHeaders body headers) contentLengthName
  rw [sentHeaders_other body headers hlength hcoding (by decide) (by decide),
    (HeaderMap.containsKey_eq_false _ _).mp hcoding] at hte
  rw [sentHeaders_length body headers hlength hcoding] at hcl
  have hte' : RequestGrammar.valuesOf (readFields (sentHeaders body headers)) RequestGrammar.transferEncoding = [] :=
    hte
  have hcl' : RequestGrammar.valuesOf (readFields (sentHeaders body headers)) RequestGrammar.contentLength =
      [trimOws (digits body.length)] := hcl
  rw [RequestGrammar.bodyLength,hte',hcl',trimOws_digits,if_neg (not_not.mpr rfl)]
  exact parseLength_digits body.length

end Fields

/-- An absolute URI, or the authority of a `CONNECT` request. -/
def IsDirect (request : Normalize.Request Bytes) : Prop :=
  request.uri.scheme.isSome ∨ (request.method = .connect ∧ request.uri.authority.isSome)

/-- The message recovers the request that was normalized. -/
structure Recovers (normalized : Normalize.Request Bytes) (message : RequestGrammar.Message) : Prop where
  method : message.method = normalized.method.asBytes
  target : message.target = normalized.uri.display
  fields : ∀ name, name ≠ contentLengthName → name ≠ connectionName →
    RequestGrammar.valuesOf message.fields name.bytes =
      (normalized.headers.getAll name).map fun value => trimOws value.bytes
  length : RequestGrammar.valuesOf message.fields contentLengthName.bytes = [digits normalized.body.length]
  connection : RequestGrammar.valuesOf message.fields connectionName.bytes =
    if normalized.headers.containsKey connectionName then
      (normalized.headers.getAll connectionName).map fun value => trimOws value.bytes
    else [closeValue.bytes]
  body : message.body = normalized.body

/-- A request with a valid target and without framing fields of its own is read back. -/
theorem requestText_recovered (request : Normalize.Request Bytes)
    (htarget : request.uri.display ≠ [] ∧ request.uri.display.all isUriByte = true)
    (hlength : request.headers.containsKey contentLengthName = false)
    (hcoding : request.headers.containsKey transferEncodingName = false) :
    ∃ message, RequestGrammar.parseRequest (requestText request) = some (message,[]) ∧ Recovers request message := by
  have hvalues := valuesOf_readFields (sentHeaders request.body request.headers)
  have hparse := RequestGrammar.parseRequest_text request.method.asBytes_token htarget
    (List.forall_mem_map.mpr fun field _ => isField_fieldBytes field)
    (bodyLength_sent request.body request.headers hlength hcoding)
  refine ⟨_,hparse,rfl,rfl,?_,?_,?_,rfl⟩
  · intro name hname hconnection
    rw [← sentHeaders_other request.body request.headers hlength hcoding hname hconnection]
    exact hvalues name
  · have hsent := hvalues contentLengthName
    rw [sentHeaders_length request.body request.headers hlength hcoding] at hsent
    exact hsent.trans (congrArg (fun text => [text]) (trimOws_digits request.body.length))
  · have hsent := hvalues connectionName
    rw [sentHeaders_connection request.body request.headers hlength hcoding] at hsent
    refine hsent.trans ?_
    split
    · rfl
    · rfl

/-- A request without framing fields is normalized, and the bytes written for it are read as
exactly one request, the one that was normalized. -/
theorem request_unambiguous (request : Normalize.Request Bytes) (setHost : Bool) (hdirect : IsDirect request)
    (hlength : request.headers.containsKey contentLengthName = false)
    (hcoding : request.headers.containsKey transferEncodingName = false) :
    ∃ origin uri normalized bytes message,
      Normalize.extractOrigin request.uri (decide (request.method = .connect)) = some (.ok origin,uri) ∧
      Normalize.normalizeHttp1Request { request with uri } setHost = some normalized ∧
      normalized.method = request.method ∧ normalized.body = request.body ∧
      (∀ name, name ≠ Normalize.hostName → normalized.headers.getAll name = request.headers.getAll name) ∧
      Writes (fun error => error.kind ∈ sendKinds) (writeRequest normalized) bytes ∧
      RequestGrammar.parseRequest bytes = some (message,[]) ∧ Recovers normalized message := by
  obtain ⟨origin,uri,hextract⟩ := @Normalize.extractOrigin_exists request.uri (decide (request.method = .connect))
    (hdirect.imp_right fun h => ⟨decide_eq_true h.1,h.2⟩)
  obtain ⟨hscheme,hauthority⟩ := Normalize.extractOrigin_ok hextract
  obtain ⟨value,target,-,hdisplay,hnormal⟩ :=
    Normalize.normalize_of_origin (B := Bytes) request.method (by rw [hscheme]; rfl) hauthority
  have hnormalized := hnormal { request with uri } setHost rfl rfl
  generalize hheaders : (if setHost then Normalize.withHost value request.headers else request.headers) = headers
    at hnormalized
  have hother : ∀ name, name ≠ Normalize.hostName → headers.getAll name = request.headers.getAll name := by
    intro name hname
    rw [← hheaders]
    split
    · exact Normalize.withHost_other value request.headers hname
    · rfl
  have hframing : ∀ name, name ≠ Normalize.hostName → request.headers.containsKey name = false →
      headers.containsKey name = false := by
    intro name hname hnone
    rw [HeaderMap.containsKey_eq_false] at hnone ⊢
    rw [hother name hname,hnone]
  obtain ⟨htarget,hplain⟩ := Normalize.targetText_valid request.method origin.authority uri.parts
  rw [← hdisplay] at htarget hplain
  obtain ⟨message,hparse,hrecovers⟩ := requestText_recovered { request with headers, uri := target }
    ⟨htarget,List.all_eq_true.mpr hplain⟩ (hframing contentLengthName (by decide) hlength)
    (hframing transferEncodingName (by decide) hcoding)
  exact ⟨origin,uri,_,_,message,hextract,hnormalized,rfl,rfl,hother,writes_writeRequest _,hparse,hrecovers⟩

/-- A `POST` request for `http://a/` with a body that looks like the end of a head. -/
def samplePost : Normalize.Request Bytes := ⟨.post,.sample,.http11,[],[13,10,13,10]⟩

theorem request_unambiguous_post :
    IsDirect samplePost ∧ samplePost.headers.containsKey contentLengthName = false ∧
    samplePost.headers.containsKey transferEncodingName = false ∧
    ∃ origin uri normalized bytes message,
      Normalize.extractOrigin samplePost.uri (decide (samplePost.method = .connect)) = some (.ok origin,uri) ∧
      Normalize.normalizeHttp1Request { samplePost with uri } true = some normalized ∧
      normalized.method = samplePost.method ∧ normalized.body = samplePost.body ∧
      (∀ name, name ≠ Normalize.hostName → normalized.headers.getAll name = samplePost.headers.getAll name) ∧
      Writes (fun error => error.kind ∈ sendKinds) (writeRequest normalized) bytes ∧
      RequestGrammar.parseRequest bytes = some (message,[]) ∧ Recovers normalized message :=
  ⟨.inl rfl,rfl,rfl,request_unambiguous samplePost true (.inl rfl) rfl rfl⟩

end Reading

end H12Tiny.Sync
