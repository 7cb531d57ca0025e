import H12Tiny.Foundation.Base64
import H12Tiny.Foundation.Except
import H12Tiny.Sync.Grammar
import H12Tiny.Sync.Request
import H12Tiny.Web.Limits

/-! # The WebSocket handshake

`validate_websocket_request`, the 101 response, and when a handshake is accepted. A header
value is text for `to_str` if it holds visible ASCII and tabs only, and `trim` takes spaces and
tabs off the ends of such a text. The hash of the key is that of a SHA-1 implementation, which
is not part of this repository and is a parameter here.
-/
namespace H12Tiny.Web
open Sync (Bytes trimOws isOws comma eqIgnoreAsciiCase connectionName)
open Normalize (Version hostName)

/-- What the handshake reads of a request. -/
structure UpgradeRequest where
  method : Method
  version : Version
  headers : HeaderMap HeaderName HeaderValue

inductive WebSocketUpgradeError
  | method
  | httpVersion
  | host
  | connection
  | upgrade
  | version
  | missingKey
  | invalidKey
  deriving DecidableEq

def WebSocketUpgradeError.toText : WebSocketUpgradeError → String
  | method => "WebSocket upgrades require GET"
  | httpVersion => "WebSocket upgrades require HTTP/1.1"
  | host => "WebSocket upgrades require Host"
  | connection => "WebSocket upgrades require Connection: Upgrade"
  | upgrade => "WebSocket upgrades require Upgrade: websocket"
  | version => "WebSocket upgrades require Sec-WebSocket-Version: 13"
  | missingKey => "WebSocket upgrades require Sec-WebSocket-Key"
  | invalidKey => "Sec-WebSocket-Key must decode to exactly 16 bytes"

/-- The header name `upgrade`. -/
def upgradeName : HeaderName := ⟨[117,112,103,114,97,100,101],by decide⟩

/-- The header name `sec-websocket-version`. -/
def versionName : HeaderName :=
  ⟨[115,101,99,45,119,101,98,115,111,99,107,101,116,45,118,101,114,115,105,111,110],by decide⟩

/-- The header name `sec-websocket-key`. -/
def keyName : HeaderName := ⟨[115,101,99,45,119,101,98,115,111,99,107,101,116,45,107,101,121],by decide⟩

/-- The tokens `upgrade` and `websocket`, and the value `13`. -/
def upgradeToken : Bytes := [117,112,103,114,97,100,101]
def websocketToken : Bytes := [119,101,98,115,111,99,107,101,116]
def thirteen : Bytes := [49,51]

/-- The text `258EAFA5-E914-47DA-95CA-C5AB0DC85B11`. -/
def acceptGuid : Bytes :=
  [50,53,56,69,65,70,65,53,45,69,57,49,52,45,52,55,68,65,45,57,53,67,65,45,67,53,65,66,48,68,67,56,53,66,49,49]

def toStr (value : HeaderValue) : Option Bytes := if value.bytes.all isValueChar then some value.bytes else none

def headerHasToken (request : UpgradeRequest) (header : HeaderName) (expected : Bytes) : Bool :=
  (((request.headers.getAll header).filterMap toStr).flatMap fun value => value.splitOn comma).any fun token =>
    eqIgnoreAsciiCase (trimOws token) expected

/-- The last part of `validate_websocket_request`, on the iterator of the keys. -/
def checkKeys : List Bytes → Except WebSocketUpgradeError Bytes
  | [] => .error .missingKey
  | key :: others =>
    if others ≠ [] ∨ ¬ (Base64.decode key).any (fun decoded => decoded.length = 16) then .error .invalidKey
    else .ok key

def validateWebsocketRequest (request : UpgradeRequest) : Except WebSocketUpgradeError Bytes :=
  if request.method ≠ .get then .error .method
  else if request.version ≠ .http11 then .error .httpVersion
  else if (request.headers.getAll hostName).length ≠ 1 ∨
      ((request.headers.get hostName).bind toStr).all (fun value => trimOws value = []) then .error .host
  else if ¬ headerHasToken request connectionName upgradeToken then .error .connection
  else if ¬ headerHasToken request upgradeName websocketToken then .error .upgrade
  else if (request.headers.getAll versionName).length ≠ 1 ∨
      ((request.headers.getAll versionName).head?.bind toStr).all (fun value => trimOws value ≠ thirteen) then
    .error .version
  else checkKeys (((request.headers.getAll keyName).filterMap toStr).map trimOws)

section Accept
variable (sha1 : Bytes → Bytes)

def websocketAccept (key : Bytes) : Bytes := Base64.encode (sha1 (key ++ acceptGuid))

structure WebSocketUpgrade where
  accept : Bytes

def tryFromRequest (request : UpgradeRequest) : Except WebSocketUpgradeError WebSocketUpgrade :=
  (validateWebsocketRequest request).map fun key => ⟨websocketAccept sha1 key⟩

/-- The extractor's answer to a malformed handshake. -/
def upgradeFromRequest (request : UpgradeRequest) : Except Rejection WebSocketUpgrade :=
  (tryFromRequest sha1 request).mapError fun error => ⟨.badRequest,error.toText⟩

end Accept

/-- The header values `Upgrade` and `websocket`. -/
def upgradeValue : Bytes := [85,112,103,114,97,100,101]
def websocketValue : Bytes := websocketToken

/-- A value that is not valid in a header would be a panic. -/
def WebSocketUpgrade.response {R : Type} (self : WebSocketUpgrade) : Option (Response R) :=
  if self.accept.all isValueChar then
    some ⟨.switchingProtocols,
      [("connection",upgradeValue),("upgrade",websocketValue),("sec-websocket-accept",self.accept)],.empty⟩
  else none

/-! ## Valid handshakes -/

def IsText (value : HeaderValue) : Prop := value.bytes.all isValueChar = true

instance (value : HeaderValue) : Decidable (IsText value) := inferInstanceAs (Decidable (_ = _))

/-- One of the values that the field lists is the token. -/
def ListsToken (value : HeaderValue) (token : Bytes) : Prop :=
  ∃ part ∈ value.bytes.splitOn comma, eqIgnoreAsciiCase (trimOws part) token = true

/-- The field is the encoding of sixteen bytes. -/
def IsNonce (value : HeaderValue) : Prop :=
  ∃ nonce : Bytes, nonce.length = 16 ∧ Base64.encode nonce = trimOws value.bytes

/-- What is asked of the fields that occur once and hold neither tokens nor the key. -/
structure WellFramed (request : UpgradeRequest) : Prop where
  method : request.method = .get
  version : request.version = .http11
  host : ∃ value, request.headers.getAll hostName = [value] ∧ IsText value ∧ trimOws value.bytes ≠ []
  revision : ∃ value, request.headers.getAll versionName = [value] ∧ trimOws value.bytes = thirteen

def Listed (request : UpgradeRequest) (name : HeaderName) (token : Bytes) : Prop :=
  ∃ value ∈ request.headers.getAll name, ListsToken value token

/-- A handshake as it should be, with the field of its key. -/
structure ValidHandshake (request : UpgradeRequest) (value : HeaderValue) : Prop extends WellFramed request where
  connection : Listed request connectionName upgradeToken
  upgrade : Listed request upgradeName websocketToken
  key : request.headers.getAll keyName = [value]
  nonce : IsNonce value

/-! ## What the code accepts -/

variable {request : UpgradeRequest}

/-- Some field that is text lists the token. -/
def ListedInText (request : UpgradeRequest) (name : HeaderName) (token : Bytes) : Prop :=
  ∃ value ∈ request.headers.getAll name, IsText value ∧ ListsToken value token

/-- The fields of the key that are text. -/
def textKeys (request : UpgradeRequest) : List HeaderValue :=
  (request.headers.getAll keyName).filter fun value => IsText value

theorem ListedInText.listed {name : HeaderName} {token : Bytes} (h : ListedInText request name token) :
    Listed request name token := by
  obtain ⟨value,hmem,_,hlists⟩ := h
  exact ⟨value,hmem,hlists⟩

theorem toStr_eq_some {value : HeaderValue} {text : Bytes} :
    toStr value = some text ↔ IsText value ∧ value.bytes = text := by
  unfold toStr IsText
  split
  next htext => simp [htext]
  next htext => simp [htext]

theorem filterMap_toStr (values : List HeaderValue) :
    values.filterMap toStr = (values.filter fun value => IsText value).map HeaderValue.bytes := by
  induction values with
  | nil => rfl
  | cons value values ih =>
    by_cases htext : IsText value
    · rw [List.filterMap_cons_some (toStr_eq_some.mpr ⟨htext,rfl⟩),List.filter_cons_of_pos (by simpa using htext),ih]
      rfl
    · have hnone : toStr value = none := if_neg htext
      rw [List.filterMap_cons_none hnone,List.filter_cons_of_neg (by simpa using htext),ih]

theorem headerHasToken_iff {name : HeaderName} {token : Bytes} :
    headerHasToken request name token = true ↔ ListedInText request name token := by
  rw [headerHasToken,filterMap_toStr,List.any_eq_true]
  constructor
  · rintro ⟨part,hpart,htoken⟩
    obtain ⟨text,htext,hsplit⟩ := List.mem_flatMap.mp hpart
    obtain ⟨value,hvalue,rfl⟩ := List.mem_map.mp htext
    obtain ⟨hmem,htext⟩ := List.mem_filter.mp hvalue
    exact ⟨value,hmem,of_decide_eq_true htext,part,hsplit,htoken⟩
  · rintro ⟨value,hmem,htext,part,hsplit,htoken⟩
    have hvalue : value ∈ (request.headers.getAll name).filter fun value => IsText value :=
      List.mem_filter.mpr ⟨hmem,decide_eq_true htext⟩
    exact ⟨part,List.mem_flatMap.mpr ⟨value.bytes,List.mem_map_of_mem hvalue,hsplit⟩,htoken⟩

theorem single_text {values : List HeaderValue} {reject : Bytes → Bool} :
    ¬(values.length ≠ 1 ∨ (values.head?.bind toStr).all reject = true) ↔
      ∃ value, values = [value] ∧ IsText value ∧ reject value.bytes = false := by
  rw [not_or,not_not,List.length_eq_one_iff]
  constructor
  · rintro ⟨⟨value,rfl⟩,hreject⟩
    by_cases htext : IsText value
    · have hstr : toStr value = some value.bytes := if_pos htext
      simp only [List.head?_cons,Option.bind_some,hstr,Option.all_some] at hreject
      exact ⟨value,rfl,htext,Bool.eq_false_iff.mpr hreject⟩
    · have hnone : toStr value = none := if_neg htext
      simp only [List.head?_cons,Option.bind_some,hnone,Option.all_none,not_true_eq_false] at hreject
  · rintro ⟨value,rfl,htext,hreject⟩
    have hstr : toStr value = some value.bytes := if_pos htext
    refine ⟨⟨value,rfl⟩,?_⟩
    simp only [List.head?_cons,Option.bind_some,hstr,Option.all_some,hreject]
    exact Bool.false_ne_true

theorem isText_of_trimOws {value : HeaderValue} (h : ∀ byte ∈ trimOws value.bytes, isValueChar byte = true) :
    IsText value := by
  have hows : ∀ byte, isOws byte = true → isValueChar byte = true := by
    intro byte hbyte
    rcases of_decide_eq_true hbyte with rfl | rfl
    · rfl
    · rfl
  obtain ⟨before,after,hsplit,hbefore,hafter⟩ := Sync.trimOws_split value.bytes
  refine List.all_eq_true.mpr fun byte hbyte => ?_
  rw [hsplit,List.mem_append,List.mem_append] at hbyte
  rcases hbyte with (hbyte | hbyte) | hbyte
  · exact hows byte (hbefore byte hbyte)
  · exact h byte hbyte
  · exact hows byte (hafter byte hbyte)

theorem isValueChar_of_isSymbol {byte : UInt8} (h : Base64.isSymbol byte = true) : isValueChar byte = true := by
  have hall : ∀ n : Fin 64, isValueChar (Base64.symbol n) = true := by decide
  rw [Base64.isSymbol,Bool.or_eq_true,Option.isSome_iff_exists,beq_iff_eq] at h
  rcases h with ⟨n,hn⟩ | rfl
  · obtain ⟨hlt,rfl⟩ := Base64.symbol_symbolValue hn
    exact hall ⟨n,hlt⟩
  · rfl

theorem encode_isValueChar (bytes : Bytes) : ∀ byte ∈ Base64.encode bytes, isValueChar byte = true :=
  fun byte hbyte => isValueChar_of_isSymbol (Base64.encode_isSymbol bytes byte hbyte)

theorem IsNonce.isText {value : HeaderValue} (h : IsNonce value) : IsText value := by
  obtain ⟨nonce,_,hencode⟩ := h
  refine isText_of_trimOws ?_
  rw [← hencode]
  exact encode_isValueChar nonce

theorem isNonce_iff {value : HeaderValue} :
    (Base64.decode (trimOws value.bytes)).any (fun decoded => decoded.length = 16) = true ↔ IsNonce value := by
  rw [Option.any_eq_true]
  constructor
  · rintro ⟨nonce,hdecode,hlength⟩
    exact ⟨nonce,of_decide_eq_true hlength,Base64.decode_eq_some.mp hdecode⟩
  · rintro ⟨nonce,hlength,hencode⟩
    exact ⟨nonce,Base64.decode_eq_some.mpr hencode,decide_eq_true hlength⟩

theorem host_iff :
    ¬((request.headers.getAll hostName).length ≠ 1 ∨
      ((request.headers.get hostName).bind toStr).all (fun value => trimOws value = []) = true) ↔
      ∃ value, request.headers.getAll hostName = [value] ∧ IsText value ∧ trimOws value.bytes ≠ [] := by
  rw [HeaderMap.get,single_text]
  simp only [decide_eq_false_iff_not,ne_eq]

theorem revision_iff :
    ¬((request.headers.getAll versionName).length ≠ 1 ∨
      ((request.headers.getAll versionName).head?.bind toStr).all (fun value => trimOws value ≠ thirteen) = true) ↔
      ∃ value, request.headers.getAll versionName = [value] ∧ trimOws value.bytes = thirteen := by
  rw [single_text]
  constructor
  · rintro ⟨value,hvalues,_,hvalue⟩
    exact ⟨value,hvalues,not_not.mp (of_decide_eq_false hvalue)⟩
  · rintro ⟨value,hvalues,hvalue⟩
    refine ⟨value,hvalues,isText_of_trimOws ?_,decide_eq_false (not_not.mpr hvalue)⟩
    rw [hvalue]
    exact List.all_eq_true.mp rfl

theorem keys_iff {key : Bytes} :
    checkKeys (((request.headers.getAll keyName).filterMap toStr).map trimOws) = .ok key ↔
      ∃ value, textKeys request = [value] ∧ IsNonce value ∧ trimOws value.bytes = key := by
  have htext : ((request.headers.getAll keyName).filterMap toStr).map trimOws =
      (textKeys request).map fun value => trimOws value.bytes := by
    rw [filterMap_toStr,List.map_map]
    rfl
  rw [htext]
  cases textKeys request with
  | nil => simp [checkKeys]
  | cons value values =>
    simp only [checkKeys,List.map_cons,ite_error_eq_ok,not_or,not_not,isNonce_iff,List.map_eq_nil_iff,
      ne_eq,Except.ok.injEq,List.cons.injEq]
    constructor
    · rintro ⟨⟨rfl,hnonce⟩,hkey⟩
      exact ⟨value,⟨rfl,rfl⟩,hnonce,hkey⟩
    · rintro ⟨_,⟨rfl,rfl⟩,hnonce,hkey⟩
      exact ⟨⟨rfl,hnonce⟩,hkey⟩

/-- What the code accepts: tokens are looked for in fields that are text, and one key among
the fields that are text is enough. -/
theorem validateWebsocketRequest_iff {key : Bytes} :
    validateWebsocketRequest request = .ok key ↔
      WellFramed request ∧ ListedInText request connectionName upgradeToken ∧
        ListedInText request upgradeName websocketToken ∧
        ∃ value, textKeys request = [value] ∧ IsNonce value ∧ trimOws value.bytes = key := by
  simp only [validateWebsocketRequest,ite_error_eq_ok,not_not,ne_eq,headerHasToken_iff]
  have hhost := @host_iff request
  have hrevision := @revision_iff request
  simp only [ne_eq] at hhost hrevision
  rw [hhost,hrevision,keys_iff]
  constructor
  · rintro ⟨hmethod,hversion,hhost,hconnection,hupgrade,hrevision,hkey⟩
    exact ⟨⟨hmethod,hversion,hhost,hrevision⟩,hconnection,hupgrade,hkey⟩
  · rintro ⟨⟨hmethod,hversion,hhost,hrevision⟩,hconnection,hupgrade,hkey⟩
    exact ⟨hmethod,hversion,hhost,hconnection,hupgrade,hrevision,hkey⟩

theorem textKeys_single {value : HeaderValue} (h : request.headers.getAll keyName = [value]) (hnonce : IsNonce value) :
    textKeys request = [value] := by
  rw [textKeys,h]
  exact List.filter_cons_of_pos (decide_eq_true hnonce.isText)

theorem response_accept {R : Type} (sha1 : Bytes → Bytes) (key : Bytes) :
    (WebSocketUpgrade.mk (websocketAccept sha1 key)).response = some (⟨.switchingProtocols,
      [("connection",upgradeValue),("upgrade",websocketValue),("sec-websocket-accept",
        Base64.encode (sha1 (key ++ acceptGuid)))],.empty⟩ : Response R) :=
  if_pos (List.all_eq_true.mpr (encode_isValueChar _))

/-- The handshake is accepted just when it is valid, and then the response is for its key. -/
def AcceptedExactly (R : Type) (sha1 : Bytes → Bytes) (request : UpgradeRequest) : Prop :=
  ((∃ upgrade, tryFromRequest sha1 request = .ok upgrade) ↔ ∃ value, ValidHandshake request value) ∧
    ∀ upgrade value, tryFromRequest sha1 request = .ok upgrade → ValidHandshake request value →
      ∃ response : Response R, upgrade.response = some response ∧ response.status = .switchingProtocols ∧
        response.headers.getAll "sec-websocket-accept" = [Base64.encode (sha1 (trimOws value.bytes ++ acceptGuid))]

/-- No field that is not text makes a difference: where nothing else is wrong, the tokens are
listed in fields that are text, and every field of the key is text. -/
structure Plain (request : UpgradeRequest) : Prop where
  tokens : WellFramed request → ∀ value, request.headers.getAll keyName = [value] → IsNonce value →
    Listed request connectionName upgradeToken → Listed request upgradeName websocketToken →
      ListedInText request connectionName upgradeToken ∧ ListedInText request upgradeName websocketToken
  keys : WellFramed request → ListedInText request connectionName upgradeToken →
    ListedInText request upgradeName websocketToken → ∀ value, textKeys request = [value] → IsNonce value →
      ∀ other ∈ request.headers.getAll keyName, IsText other

theorem tryFromRequest_ok_iff {sha1 : Bytes → Bytes} {upgrade : WebSocketUpgrade} :
    tryFromRequest sha1 request = .ok upgrade ↔
      ∃ key, validateWebsocketRequest request = .ok key ∧ ⟨websocketAccept sha1 key⟩ = upgrade := map_eq_ok

/-- The handshake is accepted exactly when it is valid, up to fields that are not text. -/
theorem acceptedExactly_iff_plain (R : Type) (sha1 : Bytes → Bytes) (request : UpgradeRequest) :
    AcceptedExactly R sha1 request ↔ Plain request := by
  constructor
  · rintro ⟨haccepted,-⟩
    refine ⟨fun hframed value hkey hnonce hconnection hupgrade => ?_,
      fun hframed hconnection hupgrade value hkey hnonce other hother => ?_⟩
    · obtain ⟨upgrade,hok⟩ := haccepted.mpr ⟨value,hframed,hconnection,hupgrade,hkey,hnonce⟩
      obtain ⟨key,hvalidate,-⟩ := tryFromRequest_ok_iff.mp hok
      obtain ⟨-,htext,htext',-⟩ := validateWebsocketRequest_iff.mp hvalidate
      exact ⟨htext,htext'⟩
    · have hvalidate := validateWebsocketRequest_iff.mpr ⟨hframed,hconnection,hupgrade,value,hkey,hnonce,rfl⟩
      obtain ⟨field,hvalid⟩ := haccepted.mp ⟨_,tryFromRequest_ok_iff.mpr ⟨_,hvalidate,rfl⟩⟩
      rw [hvalid.key,List.mem_singleton] at hother
      rw [hother]
      exact hvalid.nonce.isText
  · rintro ⟨htokens,hkeys⟩
    refine ⟨⟨?_,?_⟩,?_⟩
    · rintro ⟨upgrade,hok⟩
      obtain ⟨key,hvalidate,-⟩ := tryFromRequest_ok_iff.mp hok
      obtain ⟨hframed,hconnection,hupgrade,value,hkey,hnonce,-⟩ := validateWebsocketRequest_iff.mp hvalidate
      have htext := hkeys hframed hconnection hupgrade value hkey hnonce
      have hall : textKeys request = request.headers.getAll keyName :=
        List.filter_eq_self.mpr fun other hother => decide_eq_true (htext other hother)
      exact ⟨value,hframed,hconnection.listed,hupgrade.listed,hall ▸ hkey,hnonce⟩
    · rintro ⟨value,hvalid⟩
      obtain ⟨hconnection,hupgrade⟩ :=
        htokens hvalid.toWellFramed value hvalid.key hvalid.nonce hvalid.connection hvalid.upgrade
      have hkey := textKeys_single hvalid.key hvalid.nonce
      have hvalidate := validateWebsocketRequest_iff.mpr
        ⟨hvalid.toWellFramed,hconnection,hupgrade,value,hkey,hvalid.nonce,rfl⟩
      exact ⟨_,tryFromRequest_ok_iff.mpr ⟨_,hvalidate,rfl⟩⟩
    · intro upgrade value hok hvalid
      obtain ⟨key,hvalidate,rfl⟩ := tryFromRequest_ok_iff.mp hok
      obtain ⟨-,-,-,field,hkey,-,rfl⟩ := validateWebsocketRequest_iff.mp hvalidate
      rw [textKeys_single hvalid.key hvalid.nonce] at hkey
      cases hkey
      exact ⟨_,response_accept sha1 _,rfl,rfl⟩

/-- A handshake with the key of the RFC, and a second key of one byte that is not text. -/
def twoKeys : UpgradeRequest where
  method := .get
  version := .http11
  headers := [(hostName,⟨[97],by decide⟩),(connectionName,⟨upgradeToken,by decide⟩),
    (upgradeName,⟨websocketToken,by decide⟩),(versionName,⟨thirteen,by decide⟩),
    (keyName,⟨[100,71,104,108,73,72,78,104,98,88,66,115,90,83,66,117,98,50,53,106,90,81,61,61],by decide⟩),
    (keyName,⟨[255],by decide⟩)]

theorem twoKeys_accepted :
    (∃ upgrade, tryFromRequest id twoKeys = .ok upgrade) ∧ (twoKeys.headers.getAll keyName).length = 2 ∧
      ¬ AcceptedExactly Unit id twoKeys := by
  have haccepted : ∃ upgrade, tryFromRequest id twoKeys = .ok upgrade := ⟨_,rfl⟩
  refine ⟨haccepted,rfl,fun hexact => ?_⟩
  obtain ⟨value,hvalid⟩ := hexact.1.mp haccepted
  have hone : (twoKeys.headers.getAll keyName).length = 1 := congrArg List.length hvalid.key
  exact absurd hone (by decide)

end H12Tiny.Web
