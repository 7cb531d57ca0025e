import H12Tiny.Foundation.Decimal
import H12Tiny.Foundation.HeaderMap
import H12Tiny.Http.Uri

/-! # Request normalization

The crate that both clients share: the origin of a request and its HTTP/1 form. A call of
`expect` that fails is a panic and has no result here. For a request whose origin was
found there is none: the form of the request is then given by its method, its authority
and its path alone.
-/
namespace H12Tiny.Normalize
open Sync (Bytes)

inductive Version
  | http09
  | http10
  | http11
  | http2
  | http3
  deriving DecidableEq

structure Request (B : Type) where
  method : Method
  uri : Uri
  version : Version
  headers : HeaderMap HeaderName HeaderValue
  body : B
  deriving DecidableEq

structure Origin where
  scheme : Scheme
  authority : Authority
  deriving DecidableEq

inductive Error
  | absoluteUriRequired
  deriving DecidableEq

def setConnectScheme (uri : Uri) (scheme : Scheme) : Option Uri :=
  Uri.fromParts (some scheme) uri.authority (some .slash)

/-- The origin, with the URI that is left in the place of the one given. -/
def extractOrigin (uri : Uri) (isConnect : Bool) : Option (Except Error Origin × Uri) :=
  match uri.scheme,uri.authority with
  | some scheme,some authority => some (.ok ⟨scheme,authority⟩,uri)
  | none,some authority =>
    if isConnect then
      let scheme := if authority.portU16 = some 443 then Scheme.https else Scheme.http
      (setConnectScheme uri scheme).map fun uri => (.ok ⟨scheme,authority⟩,uri)
    else some (.error .absoluteUriRequired,uri)
  | _,_ => some (.error .absoluteUriRequired,uri)

def isSecureScheme (uri : Uri) : Bool := uri.scheme = some .https ∨ uri.scheme = some wss

def nonDefaultPort (uri : Uri) : Option ℕ :=
  if (uri.port = some 443 ∧ isSecureScheme uri) ∨ (uri.port = some 80 ∧ ¬ isSecureScheme uri) then none
  else uri.port

/-- The header name `host`. -/
def hostName : HeaderName := ⟨[104,111,115,116],by decide⟩

def digits (n : ℕ) : Bytes := (Nat.toDigits 10 n).map fun c => c.toNat.toUInt8

def hostText (uri : Uri) (host : Bytes) : Bytes :=
  match nonDefaultPort uri with
  | some port => host ++ 58 :: digits port
  | none => host

variable {B : Type}

def synthesizeHost (request : Request B) : Option (Request B) :=
  if request.headers.containsKey hostName then some request
  else do
    let host ← request.uri.host
    let value ← HeaderValue.fromStr (hostText request.uri host)
    return { request with headers := request.headers.insert hostName value }

def originForm (uri : Uri) : Option Uri :=
  match uri.pathAndQuery with
  | some path => if path.asStr ≠ [47] then Uri.fromParts none none (some path) else some .default
  | none => some .default

def authorityForm (uri : Uri) : Option Uri := do
  let authority ← uri.authority
  Uri.fromParts none (some authority) none

/-- The form of the target that the method asks for. -/
def targetForm (method : Method) (uri : Uri) : Option Uri :=
  if method = .connect then authorityForm uri else originForm uri

def normalizeHttp1Request (request : Request B) (setHost : Bool) : Option (Request B) :=
  (if setHost then synthesizeHost request else some request).bind fun request =>
    (targetForm request.method request.uri).map fun uri => { request with uri }

theorem digitByte_toNat {c : Char} (h : c.isDigit) : c.toNat.toUInt8.toNat = c.toNat :=
  UInt8.toNat_ofNat_of_lt' (Nat.lt_of_le_of_lt (Char.isDigit_iff_toNat.mp h).2 (by decide))

theorem toDigits_isDigit (n : ℕ) : ∀ c ∈ Nat.toDigits 10 n, c.isDigit := fun _ hc =>
  Nat.isDigit_of_mem_toDigits (by decide) (by decide) hc

theorem digits_ne_nil (n : ℕ) : digits n ≠ [] := by
  rw [digits,Ne,List.map_eq_nil_iff]
  exact Nat.toDigits_ne_nil

theorem digits_spec (n : ℕ) : ∀ byte ∈ digits n, 48 ≤ byte ∧ byte ≤ 57 := by
  intro byte hbyte
  obtain ⟨c,hc,rfl⟩ := List.mem_map.mp hbyte
  have hdigit := toDigits_isDigit n c hc
  obtain ⟨hlow,hhigh⟩ := Char.isDigit_iff_toNat.mp hdigit
  rw [UInt8.le_iff_toNat_le,UInt8.le_iff_toNat_le,digitByte_toNat hdigit]
  exact ⟨hlow,hhigh⟩

theorem digits_decimal (n : ℕ) : (digits n).all isDecimal = true :=
  List.all_eq_true.mpr fun byte hbyte => decide_eq_true (digits_spec n byte hbyte)

theorem foldl_digits (text : List Char) (h : ∀ c ∈ text, c.isDigit) (n : ℕ) :
    (text.map fun c => c.toNat.toUInt8).foldl (fun n byte => 10 * n + (byte.toNat - 48)) n =
      Nat.ofDigitChars 10 text n := by
  induction text generalizing n with
  | nil => simp
  | cons c text ih =>
    rw [List.map_cons,List.foldl_cons,Nat.ofDigitChars_cons,ih fun d hd => h d (List.mem_cons_of_mem _ hd),
      digitByte_toNat (h c List.mem_cons_self)]
    rfl

theorem decimalValue_digits (n : ℕ) : decimalValue (digits n) = n := by
  rw [decimalValue,digits,foldl_digits _ (toDigits_isDigit n),Nat.ofDigitChars_ten_toDigits]

theorem extractOrigin_ok {uri uri' : Uri} {isConnect : Bool} {origin : Origin}
    (h : extractOrigin uri isConnect = some (.ok origin,uri')) :
    uri'.scheme = some origin.scheme ∧ uri'.authority = some origin.authority := by
  unfold extractOrigin at h
  split at h
  next scheme authority hscheme hauthority =>
    cases h
    exact ⟨hscheme,hauthority⟩
  next authority hscheme hauthority =>
    split at h
    · simp only [setConnectScheme,hauthority,Uri.fromParts,Option.map_some,Option.some.injEq,
        Prod.mk.injEq,Except.ok.injEq] at h
      obtain ⟨rfl,rfl⟩ := h
      exact ⟨rfl,rfl⟩
    · cases h
  next => cases h

/-- An absolute URI has an origin, and so has the authority of a `CONNECT` request. -/
theorem extractOrigin_exists {uri : Uri} {isConnect : Bool}
    (h : uri.scheme.isSome ∨ (isConnect = true ∧ uri.authority.isSome)) :
    ∃ origin uri', extractOrigin uri isConnect = some (.ok origin,uri') := by
  unfold extractOrigin
  cases hscheme : uri.scheme with
  | some scheme =>
    obtain ⟨authority,hauthority⟩ := Option.isSome_iff_exists.mp (uri.absolute (by rw [hscheme]; rfl))
    rw [hauthority]
    exact ⟨_,_,rfl⟩
  | none =>
    rw [hscheme] at h
    obtain ⟨rfl,hsome⟩ := h.resolve_left Bool.false_ne_true
    obtain ⟨authority,hauthority⟩ := Option.isSome_iff_exists.mp hsome
    rw [hauthority]
    simp only [if_true,setConnectScheme,hauthority]
    exact ⟨_,_,rfl⟩

def withHost (value : HeaderValue) (headers : HeaderMap HeaderName HeaderValue) :
    HeaderMap HeaderName HeaderValue :=
  if headers.containsKey hostName then headers else headers.insert hostName value

theorem withHost_containsKey (value : HeaderValue) (headers : HeaderMap HeaderName HeaderValue) :
    (withHost value headers).containsKey hostName = true := by
  unfold withHost
  split
  next h => exact h
  next =>
    rw [HeaderMap.containsKey_iff,HeaderMap.getAll_insert_self]
    exact List.cons_ne_nil _ _

theorem withHost_other (value : HeaderValue) (headers : HeaderMap HeaderName HeaderValue) {name : HeaderName}
    (h : name ≠ hostName) : (withHost value headers).getAll name = headers.getAll name := by
  unfold withHost
  split
  next => rfl
  next => exact HeaderMap.getAll_insert_of_ne _ _ _ h

theorem isValueChar_of_ascii {byte : UInt8} (h : 32 < byte ∧ byte < 127) : isValueChar byte := by
  simp only [isValueChar,decide_eq_true_eq]
  exact .inl ⟨UInt8.le_of_lt h.1,h.2⟩

theorem hostText_valid (uri : Uri) (authority : Authority) :
    ∀ byte ∈ hostText uri authority.host, isValueChar byte := by
  have hhost : ∀ byte ∈ authority.host, isValueChar byte := fun byte hbyte =>
    isValueChar_of_ascii (authority.host_ascii byte hbyte)
  unfold hostText
  split
  next port hport =>
    intro byte hbyte
    rcases List.mem_append.mp hbyte with hbyte | hbyte
    · exact hhost byte hbyte
    · rcases List.mem_cons.mp hbyte with rfl | hbyte
      · decide
      · obtain ⟨hlow,hhigh⟩ := digits_spec port byte hbyte
        exact isValueChar_of_ascii ⟨UInt8.lt_of_lt_of_le (by decide) hlow,UInt8.lt_of_le_of_lt hhigh (by decide)⟩
  next => exact hhost

/-- The target of a request in the form of its method. -/
def targetText (method : Method) (authority : Authority) (path : PathAndQuery) : Bytes :=
  if method = .connect then authority.asBytes else path.pathText ++ path.queryText

theorem targetText_valid (method : Method) (authority : Authority) (path : PathAndQuery) :
    targetText method authority path ≠ [] ∧ ∀ byte ∈ targetText method authority path, isUriByte byte := by
  unfold targetText
  split
  next =>
    refine ⟨authority.present,fun byte hbyte => ?_⟩
    obtain ⟨hlow,hhigh⟩ := authority.byte_ascii byte hbyte
    exact decide_eq_true ⟨hlow,fun e => absurd (e ▸ hhigh) (by decide)⟩
  next => exact ⟨path.text_ne_nil,path.text_plain⟩

theorem originForm_display {uri : Uri} (h : uri.scheme.isSome) :
    ∃ target, originForm uri = some target ∧ target.display = uri.parts.pathText ++ uri.parts.queryText := by
  have hpath : uri.pathAndQuery = some uri.parts := if_pos (.inl h)
  rw [originForm,hpath]
  simp only
  split
  next hroot =>
    refine ⟨_,rfl,?_⟩
    have hdata : uri.parts.data ≠ [] := fun hnil => hroot (by rw [PathAndQuery.asStr,if_pos hnil])
    simp [Uri.display,Uri.hasPath,hdata]
  next hroot =>
    rw [PathAndQuery.text_of_asStr (not_not.mp hroot)]
    exact ⟨_,rfl,rfl⟩

theorem authorityForm_display {uri : Uri} {authority : Authority} (h : uri.authority = some authority) :
    ∃ target, authorityForm uri = some target ∧ target.display = authority.asBytes := by
  rw [authorityForm,h]
  refine ⟨_,rfl,?_⟩
  simp [Uri.display,Uri.hasPath,PathAndQuery.data,PathAndQuery.empty,PathAndQuery.queryText]

/-- What normalization makes of a request depends on the URI and the method, apart from the
header fields, which are kept and may get a host. -/
theorem normalize_of_origin {uri : Uri} {authority : Authority} (method : Method)
    (hscheme : uri.scheme.isSome) (hauthority : uri.authority = some authority) :
    ∃ value target, value.bytes = hostText uri authority.host ∧
      target.display = targetText method authority uri.parts ∧
      ∀ (request : Request B) (setHost : Bool), request.uri = uri → request.method = method →
        normalizeHttp1Request request setHost = some { request with
          headers := if setHost then withHost value request.headers else request.headers
          uri := target } := by
  obtain ⟨target,hform,hdisplay⟩ : ∃ target, targetForm method uri = some target ∧
      target.display = targetText method authority uri.parts := by
    unfold targetForm targetText
    split
    · exact authorityForm_display hauthority
    · exact originForm_display hscheme
  obtain ⟨value,hvalue,hbytes⟩ : ∃ value, HeaderValue.fromStr (hostText uri authority.host) = some value ∧
      value.bytes = hostText uri authority.host :=
    ⟨_,dif_pos (List.all_eq_true.mpr (hostText_valid uri authority)),rfl⟩
  refine ⟨value,target,hbytes,hdisplay,?_⟩
  rintro request setHost rfl rfl
  have hhost : synthesizeHost request =
      some { request with headers := withHost value request.headers } := by
    unfold synthesizeHost withHost
    split
    next => rfl
    next =>
      rw [Uri.host,hauthority]
      simp only [Option.map_some,Option.bind_eq_bind,Option.bind_some,hvalue]
      rfl
  cases setHost with
  | false => simp [normalizeHttp1Request,hform]
  | true => simp [normalizeHttp1Request,hhost,hform]

end H12Tiny.Normalize
