import H12Tiny.Foundation.Plans
import H12Tiny.Web.Query
import H12Tiny.Web.WebSocket
import Mathlib.Data.List.Perm.Basic

/-! # Extractors and handlers

The extractors of the web layer and the glue that calls a handler with them. One extractor
gets the request that the one before has left over, and the first rejection is the answer.
Each leaves the request as it is, takes its body, its upgrade or the whole of it. A panic
while a body is collected leaves the handler without an answer. What an application may
decode out of a text is given by its decoder, and the arguments of a handler are a list of
values of one type, which the compiler keeps apart.
-/
namespace H12Tiny.Web
open Sync (Bytes utf8Valid)
open Util
open Plan (Raises)

/-- The types of the values in the extensions of a request, and Hyper's `OnUpgrade` among them. -/
structure ExtensionTypes where
  Key : Type
  [decEq : DecidableEq Key]
  Value : Key → Type
  onUpgrade : Key

variable {X : ExtensionTypes} {S J V R : Type}

instance : DecidableEq X.Key := X.decEq

/-- What a request has besides its method, path and fields. -/
structure Payload (X : ExtensionTypes) where
  version : Normalize.Version
  query : Option Bytes
  extensions : ∀ key, Option (X.Value key)
  body : BoxBody

namespace Request
variable (request : Request (Payload X))

/-- `Request::new(empty_body())`. -/
def fresh : Request (Payload X) := ⟨.get,['/'],[],⟨.http11,none,fun _ => none,emptyBody⟩⟩

/-- The request from its parts and an empty body. -/
def drained : Request (Payload X) := { request with body := { request.body with body := emptyBody } }

/-- The request without the extension that `hyper::upgrade::on` removes. -/
def upgraded : Request (Payload X) :=
  { request with body := { request.body with
      extensions := fun key => if key = X.onUpgrade then none else request.body.extensions key } }

/-- A field with the checks of the `http` crate, which every field of a request has passed. -/
def checkField (field : String × Bytes) : Option (HeaderName × HeaderValue) :=
  let name := field.1.toList.flatMap String.utf8EncodeChar
  if h : (name ≠ [] ∧ name.all isLowerToken = true) ∧ field.2.all isFieldByte = true then
    some (⟨name,h.1⟩,⟨field.2,h.2⟩)
  else none

example : checkField ("host",[97]) = some (Normalize.hostName,⟨[97],rfl⟩) := rfl

def handshake : UpgradeRequest := ⟨request.method,request.body.version,request.headers.filterMap checkField⟩

end Request

def Rejection.intoResponse (self : Rejection) : Response R := responseWithBody self.status self.message

section Paths

/-- `ScalarPathValue::parse_scalar`, with the parser of the type. -/
def parseScalar (parse : Path → Option V) (value : Path) : Except Rejection V :=
  match parse value with
  | some value => .ok value
  | none => .error ⟨.badRequest,"invalid path parameter: " ++ String.ofList value⟩

/-- The types that path parameters are extracted into: a scalar or a tuple of scalars. -/
inductive PathValue (V : Type)
  | scalar (parse : Path → Option V)
  | pair (first second : Path → Option V)
  | triple (first second third : Path → Option V)

def PathValue.fromPath (self : PathValue V) (params : RouteParams) : Except Rejection (List V) :=
  match self,params.map Prod.snd with
  | scalar parse,[value] => (parseScalar parse value).map fun value => [value]
  | scalar _,_ => .error ⟨.badRequest,"expected one path parameter"⟩
  | pair _ _,[] => .error ⟨.badRequest,"missing first path parameter"⟩
  | pair _ _,[_] => .error ⟨.badRequest,"missing second path parameter"⟩
  | pair first second,[a,b] => do
    let a ← parseScalar first a
    let b ← parseScalar second b
    .ok [a,b]
  | pair _ _,_ => .error ⟨.badRequest,"too many path parameters"⟩
  | triple first second third,[a,b,c] => do
    let a ← parseScalar first a
    let b ← parseScalar second b
    let c ← parseScalar third c
    .ok [a,b,c]
  | triple _ _ _,_ => .error ⟨.badRequest,"expected three path parameters"⟩

end Paths

section Bodies

/-- The answer to a failed collection, which differs in the message for a failed body. -/
def rejectBody (message : String) (error : BodyCollectionError BoxError) : Rejection :=
  match bodyLimitFromCollection error with
  | some error => ⟨.payloadTooLarge,error.toText⟩
  | none => ⟨.badRequest,message⟩

def decodeJson (fromStr : Bytes → Except String J) (bytes : Bytes) : Except Rejection J :=
  if utf8Valid bytes then (fromStr bytes).mapError fun error => ⟨.badRequest,"invalid JSON: " ++ error⟩
  else .error ⟨.badRequest,"invalid JSON: miniserde error"⟩

/-- An empty body is no value. -/
def decodeOptional (fromStr : Bytes → Except String J) (bytes : Bytes) : Except Rejection (Option J) :=
  if bytes = [] then .ok none else (decodeJson fromStr bytes).map some

def collectFor (message : String) (body : BoxBody) (info : RequestMeta) : Option (Except Rejection Bytes) :=
  (collectYielded body.frames body.hint (info.bodyLimit.getD usizeMax)).map (Except.mapError (rejectBody message))

end Bodies

inductive Halt
  | rejected (rejection : Rejection)
  | panicked

def rejecting {α : Type} (result : Except Rejection α) : Except Halt α := result.mapError Halt.rejected

def halting {α : Type} : Option (Except Rejection α) → Except Halt α
  | some result => rejecting result
  | none => .error .panicked

/-- The types of the crate that implement `FromRequest`. -/
inductive Extractor (X : ExtensionTypes) (J V : Type)
  | state
  | extension (key : X.Key)
  | optionExtension (key : X.Key)
  | bytes
  | path (value : PathValue V)
  | request
  | rawQuery
  | query (fromStr : Bytes → Option J)
  | json (fromStr : Bytes → Except String J)
  | optionJson (fromStr : Bytes → Except String J)
  | httpUpgrade
  | webSocketUpgrade (sha1 : Bytes → Bytes)

/-- An argument of a handler. Without an extension to take, an upgrade is `OnUpgrade::none`. -/
inductive Arg (X : ExtensionTypes) (S J V : Type)
  | state (state : S)
  | extension (key : X.Key) (value : X.Value key)
  | optionExtension (key : X.Key) (value : Option (X.Value key))
  | bytes (bytes : Bytes)
  | path (values : List V)
  | request (request : Request (Payload X))
  | rawQuery (query : Option Bytes)
  | query (value : J)
  | json (value : J)
  | optionJson (value : Option J)
  | httpUpgrade (onUpgrade : Option (X.Value X.onUpgrade))
  | webSocketUpgrade (upgrade : WebSocketUpgrade) (onUpgrade : Option (X.Value X.onUpgrade))

/-- `FromRequest::from_request`. -/
def Extractor.fromRequest (lib : QueryLibrary) (self : Extractor X J V) (request : Request (Payload X))
    (state : Option S) (info : RequestMeta) : Except Halt (Arg X S J V × Request (Payload X)) :=
  match self with
  | .state =>
    match state with
    | some state => .ok (.state state,request)
    | none => .error (.rejected ⟨.internalServerError,"router state is not configured"⟩)
  | extension key =>
    match request.body.extensions key with
    | some value => .ok (.extension key value,request)
    | none => .error (.rejected ⟨.internalServerError,"request extension is missing"⟩)
  | optionExtension key => .ok (.optionExtension key (request.body.extensions key),request)
  | bytes => do
    let bytes ← halting (Web.fromRequest request.body.body info)
    .ok (.bytes bytes,request.drained)
  | path value => do
    let values ← rejecting (value.fromPath info.params)
    .ok (.path values,request)
  | .request => .ok (.request request,.fresh)
  | rawQuery => .ok (.rawQuery request.body.query,request)
  | query fromStr => do
    let value ← rejecting (queryFromRequest lib fromStr request.body.query)
    .ok (.query value,request)
  | json fromStr => do
    let bytes ← halting (collectFor "failed to read JSON body" request.body.body info)
    let value ← rejecting (decodeJson fromStr bytes)
    .ok (.json value,request.drained)
  | optionJson fromStr => do
    let bytes ← halting (collectFor "failed to read optional JSON body" request.body.body info)
    let value ← rejecting (decodeOptional fromStr bytes)
    .ok (.optionJson value,request.drained)
  | httpUpgrade => .ok (.httpUpgrade (request.body.extensions X.onUpgrade),request.upgraded)
  | webSocketUpgrade sha1 => do
    let upgrade ← rejecting (upgradeFromRequest sha1 request.handshake)
    .ok (.webSocketUpgrade upgrade (request.body.extensions X.onUpgrade),request.upgraded)

def extractAll (lib : QueryLibrary) (extractors : List (Extractor X J V)) (request : Request (Payload X))
    (state : Option S) (info : RequestMeta) : Except Halt (List (Arg X S J V)) :=
  match extractors with
  | [] => .ok []
  | extractor :: rest => do
    let (value,remainder) ← extractor.fromRequest lib request state info
    let values ← extractAll lib rest remainder state info
    .ok (value :: values)

structure Handler (X : ExtensionTypes) (S J V R : Type) where
  extractors : List (Extractor X J V)
  run : List (Arg X S J V) → Response R

namespace Handler
variable (self : Handler X S J V R)

def answer : Except Halt (List (Arg X S J V)) → Option (Response R)
  | .ok args => some (self.run args)
  | .error (.rejected rejection) => some rejection.intoResponse
  | .error .panicked => none

def call (lib : QueryLibrary) (request : Request (Payload X)) (state : Option S) (info : RequestMeta) :
    Option (Response R) := self.answer (extractAll lib self.extractors request state info)

end Handler

/-- What an extractor leaves of the request. -/
inductive Use
  | keeps
  | drains
  | upgrades
  | replaces
  deriving DecidableEq

def Use.remainder : Use → Request (Payload X) → Request (Payload X)
  | keeps,request => request
  | drains,request => request.drained
  | upgrades,request => request.upgraded
  | replaces,_ => .fresh

namespace Extractor

def use : Extractor X J V → Use
  | bytes => .drains
  | json _ => .drains
  | optionJson _ => .drains
  | httpUpgrade => .upgrades
  | webSocketUpgrade _ => .upgrades
  | request => .replaces
  | _ => .keeps

variable (lib : QueryLibrary) (self : Extractor X J V) (request : Request (Payload X)) (state : Option S)
  (info : RequestMeta)

def value : Except Halt (Arg X S J V) := (self.fromRequest lib request state info).map Prod.fst

theorem remainder_eq {out : Arg X S J V × Request (Payload X)}
    (h : self.fromRequest lib request state info = .ok out) : out.2 = self.use.remainder request := by
  cases self with
  | state =>
    rcases state with _ | state
    · cases h
    · cases h
      rfl
  | extension key =>
    simp only [fromRequest] at h
    split at h
    · cases h
      rfl
    · cases h
  | bytes | path | query | webSocketUpgrade =>
    obtain ⟨_,_,hok⟩ := bind_eq_ok.mp h
    cases hok
    rfl
  | json | optionJson =>
    obtain ⟨_,_,hbind⟩ := bind_eq_ok.mp h
    obtain ⟨_,_,hok⟩ := bind_eq_ok.mp hbind
    cases hok
    rfl
  | optionExtension | request | rawQuery | httpUpgrade =>
    cases h
    rfl

theorem fromRequest_eq : self.fromRequest lib request state info =
    (self.value lib request state info).map fun value => (value,self.use.remainder request) := by
  unfold value
  rcases hresult : self.fromRequest lib request state info with error | ⟨value,remainder⟩
  · rfl
  · have hremainder := remainder_eq lib self request state info hresult
    cases hremainder
    rfl

end Extractor

/-- The request as it gets past these extractors. -/
def seen (before : List (Extractor X J V)) (request : Request (Payload X)) : Request (Payload X) :=
  let uses := before.map Extractor.use
  if Use.replaces ∈ uses then .fresh
  else
    let request := if Use.drains ∈ uses then request.drained else request
    if Use.upgrades ∈ uses then request.upgraded else request

theorem upgraded_upgraded (request : Request (Payload X)) : request.upgraded.upgraded = request.upgraded := by
  have hsame : ∀ key, (if key = X.onUpgrade then none else
      if key = X.onUpgrade then none else request.body.extensions key) =
      if key = X.onUpgrade then none else request.body.extensions key := fun key => by split <;> rfl
  simp only [Request.upgraded,hsame]

theorem upgraded_fresh : Request.upgraded (.fresh : Request (Payload X)) = .fresh := by
  simp only [Request.upgraded,Request.fresh,ite_self]

theorem seen_cons (extractor : Extractor X J V) (before : List (Extractor X J V)) (request : Request (Payload X)) :
    seen (extractor :: before) request = seen before (extractor.use.remainder request) := by
  simp only [seen,List.map_cons,List.mem_cons]
  rcases extractor.use with _ | _ | _ | _
  · simp [Use.remainder]
  · simp only [reduceCtorEq,false_or,true_or,if_true,Use.remainder]
    exact if_congr Iff.rfl rfl (if_congr Iff.rfl (congrArg _ (ite_self _).symm) (ite_self _).symm)
  · have hdrained : request.upgraded.drained = request.drained.upgraded := rfl
    simp only [reduceCtorEq,false_or,true_or,if_true,Use.remainder,hdrained]
    refine if_congr Iff.rfl rfl ?_
    by_cases hdrains : Use.drains ∈ before.map Extractor.use
    · simp only [if_pos hdrains,upgraded_upgraded,ite_self]
    · simp only [if_neg hdrains,upgraded_upgraded,ite_self]
  · have hfresh : Request.drained (.fresh : Request (Payload X)) = .fresh := rfl
    simp [Use.remainder,hfresh,upgraded_fresh]

theorem seen_body (before : List (Extractor X J V)) (request : Request (Payload X)) :
    (seen before request).body.body = emptyBody ∨ (seen before request).body.body = request.body.body := by
  induction before generalizing request with
  | nil => exact .inr rfl
  | cons extractor before ih =>
    rw [seen_cons]
    rcases ih (extractor.use.remainder request) with hempty | hsame
    · exact .inl hempty
    · rw [hsame]
      cases extractor.use with
      | keeps | upgrades => exact .inr rfl
      | drains | replaces => exact .inl rfl

theorem seen_perm {before before' : List (Extractor X J V)} (h : before.Perm before') (request : Request (Payload X)) :
    seen before request = seen before' request := by
  have huses := h.map Extractor.use
  simp [seen,huses.mem_iff]

theorem seen_keeps {before : List (Extractor X J V)} (h : ∀ extractor ∈ before, extractor.use = .keeps)
    (request : Request (Payload X)) : seen before request = request := by
  induction before with
  | nil => rfl
  | cons extractor before ih =>
    obtain ⟨hkeeps,hrest⟩ := List.forall_mem_cons.mp h
    rw [seen_cons,hkeeps]
    exact ih hrest

section Chain
variable (lib : QueryLibrary) (state : Option S) (info : RequestMeta)

theorem extractAll_cons (extractor : Extractor X J V) (rest : List (Extractor X J V)) (request : Request (Payload X)) :
    extractAll lib (extractor :: rest) request state info =
      (extractor.value lib request state info).bind fun value =>
        (extractAll lib rest (extractor.use.remainder request) state info).map fun values => value :: values := by
  rw [extractAll,extractor.fromRequest_eq]
  rcases extractor.value lib request state info with error | value
  · rfl
  · change (extractAll lib rest _ state info >>= _) = (extractAll lib rest _ state info).map _
    rcases extractAll lib rest (extractor.use.remainder request) state info with error | values
    · rfl
    · rfl

theorem extractAll_append (front back : List (Extractor X J V)) (request : Request (Payload X)) :
    extractAll lib (front ++ back) request state info =
      (extractAll lib front request state info).bind fun values =>
        (extractAll lib back (seen front request) state info).map fun later => values ++ later := by
  induction front generalizing request with
  | nil =>
    change extractAll lib back request state info = (extractAll lib back request state info).map _
    rcases extractAll lib back request state info with error | values
    · rfl
    · rfl
  | cons extractor front ih =>
    rw [List.cons_append,extractAll_cons,extractAll_cons,seen_cons,ih]
    rcases extractor.value lib request state info with error | value
    · rfl
    · rcases extractAll lib front (extractor.use.remainder request) state info with error | values
      · rfl
      · rcases extractAll lib back (seen front (extractor.use.remainder request)) state info with error | later
        · rfl
        · rfl

theorem extractAll_error {extractors : List (Extractor X J V)} {request : Request (Payload X)} {halt : Halt}
    (h : extractAll lib extractors request state info = .error halt) :
    ∃ front extractor back args, extractors = front ++ extractor :: back ∧
      extractAll lib front request state info = .ok args ∧
      extractor.value lib (seen front request) state info = .error halt := by
  induction extractors generalizing request with
  | nil => cases h
  | cons extractor rest ih =>
    rw [extractAll_cons] at h
    rcases hvalue : extractor.value lib request state info with error | value
    · rw [hvalue] at h
      cases h
      exact ⟨[],extractor,rest,[],rfl,rfl,hvalue⟩
    · rw [hvalue] at h
      rcases hrest : extractAll lib rest (extractor.use.remainder request) state info with error | values
      · simp only [Except.bind,hrest,Except.map] at h
        cases h
        obtain ⟨front,failing,back,args,hsplit,hargs,hfailing⟩ := ih hrest
        refine ⟨extractor :: front,failing,back,value :: args,congrArg (extractor :: ·) hsplit,?_,?_⟩
        · rw [extractAll_cons,hvalue]
          simp only [Except.bind,hargs,Except.map]
        · rw [seen_cons]
          exact hfailing
      · simp only [Except.bind,hrest,Except.map] at h
        cases h

theorem extractAll_ok {front back : List (Extractor X J V)} {extractor : Extractor X J V}
    {request : Request (Payload X)} {args : List (Arg X S J V)}
    (h : extractAll lib (front ++ extractor :: back) request state info = .ok args) :
    ∃ arg, args[front.length]? = some arg ∧ extractor.value lib (seen front request) state info = .ok arg := by
  induction front generalizing request args with
  | nil =>
    rw [List.nil_append,extractAll_cons] at h
    obtain ⟨arg,hvalue,hmap⟩ := bind_eq_ok.mp h
    obtain ⟨later,_,rfl⟩ := map_eq_ok.mp hmap
    exact ⟨arg,rfl,hvalue⟩
  | cons first front ih =>
    rw [List.cons_append,extractAll_cons] at h
    obtain ⟨_,_,hmap⟩ := bind_eq_ok.mp h
    obtain ⟨later,hlater,rfl⟩ := map_eq_ok.mp hmap
    obtain ⟨arg,hget,hvalue⟩ := ih hlater
    exact ⟨arg,hget,by rwa [seen_cons]⟩

theorem extractAll_length {extractors : List (Extractor X J V)} {request : Request (Payload X)}
    {args : List (Arg X S J V)} (h : extractAll lib extractors request state info = .ok args) :
    args.length = extractors.length := by
  induction extractors generalizing request args with
  | nil =>
    cases h
    rfl
  | cons extractor rest ih =>
    rw [extractAll_cons] at h
    obtain ⟨_,_,hmap⟩ := bind_eq_ok.mp h
    obtain ⟨later,hlater,rfl⟩ := map_eq_ok.mp hmap
    exact congrArg (· + 1) (ih hlater)

end Chain

section Statuses

/-- The server lacks what the extractor is there for. -/
def Extractor.Unconfigured (self : Extractor X J V) (request : Request (Payload X)) (state : Option S) : Prop :=
  match self with
  | .state => state = none
  | .extension key => request.body.extensions key = none
  | _ => False

/-- The collection of the body ends at a limit. -/
def Overlong (body : BoxBody) (info : RequestMeta) : Prop :=
  ∃ error exceeded, collectYielded body.frames body.hint (info.bodyLimit.getD usizeMax) = some (.error error) ∧
    bodyLimitFromCollection error = some exceeded

/-- Without a limit a buffer can have, the body announces or brings more than one can hold. -/
def Unbounded (body : BoxBody) (info : RequestMeta) : Prop :=
  isizeMax < info.bodyLimit.getD usizeMax ∧
    ((∃ upper ∈ body.hint.upper, isizeMax < upper) ∨ isizeMax < dataLength (beforeError body.frames))

/-- The status of a rejection tells whose fault it is: that of the server, of a body that is
too long, or of the client. -/
structure Blames (extractor : Extractor X J V) (request : Request (Payload X)) (state : Option S) (info : RequestMeta)
    (status : StatusCode) : Prop where
  server : status = .internalServerError ↔ extractor.Unconfigured request state
  length : status = .payloadTooLarge ↔ extractor.use = .drains ∧ Overlong request.body.body info
  known : status ∈ [StatusCode.badRequest,StatusCode.payloadTooLarge,StatusCode.internalServerError]

variable {extractor : Extractor X J V} {request : Request (Payload X)} {state : Option S} {info : RequestMeta}
  {rejection : Rejection}

theorem Blames.badRequest {status : StatusCode} (hconfigured : ¬extractor.Unconfigured request state)
    (hlength : extractor.use = .drains → ¬Overlong request.body.body info) (hstatus : status = .badRequest) :
    Blames extractor request state info status := by
  rw [hstatus]
  have hserver : StatusCode.badRequest ≠ .internalServerError := by decide
  have hlong : StatusCode.badRequest ≠ .payloadTooLarge := by decide
  exact ⟨iff_of_false hserver hconfigured,iff_of_false hlong fun h => hlength h.1 h.2,List.mem_cons_self⟩

theorem Blames.internalServerError (hunconfigured : extractor.Unconfigured request state)
    (hkeeps : extractor.use = .keeps) : Blames extractor request state info .internalServerError := by
  have hlong : StatusCode.internalServerError ≠ .payloadTooLarge := by decide
  refine ⟨iff_of_true rfl hunconfigured,iff_of_false hlong fun h => ?_,by decide⟩
  cases hkeeps.symm.trans h.1

theorem parseScalar_raises (parse : Path → Option V) (value : Path) :
    Raises (·.status = .badRequest) (parseScalar parse value) := by
  unfold parseScalar
  split
  · exact .ok
  · exact .error rfl

theorem PathValue.fromPath_raises (self : PathValue V) (params : RouteParams) :
    Raises (·.status = .badRequest) (self.fromPath params) := by
  unfold fromPath
  split
  · exact (parseScalar_raises _ _).map
  · exact .error rfl
  · exact .error rfl
  · exact .error rfl
  · exact .bind (parseScalar_raises _ _) fun _ => .bind (parseScalar_raises _ _) fun _ => .ok
  · exact .error rfl
  · exact .bind (parseScalar_raises _ _) fun _ => .bind (parseScalar_raises _ _) fun _ =>
      .bind (parseScalar_raises _ _) fun _ => .ok
  · exact .error rfl

theorem decodeJson_raises (fromStr : Bytes → Except String J) (bytes : Bytes) :
    Raises (·.status = .badRequest) (decodeJson fromStr bytes) := by
  unfold decodeJson
  split
  · exact .mapError fun _ => rfl
  · exact .error rfl

theorem decodeOptional_raises (fromStr : Bytes → Except String J) (bytes : Bytes) :
    Raises (·.status = .badRequest) (decodeOptional fromStr bytes) := by
  unfold decodeOptional
  split
  · exact .ok
  · exact (decodeJson_raises fromStr bytes).map

theorem upgradeFromRequest_raises (sha1 : Bytes → Bytes) (request : UpgradeRequest) :
    Raises (·.status = .badRequest) (upgradeFromRequest sha1 request) := .mapError fun _ => rfl

section Halting
variable {α : Type} {halt : Halt}

theorem rejecting_eq_error {result : Except Rejection α} (h : rejecting result = .error halt) :
    ∃ rejection, result = .error rejection ∧ halt = .rejected rejection := by
  cases result with
  | error rejection =>
    cases h
    exact ⟨rejection,rfl,rfl⟩
  | ok a => cases h

theorem halting_eq_error {result : Option (Except Rejection α)} (h : halting result = .error halt) :
    (∃ rejection, result = some (.error rejection) ∧ halt = .rejected rejection) ∨
      result = none ∧ halt = .panicked := by
  cases result with
  | none =>
    cases h
    exact .inr ⟨rfl,rfl⟩
  | some result =>
    obtain ⟨rejection,rfl,hhalt⟩ := rejecting_eq_error h
    exact .inl ⟨rejection,rfl,hhalt⟩

theorem halting_collectFor_ok {message : String} {body : BoxBody} {bytes : Bytes}
    (h : halting (collectFor message body info) = .ok bytes) :
    collectYielded body.frames body.hint (info.bodyLimit.getD usizeMax) = some (.ok bytes) := by
  unfold collectFor at h
  generalize collectYielded body.frames body.hint (info.bodyLimit.getD usizeMax) = result at *
  rcases result with _ | error | bytes'
  · cases h
  · cases h
  · cases h
    rfl

end Halting

theorem not_overlong {body : BoxBody} {bytes : Bytes}
    (h : collectYielded body.frames body.hint (info.bodyLimit.getD usizeMax) = some (.ok bytes)) :
    ¬Overlong body info := by
  rintro ⟨error,_,herror,_⟩
  cases herror.symm.trans h

/-- A collection that fails at a limit has status 413, any other 400. -/
theorem Blames.collection {message : String} (hconfigured : ¬extractor.Unconfigured request state)
    (hdrains : extractor.use = .drains) (h : collectFor message request.body.body info = some (.error rejection)) :
    Blames extractor request state info rejection.status := by
  unfold collectFor at h
  rcases hcollect : collectYielded request.body.body.frames request.body.body.hint (info.bodyLimit.getD usizeMax) with
    _ | error | bytes
  · rw [hcollect] at h
    cases h
  · rw [hcollect] at h
    cases h
    unfold rejectBody
    rcases hlimit : bodyLimitFromCollection error with _ | exceeded
    · refine .badRequest hconfigured (fun _ => ?_) rfl
      rintro ⟨_,_,herror,hexceeded⟩
      cases hcollect.symm.trans herror
      cases hlimit.symm.trans hexceeded
    · have hserver : StatusCode.payloadTooLarge ≠ .internalServerError := by decide
      exact ⟨iff_of_false hserver hconfigured,iff_of_true rfl ⟨hdrains,error,exceeded,hcollect,hlimit⟩,
        List.mem_cons_of_mem _ List.mem_cons_self⟩
  · rw [hcollect] at h
    cases h

/-- An extractor that stops the handler rejects the request for a reason, or panics over its body. -/
inductive Stops (extractor : Extractor X J V) (request : Request (Payload X)) (state : Option S) (info : RequestMeta) :
    Halt → Prop
  | rejects {rejection : Rejection} (h : Blames extractor request state info rejection.status) :
      Stops extractor request state info (.rejected rejection)
  | panics (hdrains : extractor.use = .drains) (h : Unbounded request.body.body info) :
      Stops extractor request state info .panicked

theorem Stops.badRequest {α : Type} {result : Except Rejection α} {halt : Halt}
    (hconfigured : ¬extractor.Unconfigured request state)
    (hlength : extractor.use = .drains → ¬Overlong request.body.body info)
    (hraises : Raises (·.status = .badRequest) result) (h : rejecting result = .error halt) :
    Stops extractor request state info halt := by
  obtain ⟨rejection,herror,rfl⟩ := rejecting_eq_error h
  exact .rejects (.badRequest hconfigured hlength (hraises rejection herror))

theorem Stops.collection {message : String} {halt : Halt} (hconfigured : ¬extractor.Unconfigured request state)
    (hdrains : extractor.use = .drains) (h : halting (collectFor message request.body.body info) = .error halt) :
    Stops extractor request state info halt := by
  rcases halting_eq_error h with ⟨rejection,herror,rfl⟩ | ⟨hnone,rfl⟩
  · exact .rejects (.collection hconfigured hdrains herror)
  · exact .panics hdrains (collectYielded_panics (Option.map_eq_none_iff.mp hnone))

theorem Extractor.value_stops {lib : QueryLibrary} {halt : Halt}
    (h : extractor.value lib request state info = .error halt) : Stops extractor request state info halt := by
  have hstops := map_eq_error h
  cases extractor with
  | state =>
    rcases state with _ | state
    · cases hstops
      exact .rejects (.internalServerError rfl rfl)
    · cases hstops
  | extension key =>
    simp only [fromRequest] at hstops
    split at hstops
    next => cases hstops
    next hnone =>
      cases hstops
      exact .rejects (.internalServerError hnone rfl)
  | optionExtension | request | rawQuery | httpUpgrade => cases hstops
  | bytes =>
    rcases bind_eq_error hstops with herror | ⟨_,_,herror⟩
    · exact .collection id rfl herror
    · cases herror
  | path value =>
    rcases bind_eq_error hstops with herror | ⟨_,_,herror⟩
    · exact .badRequest id (fun h => by cases h) (value.fromPath_raises info.params) herror
    · cases herror
  | query fromStr =>
    rcases bind_eq_error hstops with herror | ⟨_,_,herror⟩
    · exact .badRequest id (fun h => by cases h) (fun _ => queryFromRequest_error lib fromStr _) herror
    · cases herror
  | webSocketUpgrade sha1 =>
    rcases bind_eq_error hstops with herror | ⟨_,_,herror⟩
    · exact .badRequest id (fun h => by cases h) (upgradeFromRequest_raises sha1 _) herror
    · cases herror
  | json fromStr =>
    rcases bind_eq_error hstops with herror | ⟨bytes,hbytes,hrest⟩
    · exact .collection id rfl herror
    · rcases bind_eq_error hrest with herror | ⟨_,_,herror⟩
      · have hlength := not_overlong (halting_collectFor_ok hbytes)
        exact .badRequest id (fun _ => hlength) (decodeJson_raises fromStr bytes) herror
      · cases herror
  | optionJson fromStr =>
    rcases bind_eq_error hstops with herror | ⟨bytes,hbytes,hrest⟩
    · exact .collection id rfl herror
    · rcases bind_eq_error hrest with herror | ⟨_,_,herror⟩
      · have hlength := not_overlong (halting_collectFor_ok hbytes)
        exact .badRequest id (fun _ => hlength) (decodeOptional_raises fromStr bytes) herror
      · cases herror

end Statuses

inductive TraceKey
  | trace
  | onUpgrade
  deriving DecidableEq

/-- An extension with the number of a trace, besides the upgrade. -/
abbrev traceTypes : ExtensionTypes := ⟨TraceKey,fun _ => ℕ,.onUpgrade⟩

/-- A request with a query, the trace 7 and three bytes. -/
def tracedPost : Request (Payload traceTypes) :=
  ⟨.post,['/'],[],⟨.http11,some [97],fun _ => some 7,⟨[.ok (.data [1,2,3])],.withExact 3⟩⟩⟩

def trace : Extractor traceTypes Unit Unit := .extension TraceKey.trace

-- Behind `Request` there is no extension any more, although the request has it.
example : extractAll (S := Unit) decimalLibrary [trace,.request,trace] tracedPost none ⟨[],none⟩ =
    .error (.rejected ⟨.internalServerError,"request extension is missing"⟩) := rfl

-- The upgrade can be taken once.
example : extractAll (S := Unit) decimalLibrary [.httpUpgrade,trace,.httpUpgrade] tracedPost none ⟨[],none⟩ =
    .ok [.httpUpgrade (some 7),.extension TraceKey.trace 7,.httpUpgrade none] := rfl

theorem extractAll_keeps (lib : QueryLibrary) {looks : List (Extractor X J V)}
    (h : ∀ extractor ∈ looks, extractor.use = .keeps) (request : Request (Payload X)) (state : Option S)
    (info : RequestMeta) : extractAll lib looks request state info =
      looks.mapM fun extractor => extractor.value lib request state info := by
  induction looks with
  | nil => rfl
  | cons extractor looks ih =>
    obtain ⟨hkeeps,hrest⟩ := List.forall_mem_cons.mp h
    rw [extractAll_cons,hkeeps,Use.remainder,ih hrest,List.mapM_cons]
    rcases extractor.value lib request state info with error | value
    · rfl
    · change Except.map _ (looks.mapM _) = (looks.mapM _ >>= _)
      rcases looks.mapM fun extractor => extractor.value lib request state info with error | values
      · rfl
      · rfl

/-- The order of such extractors decides at most which rejection is answered. -/
theorem looking_order_is_free (lib : QueryLibrary) {looks looks' : List (Extractor X J V)} (hperm : looks'.Perm looks)
    (hkeeps : ∀ extractor ∈ looks, extractor.use = .keeps) (rest : List (Extractor X J V))
    (request : Request (Payload X)) (state : Option S) (info : RequestMeta) {args : List (Arg X S J V)}
    (h : extractAll lib (looks ++ rest) request state info = .ok args) :
    ∃ args', extractAll lib (looks' ++ rest) request state info = .ok (args' ++ args.drop looks.length) ∧
      args'.Perm (args.take looks.length) := by
  have hkeeps' : ∀ extractor ∈ looks', extractor.use = .keeps := fun extractor hmem =>
    hkeeps extractor (hperm.mem_iff.mp hmem)
  rw [extractAll_append] at h
  obtain ⟨values,hvalues,hmap⟩ := bind_eq_ok.mp h
  obtain ⟨later,hlater,rfl⟩ := map_eq_ok.mp hmap
  have hlength := extractAll_length lib state info hvalues
  rw [extractAll_keeps lib hkeeps,mapM_eq_ok] at hvalues
  obtain ⟨values',hvalues',hperm'⟩ := List.perm_comp_forall₂ hperm hvalues
  refine ⟨values',?_,?_⟩
  · rw [extractAll_append,extractAll_keeps lib hkeeps',mapM_eq_ok.mpr hvalues',seen_perm hperm,← hlength,
      List.drop_left]
    exact map_eq_ok.mpr ⟨later,hlater,rfl⟩
  · rw [← hlength,List.take_left]
    exact hperm'

theorem looking_order_is_free_swapped :
    ∃ args', extractAll (S := Unit) decimalLibrary [trace,.rawQuery,.bytes] tracedPost none ⟨[],none⟩ =
        .ok (args' ++ [.bytes [1,2,3]]) ∧
      args'.Perm [.rawQuery (some [97]),.extension TraceKey.trace 7] := by
  have hperm : List.Perm [trace,.rawQuery] [.rawQuery,trace] := .swap _ _ []
  have hkeeps : ∀ looking ∈ [.rawQuery,trace], looking.use = .keeps :=
    List.forall_mem_cons.mpr ⟨rfl,List.forall_mem_singleton.mpr rfl⟩
  exact looking_order_is_free decimalLibrary hperm hkeeps [.bytes] tracedPost none ⟨[],none⟩ rfl

end H12Tiny.Web
