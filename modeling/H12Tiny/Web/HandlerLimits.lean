import H12Tiny.Web.Extractors

/-! # The body limit of a handler

A route puts its limit on the body before any extractor sees it. Whatever extractors its
handler has, they get no more than the limit of the body together, and a body that exceeds
it is answered as such. With a limit up to the largest `isize` none of them panics.
-/
namespace H12Tiny.Web
open Sync (Bytes)
open Util

variable {X : ExtensionTypes} {S J V R : Type}

/-- The handlers of a router, whose bodies are limited as `Endpoint::call` does it. What stands
for a panic is left open. -/
def handlerRuntime (lib : QueryLibrary)
    (elapses : Handler X S J V R → Request (Payload X) → Option S → RequestMeta → ℕ → Bool) (panicked : Response R) :
    Runtime (Handler X S J V R) S (Payload X) R where
  handle handler request state info := (handler.call lib request state info).getD panicked
  elapses := elapses
  limited payload limit := { payload with body := (LimitedBody.new payload.body limit).boxedBody }

def Extractor.taken (self : Extractor X J V) (request : Request (Payload X)) (info : RequestMeta) : ℕ :=
  match self.use with
  | .keeps => 0
  | .upgrades => 0
  | .drains =>
    match collectYielded request.body.body.frames request.body.body.hint (info.bodyLimit.getD usizeMax) with
    | some (.ok collected) => collected.length
    | _ => 0
  | .replaces => dataLength request.body.body.frames

def takenBy (info : RequestMeta) : List (Extractor X J V) → Request (Payload X) → ℕ
  | [],_ => 0
  | extractor :: rest,request => extractor.taken request info + takenBy info rest (extractor.use.remainder request)

theorem collectYielded_ok {limit : ℕ} {frames : List (Except BoxError Frame)} {hint : SizeHint} {bytes : Bytes}
    (h : collectYielded frames hint limit = some (.ok bytes)) : bytes = (dataOf frames).flatten := by
  unfold collectYielded at h
  split at h
  · cases h
  · exact collectLoop_ok h rfl

theorem Extractor.taken_le (self : Extractor X J V) (request : Request (Payload X)) (info : RequestMeta) :
    self.taken request info ≤ dataLength request.body.body.frames := by
  unfold taken
  split
  · exact Nat.zero_le _
  · exact Nat.zero_le _
  · split
    next hcollect => exact (congrArg List.length (collectYielded_ok hcollect)).le
    · exact Nat.zero_le _
  · exact Nat.le_refl _

theorem takenBy_le (info : RequestMeta) (extractors : List (Extractor X J V)) (request : Request (Payload X)) :
    takenBy info extractors request ≤ dataLength request.body.body.frames := by
  induction extractors generalizing request with
  | nil => exact Nat.zero_le _
  | cons extractor rest ih =>
    have htaken := extractor.taken_le request info
    have hrest := ih (extractor.use.remainder request)
    unfold takenBy
    cases huse : extractor.use with
    | keeps | upgrades =>
      have hnone : extractor.taken request info = 0 := by simp [Extractor.taken,huse]
      rw [huse] at hrest
      rw [hnone,Nat.zero_add]
      exact hrest
    | drains =>
      rw [huse] at hrest
      have hempty : dataLength (Use.drains.remainder request).body.body.frames = 0 := rfl
      omega
    | replaces =>
      rw [huse] at hrest
      have hempty : dataLength (Use.replaces.remainder request).body.body.frames = 0 := rfl
      omega

theorem overlong_limited_iff {limit : ℕ} (hmax : limit ≤ isizeMax) (body : BoxBody) (params : RouteParams) :
    Overlong (LimitedBody.new body limit).boxedBody ⟨params,some limit⟩ ↔ Exceeds limit body.frames := by
  rcases collectYielded_ended limit body with ⟨hpanics,_⟩ | ⟨_,result,hresult,hended⟩
  · exact absurd (collectable_of_limit hmax) hpanics
  unfold Overlong
  simp only [Option.getD_some,hresult,Option.some.injEq]
  rw [exceeds_iff]
  cases hended with
  | past error hover =>
    rw [zero_add] at hover
    exact iff_of_true ⟨_,error,rfl,rfl⟩ hover
  | failed error hle _ =>
    rw [zero_add] at hle
    refine iff_of_false ?_ hle.not_gt
    rintro ⟨_,_,herror,hlimit⟩
    cases herror
    cases hlimit
  | whole hle _ =>
    rw [zero_add] at hle
    refine iff_of_false ?_ hle.not_gt
    rintro ⟨_,_,herror,_⟩
    cases herror

theorem dataLength_boxedBody_le {limit : ℕ} (hmax : limit ≤ isizeMax) (body : BoxBody) :
    dataLength (LimitedBody.new body limit).boxedBody.frames ≤ limit := by
  have hcount : limit < usizeMax := hmax.trans_lt isizeMax_lt_usizeMax
  have hall := @LimitedBody.dataLength_acceptAll_le limit 0 body.frames (.inl hcount) (Nat.zero_le limit)
  rw [zero_add] at hall
  have hmap (frames : List (Except LimitedBodyError Frame)) :
      dataLength (frames.map (Except.mapError BoxError.limitedBody)) = dataLength frames := by
    induction frames with
    | nil => rfl
    | cons frame frames ih =>
      rcases frame with error | data | trailers
      · simpa [Except.mapError] using ih
      · simpa [Except.mapError] using ih
      · simpa [Except.mapError] using ih
  rw [LimitedBody.boxedBody_new,hmap]
  exact hall

def Request.limitedTo (request : Request (Payload X)) (limit : ℕ) : Request (Payload X) :=
  { request with body := { request.body with body := (LimitedBody.new request.body.body limit).boxedBody } }

/-- What the extractors of the handler make of a request that got to an endpoint with a limit. -/
def Endpoint.extracted (self : Endpoint (Handler X S J V R)) (lib : QueryLibrary) (limit : ℕ)
    (request : Request (Payload X)) (state : Option S) (params : RouteParams) : Except Halt (List (Arg X S J V)) :=
  extractAll lib self.handler.extractors (request.limitedTo limit) state ⟨params,some limit⟩

theorem Endpoint.call_handler {self : Endpoint (Handler X S J V R)} {limit : ℕ} (hlimit : self.bodyLimit = some limit)
    (lib : QueryLibrary) (elapses : Handler X S J V R → Request (Payload X) → Option S → RequestMeta → ℕ → Bool)
    (panicked : Response R) (request : Request (Payload X)) (state : Option S) (params : RouteParams) :
    self.call (handlerRuntime lib elapses panicked) request state params =
        (self.handler.answer (self.extracted lib limit request state params)).getD panicked ∨
      self.call (handlerRuntime lib elapses panicked) request state params =
        responseWithBody StatusCode.requestTimeout "request handler deadline exceeded" := by
  obtain ⟨handler,bodyLimit,timeout⟩ := self
  cases hlimit
  rcases timeout with _ | duration
  · exact .inl rfl
  · simp only [call]
    split
    · exact .inr rfl
    · exact .inl rfl

section Limited
variable {limit : ℕ} (hmax : limit ≤ isizeMax) {request : Request (Payload X)} {state : Option S} {params : RouteParams}
include hmax

theorem Endpoint.extracted_answers {self : Endpoint (Handler X S J V R)} {lib : QueryLibrary} :
    ∃ response, self.handler.answer (self.extracted lib limit request state params) = some response := by
  rcases hextract : self.extracted lib limit request state params with halt | args
  · rcases halt with rejection | _
    · exact ⟨_,rfl⟩
    · obtain ⟨front,extractor,_,_,_,_,hvalue⟩ := extractAll_error lib state _ hextract
      cases extractor.value_stops hvalue with
      | panics _ hbody => exact absurd hbody.1 (Nat.not_lt.mpr hmax)
  · exact ⟨_,rfl⟩

/-- An extractor that is behind a limit has status 413 only for a body that exceeds it. -/
theorem exceeds_of_blames {extractor : Extractor X J V} {front : List (Extractor X J V)}
    (h : Blames extractor (seen front (request.limitedTo limit)) state ⟨params,some limit⟩ .payloadTooLarge) :
    Exceeds limit request.body.body.frames := by
  obtain ⟨_,hlong⟩ := h.length.mp rfl
  rcases seen_body front (request.limitedTo limit) with hempty | hsame
  · rw [hempty] at hlong
    have hcollected : collectYielded ([] : List (Except BoxError Frame)) (.withExact 0) limit = some (.ok []) :=
      if_neg (Nat.not_lt.mpr ((initialCapacity_le _ _).trans hmax))
    exact absurd hlong (not_overlong hcollected)
  · rw [hsame] at hlong
    exact (overlong_limited_iff hmax _ params).mp hlong

end Limited

theorem Extractor.not_overlong_of_value {self : Extractor X J V} {lib : QueryLibrary} {request : Request (Payload X)}
    {state : Option S} {info : RequestMeta} {arg : Arg X S J V} (hdrains : self.use = .drains)
    (h : self.value lib request state info = .ok arg) : ¬Overlong request.body.body info := by
  obtain ⟨out,hout,_⟩ := map_eq_ok.mp h
  cases self with
  | bytes | json | optionJson =>
    obtain ⟨bytes,hbytes,_⟩ := bind_eq_ok.mp hout
    exact not_overlong (halting_collectFor_ok hbytes)
  | _ => cases hdrains

/-- A body that is too long is found by the extractor that collects it, or a rejection before. -/
theorem extractAll_overlong (lib : QueryLibrary) {limit : ℕ} (hmax : limit ≤ isizeMax)
    {front : List (Extractor X J V)} {extractor : Extractor X J V}
    (hkeeps : ∀ looking ∈ front, looking.use = .keeps) (hdrains : extractor.use = .drains)
    (back : List (Extractor X J V)) {request : Request (Payload X)} (state : Option S) {params : RouteParams}
    (hlong : Overlong request.body.body ⟨params,some limit⟩) :
    ∃ rejection, extractAll lib (front ++ extractor :: back) request state ⟨params,some limit⟩ =
        .error (.rejected rejection) ∧
      (rejection.status = .payloadTooLarge ∨ ∃ looking ∈ front,
        looking.value lib request state ⟨params,some limit⟩ = .error (.rejected rejection)) := by
  rw [extractAll_append,seen_keeps hkeeps,extractAll_cons]
  rcases hfront : extractAll lib front request state ⟨params,some limit⟩ with halt | args
  · obtain ⟨before,looking,after,_,hsplit,_,hvalue⟩ := extractAll_error lib state _ hfront
    subst hsplit
    rw [seen_keeps fun e he => hkeeps e (List.mem_append_left _ he)] at hvalue
    have hmem : looking ∈ before ++ looking :: after := List.mem_append_right _ List.mem_cons_self
    cases looking.value_stops hvalue with
    | rejects _ => exact ⟨_,rfl,.inr ⟨looking,hmem,hvalue⟩⟩
    | panics hdrains' _ => cases hdrains'.symm.trans (hkeeps looking hmem)
  · rcases hvalue : extractor.value lib request state ⟨params,some limit⟩ with halt | arg
    · cases extractor.value_stops hvalue with
      | rejects hblames => exact ⟨_,rfl,.inl (hblames.length.mpr ⟨hdrains,hlong⟩)⟩
      | panics _ hbody => exact absurd hbody.1 (Nat.not_lt.mpr hmax)
    · exact absurd hlong (extractor.not_overlong_of_value hdrains hvalue)

/-- A route of two bytes at most whose handler looks at the trace and takes the bytes. -/
def twoByteEndpoint : Endpoint (Handler traceTypes Unit Unit Unit Unit) :=
  ⟨⟨[trace,.bytes],fun _ => notFound⟩,some 2,none⟩

end H12Tiny.Web
