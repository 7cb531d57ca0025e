import H12Tiny.Util.Collect
import H12Tiny.Web.Router
import Mathlib.Algebra.GroupWithZero.Nat

/-! # Limits on request bodies

`LimitedBody` and the extractor of `Bytes`, which collects a body with the limit of its
route. A body is the list of what polling it yields, frames and errors in any order, with
its size hint before the first poll; a boxed error is one of the error types that the code
downcasts to, or another one with a message. Where the collection panics there is no answer.
-/
namespace H12Tiny.Web
open Sync (Bytes)
open Util

structure BodyLimitExceeded where
  limit : ℕ
  received : ℕ

def BodyLimitExceeded.toText (self : BodyLimitExceeded) : String :=
  "request body exceeded limit of " ++ toString self.limit ++ " bytes (received at least " ++
    toString self.received ++ " bytes)"

structure LimitedBodyError where
  limit : Option BodyLimitExceeded
  message : String

inductive BoxError
  | limitedBody (error : LimitedBodyError)
  | bodyLimitExceeded (error : BodyLimitExceeded)
  | other (message : String)

def BoxError.toText : BoxError → String
  | limitedBody error => error.message
  | bodyLimitExceeded error => error.toText
  | other message => message

namespace LimitedBodyError

def inner (error : BoxError) : LimitedBodyError := ⟨none,error.toText⟩

def ofLimit (error : BodyLimitExceeded) : LimitedBodyError := ⟨some error,error.toText⟩

end LimitedBodyError

structure BoxBody where
  frames : List (Except BoxError Frame)
  hint : SizeHint

def emptyBody : BoxBody := ⟨[],.withExact 0⟩

structure LimitedBody where
  inner : BoxBody
  limit : ℕ
  received : ℕ

namespace LimitedBody

def new (inner : BoxBody) (limit : ℕ) : LimitedBody := ⟨inner,limit,0⟩

/-- What becomes of one frame of the inner body, and the bytes counted after it. -/
def accept (limit received : ℕ) : Except BoxError Frame → Except LimitedBodyError Frame × ℕ
  | .ok (.data data) =>
    let next := saturatingAdd received data.length
    if limit < next then (.error (.ofLimit ⟨limit,next⟩),next) else (.ok (.data data),next)
  | .ok (.trailers trailers) => (.ok (.trailers trailers),received)
  | .error error => (.error (.inner error),received)

def pollFrame (self : LimitedBody) : Option (Except LimitedBodyError Frame) × LimitedBody :=
  match self.inner.frames with
  | [] => (none,self)
  | frame :: frames =>
    let accepted := accept self.limit self.received frame
    (some accepted.1,⟨{ self.inner with frames },self.limit,accepted.2⟩)

/-- The bounds of the inner body, each cut to the limit. -/
def sizeHint (self : LimitedBody) : SizeHint where
  lower := if self.limit < self.inner.hint.lower then self.limit else self.inner.hint.lower
  upper := self.inner.hint.upper.map fun upper => min upper self.limit
  ordered := by
    intro most hmost
    obtain ⟨upper,hupper,rfl⟩ := Option.map_eq_some_iff.mp hmost
    have hordered := self.inner.hint.ordered upper hupper
    split <;> omega

def pollTimes (self : LimitedBody) : ℕ → List (Except LimitedBodyError Frame)
  | 0 => []
  | n + 1 => (self.pollFrame.1).toList ++ self.pollFrame.2.pollTimes n

/-- `boxed_body`: everything that polling yields, with the errors erased. -/
def boxedBody (self : LimitedBody) : BoxBody where
  frames := (self.pollTimes self.inner.frames.length).map (Except.mapError BoxError.limitedBody)
  hint := self.sizeHint

end LimitedBody

def bodyLimitFromCollection : BodyCollectionError BoxError → Option BodyLimitExceeded
  | .body (.limitedBody error) => error.limit
  | .body (.bodyLimitExceeded error) => some error
  | .body (.other _) => none
  | .limitExceeded error => some ⟨error.limit,error.received⟩

structure Rejection where
  status : StatusCode
  message : String

def rejectCollection (error : BodyCollectionError BoxError) : Rejection :=
  match bodyLimitFromCollection error with
  | some error => ⟨.payloadTooLarge,error.toText⟩
  | none => ⟨.badRequest,"failed to read request body"⟩

def fromRequest (body : BoxBody) (info : RequestMeta) : Option (Except Rejection Bytes) :=
  (collectYielded body.frames body.hint (info.bodyLimit.getD usizeMax)).map (Except.mapError rejectCollection)

/-- A runtime whose handlers take the bytes of the body. What stands for a handler that panics
is left open. -/
def bytesRuntime {H S R : Type} (respond : H → Option (Except Rejection Bytes) → Option S → RequestMeta → Response R)
    (elapses : H → Request BoxBody → Option S → RequestMeta → ℕ → Bool) : Runtime H S BoxBody R where
  handle handler request state info := respond handler (fromRequest request.body info) state info
  elapses := elapses
  limited body limit := (LimitedBody.new body limit).boxedBody

def Endpoint.extractBytes {H : Type} (self : Endpoint H) (body : BoxBody) (params : RouteParams) :
    Option (Except Rejection Bytes) :=
  fromRequest (self.bodyLimit.elim body fun limit => (LimitedBody.new body limit).boxedBody)
    ⟨params,self.bodyLimit⟩

theorem Endpoint.call_extractBytes {H S R : Type}
    (respond : H → Option (Except Rejection Bytes) → Option S → RequestMeta → Response R)
    (elapses : H → Request BoxBody → Option S → RequestMeta → ℕ → Bool) (self : Endpoint H)
    (request : Request BoxBody) (state : Option S) (params : RouteParams) (h : self.timeout = none) :
    self.call (bytesRuntime respond elapses) request state params =
      respond self.handler (self.extractBytes request.body params) state ⟨params,self.bodyLimit⟩ := by
  rcases self with ⟨handler,limit,timeout⟩
  cases h
  cases limit <;> rfl

section Counting
variable {limit received : ℕ}

namespace LimitedBody

theorem accept_over {data : Bytes} (h : limit < saturatingAdd received data.length) :
    accept limit received (.ok (.data data)) =
      (.error (.ofLimit ⟨limit,saturatingAdd received data.length⟩),saturatingAdd received data.length) :=
  if_pos h

theorem accept_within {data : Bytes} (h : saturatingAdd received data.length ≤ limit) :
    accept limit received (.ok (.data data)) = (.ok (.data data),saturatingAdd received data.length) :=
  if_neg (not_lt.mpr h)

def acceptAll (limit : ℕ) : ℕ → List (Except BoxError Frame) → List (Except LimitedBodyError Frame)
  | _, [] => []
  | received, frame :: body =>
    (accept limit received frame).1 :: acceptAll limit (accept limit received frame).2 body

theorem pollTimes_eq (n : ℕ) (frames : List (Except BoxError Frame)) (hint : SizeHint) (limit received : ℕ) :
    (⟨⟨frames,hint⟩,limit,received⟩ : LimitedBody).pollTimes n = acceptAll limit received (frames.take n) := by
  induction n generalizing frames received with
  | zero => rfl
  | succ n ih =>
    cases frames with
    | nil => simpa [pollTimes,pollFrame,acceptAll] using ih [] received
    | cons frame frames =>
      simp only [pollTimes,pollFrame,List.take_succ_cons,acceptAll,Option.toList_some,List.singleton_append]
      rw [ih]

theorem boxedBody_new (body : BoxBody) (limit : ℕ) :
    (new body limit).boxedBody.frames =
      (acceptAll limit 0 body.frames).map (Except.mapError BoxError.limitedBody) := by
  unfold boxedBody new
  rw [pollTimes_eq,List.take_length]

/-- Once the count is past the limit it stays there, and no data is let through. -/
theorem dataLength_acceptAll_over (body : List (Except BoxError Frame)) (hover : limit < received)
    (hmax : received ≤ usizeMax) :
    dataLength (acceptAll limit received body) = 0 := by
  induction body generalizing received with
  | nil => rfl
  | cons frame body ih =>
    rcases frame with error | data | trailers
    · exact ih hover hmax
    · have hnext : limit < saturatingAdd received data.length := by unfold saturatingAdd; omega
      have hrest := ih hnext (min_le_right _ _)
      simpa [acceptAll,accept_over hnext] using hrest
    · exact ih hover hmax

theorem dataLength_acceptAll_le (body : List (Except BoxError Frame))
    (hcount : limit < usizeMax ∨ received + dataLength body ≤ usizeMax) (hle : received ≤ limit) :
    received + dataLength (acceptAll limit received body) ≤ limit := by
  induction body generalizing received with
  | nil => simpa [acceptAll] using hle
  | cons frame body ih =>
    rcases frame with error | data | trailers
    · exact ih hcount hle
    · rw [dataLength_data] at hcount
      have hfirst : limit < usizeMax ∨ received + data.length ≤ usizeMax := by omega
      rcases lt_or_ge limit (saturatingAdd received data.length) with hnext | hnext
      · have hrest := dataLength_acceptAll_over body hnext (min_le_right _ _)
        simpa [acceptAll,accept_over hnext,hrest] using hle
      · have hsum := saturatingAdd_of_le hfirst hnext
        have hrest := @ih (received + data.length) (by omega) (by omega)
        simp only [acceptAll,accept_within hnext,dataLength_data,hsum]
        omega
    · exact ih hcount hle

/-- With the largest limit the count saturates without passing it. -/
theorem dataLength_acceptAll_usizeMax (body : List (Except BoxError Frame)) (received : ℕ) :
    dataLength (acceptAll usizeMax received body) = dataLength body := by
  induction body generalizing received with
  | nil => rfl
  | cons frame body ih =>
    rcases frame with error | data | trailers
    · exact ih received
    · have hnext : saturatingAdd received data.length ≤ usizeMax := min_le_right _ _
      simp [acceptAll,accept_within hnext,ih]
    · exact ih received

end LimitedBody

/-- The loop over what a limited body with the same count lets through. -/
def collectLimited (limit received : ℕ) (output : Bytes) (body : List (Except BoxError Frame)) :
    Option (Except (BodyCollectionError BoxError) Bytes) :=
  collectLoop limit output received
    ((LimitedBody.acceptAll limit received body).map (Except.mapError BoxError.limitedBody))

theorem collectLimited_over {data : Bytes} (body : List (Except BoxError Frame)) (output : Bytes)
    (h : limit < saturatingAdd received data.length) :
    collectLimited limit received output (.ok (.data data) :: body) =
      some (.error (.body (.limitedBody (.ofLimit ⟨limit,saturatingAdd received data.length⟩)))) := by
  unfold collectLimited
  rw [LimitedBody.acceptAll,LimitedBody.accept_over h]
  rfl

theorem collectLimited_within {data : Bytes} (body : List (Except BoxError Frame)) {output : Bytes}
    (h : saturatingAdd received data.length ≤ limit) (hfits : output.length + data.length ≤ isizeMax) :
    collectLimited limit received output (.ok (.data data) :: body) =
      collectLimited limit (saturatingAdd received data.length) (output ++ data) body := by
  unfold collectLimited
  rw [LimitedBody.acceptAll,LimitedBody.accept_within h]
  simp only [List.map_cons,Except.mapError,collectLoop,collectFrame_within h hfits]

theorem collectLimited_outgrown {data : Bytes} (body : List (Except BoxError Frame)) {output : Bytes}
    (h : saturatingAdd received data.length ≤ limit) (hgrows : isizeMax < output.length + data.length) :
    collectLimited limit received output (.ok (.data data) :: body) = none := by
  unfold collectLimited
  rw [LimitedBody.acceptAll,LimitedBody.accept_within h]
  simp only [List.map_cons,Except.mapError,collectLoop,collectFrame_grows h hgrows]

/-- How the collection of a body ends that has got to a count: at a frame past the limit, at
an error of the body, or with all its data. -/
inductive Ended (limit received : ℕ) (output : Bytes) (body : List (Except BoxError Frame)) :
    Except (BodyCollectionError BoxError) Bytes → Prop
  | past (error : BodyLimitExceeded) (hover : limit < received + dataLength (beforeError body)) :
      Ended limit received output body (.error (.body (.limitedBody (.ofLimit error))))
  | failed (error : BoxError) (hle : received + dataLength (beforeError body) ≤ limit)
      (herror : ∃ frame ∈ body, frame.isOk = false) :
      Ended limit received output body (.error (.body (.limitedBody (.inner error))))
  | whole (hle : received + dataLength (beforeError body) ≤ limit)
      (hok : ∀ frame ∈ body, frame.isOk = true) :
      Ended limit received output body (.ok (output ++ (dataOf body).flatten))

theorem Ended.data {output data : Bytes} {body : List (Except BoxError Frame)}
    {result : Except (BodyCollectionError BoxError) Bytes}
    (h : Ended limit (received + data.length) (output ++ data) body result) :
    Ended limit received output (.ok (.data data) :: body) result := by
  have hlength : received + dataLength (beforeError (.ok (.data data) :: body)) =
      received + data.length + dataLength (beforeError body) := by
    rw [beforeError_ok,dataLength_data,add_assoc]
  cases h with
  | past error hover => exact .past error (hlength ▸ hover)
  | failed error hle herror =>
    rcases herror with ⟨frame,hmem,hframe⟩
    exact .failed error (hlength ▸ hle) ⟨frame,List.mem_cons_of_mem _ hmem,hframe⟩
  | whole hle hok =>
    have hall : ∀ frame ∈ (Except.ok (.data data) : Except BoxError Frame) :: body, frame.isOk = true :=
      List.forall_mem_cons.mpr ⟨rfl,hok⟩
    have hwhole := @Ended.whole limit received output _ (hlength ▸ hle) hall
    simpa [dataOf] using hwhole

theorem Ended.trailers {output : Bytes} {body : List (Except BoxError Frame)}
    {result : Except (BodyCollectionError BoxError) Bytes}
    (trailers : HeaderMap String Bytes) (h : Ended limit received output body result) :
    Ended limit received output (.ok (.trailers trailers) :: body) result := by
  cases h with
  | past error hover => exact .past error hover
  | failed error hle herror =>
    rcases herror with ⟨frame,hmem,hframe⟩
    exact .failed error hle ⟨frame,List.mem_cons_of_mem _ hmem,hframe⟩
  | whole hle hok => exact .whole hle (List.forall_mem_cons.mpr ⟨rfl,hok⟩)

/-- Some data frames from the first one on, all before any error, are longer together than a
buffer can be, and the limit does not stop them. -/
def Outgrows (limit received : ℕ) (frames : List (Except BoxError Frame)) : Prop :=
  ∃ data, data <+: dataOf (beforeError frames) ∧ isizeMax < received + data.flatten.length ∧
    min (received + data.flatten.length) usizeMax ≤ limit

section Outgrown
variable {data : Bytes} {frames : List (Except BoxError Frame)}

theorem Outgrows.limit_gt (h : Outgrows limit received frames) : isizeMax < limit := by
  obtain ⟨data,_,hlong,hlimit⟩ := h
  have hmax := isizeMax_lt_usizeMax
  omega

theorem not_outgrows (h : received ≤ isizeMax) (hquiet : dataOf (beforeError frames) = []) :
    ¬Outgrows limit received frames := by
  rintro ⟨data,hdata,hlong,_⟩
  rw [hquiet,List.prefix_nil] at hdata
  subst hdata
  exact absurd hlong (Nat.not_lt.mpr h)

theorem outgrows_data (h : received + data.length ≤ isizeMax) :
    Outgrows limit received (.ok (.data data) :: frames) ↔ Outgrows limit (received + data.length) frames := by
  constructor
  · rintro ⟨_ | ⟨first,rest⟩,hdata,hlong,hlimit⟩
    · simp only [List.flatten_nil,List.length_nil] at hlong
      omega
    · obtain ⟨rfl,hrest⟩ := List.cons_prefix_cons.mp hdata
      rw [List.flatten_cons,List.length_append,← add_assoc] at hlong hlimit
      exact ⟨rest,hrest,hlong,hlimit⟩
  · rintro ⟨rest,hrest,hlong,hlimit⟩
    refine ⟨data :: rest,List.cons_prefix_cons.mpr ⟨rfl,hrest⟩,?_,?_⟩
    · rwa [List.flatten_cons,List.length_append,← add_assoc]
    · rwa [List.flatten_cons,List.length_append,← add_assoc]

theorem not_outgrows_past (h : received ≤ isizeMax) (hover : limit < saturatingAdd received data.length) :
    ¬Outgrows limit received (.ok (.data data) :: frames) := by
  rintro ⟨_ | ⟨first,rest⟩,hdata,hlong,hlimit⟩
  · simp only [List.flatten_nil,List.length_nil] at hlong
    omega
  · obtain ⟨rfl,_⟩ := List.cons_prefix_cons.mp hdata
    rw [List.flatten_cons,List.length_append] at hlimit
    unfold saturatingAdd at hover
    omega

end Outgrown

/-- Behind a limited body the collection never meets its own limit: its count runs along
with that of the body. It panics exactly if the data outgrows every buffer. -/
theorem collectLimited_ended (body : List (Except BoxError Frame)) (output : Bytes) (hle : received ≤ limit)
    (hheld : received ≤ isizeMax) (hcount : received = output.length) :
    (Outgrows limit received body ∧ collectLimited limit received output body = none) ∨
      ¬Outgrows limit received body ∧
        ∃ result, collectLimited limit received output body = some result ∧
          Ended limit received output body result := by
  have hmax := isizeMax_lt_usizeMax
  induction body generalizing received output with
  | nil =>
    have hwhole := @Ended.whole limit received output [] hle (List.forall_mem_nil _)
    exact .inr ⟨not_outgrows hheld rfl,_,rfl,by simpa [dataOf] using hwhole⟩
  | cons frame body ih =>
    rcases frame with error | data | trailers
    · exact .inr ⟨not_outgrows hheld rfl,_,rfl,.failed error hle ⟨_,List.mem_cons_self,rfl⟩⟩
    · rcases lt_or_ge limit (saturatingAdd received data.length) with hnext | hnext
      · refine .inr ⟨not_outgrows_past hheld hnext,_,collectLimited_over body output hnext,.past _ ?_⟩
        rw [beforeError_ok,dataLength_data]
        unfold saturatingAdd at hnext
        omega
      rcases lt_or_ge isizeMax (received + data.length) with hgrows | hfits
      · refine .inl ⟨⟨[data],?_,?_,?_⟩,collectLimited_outgrown body hnext (hcount ▸ hgrows)⟩
        · exact List.cons_prefix_cons.mpr ⟨rfl,List.nil_prefix⟩
        · simpa using hgrows
        · simpa [saturatingAdd] using hnext
      · have hsum : saturatingAdd received data.length = received + data.length := min_eq_left (by omega)
        rw [collectLimited_within body hnext (hcount ▸ hfits),outgrows_data hfits,hsum]
        have hcount' : received + data.length = (output ++ data).length := by rw [List.length_append,hcount]
        rcases ih (output ++ data) (hsum ▸ hnext) hfits hcount' with hout | ⟨hbounded,result,hresult,hended⟩
        · exact .inl hout
        · exact .inr ⟨hbounded,result,hresult,hended.data⟩
    · rcases ih output hle hheld hcount with hout | ⟨hbounded,result,hresult,hended⟩
      · exact .inl hout
      · exact .inr ⟨hbounded,result,hresult,hended.trailers trailers⟩

end Counting

/-- Neither what is reserved for a body nor its data within the limit is longer than a
buffer can be. -/
def Collectable (limit : ℕ) (body : BoxBody) : Prop :=
  (∀ upper ∈ body.hint.upper, min upper limit ≤ isizeMax) ∧ ¬Outgrows limit 0 body.frames

section Collected
variable {limit : ℕ} {body : BoxBody}

theorem collectable_of_limit (h : limit ≤ isizeMax) : Collectable limit body :=
  ⟨fun _ _ => (min_le_right _ _).trans h,fun hout => hout.limit_gt.not_ge h⟩

theorem initialCapacity_boxedBody :
    initialCapacity (LimitedBody.new body limit).boxedBody.hint limit = initialCapacity body.hint limit := by
  simp only [initialCapacity,LimitedBody.boxedBody,LimitedBody.sizeHint,LimitedBody.new]
  cases body.hint.upper with
  | none => rfl
  | some upper => exact min_eq_left (min_le_right upper limit)

theorem initialCapacity_le_iff :
    initialCapacity body.hint limit ≤ isizeMax ↔ ∀ upper ∈ body.hint.upper, min upper limit ≤ isizeMax := by
  unfold initialCapacity
  cases body.hint.upper with
  | none => simp
  | some upper => simp

/-- The collection of a limited body panics exactly if a buffer would have to be too long. -/
theorem collectYielded_ended (limit : ℕ) (body : BoxBody) :
    (¬Collectable limit body ∧ collectYielded (LimitedBody.new body limit).boxedBody.frames
        (LimitedBody.new body limit).boxedBody.hint limit = none) ∨
      Collectable limit body ∧
        ∃ result, collectYielded (LimitedBody.new body limit).boxedBody.frames
            (LimitedBody.new body limit).boxedBody.hint limit = some result ∧
          Ended limit 0 [] body.frames result := by
  rw [collectYielded,initialCapacity_boxedBody]
  rcases lt_or_ge isizeMax (initialCapacity body.hint limit) with hcapacity | hcapacity
  · exact .inl ⟨fun h => hcapacity.not_ge (initialCapacity_le_iff.mpr h.1),if_pos hcapacity⟩
  · rw [if_neg hcapacity.not_gt,LimitedBody.boxedBody_new]
    rcases collectLimited_ended body.frames [] (Nat.zero_le limit) (Nat.zero_le isizeMax) rfl with
      ⟨hgrows,hnone⟩ | ⟨hbounded,hresult⟩
    · exact .inl ⟨fun h => h.2 hgrows,hnone⟩
    · exact .inr ⟨⟨initialCapacity_le_iff.mp hcapacity,hbounded⟩,hresult⟩

end Collected

theorem Endpoint.extractBytes_ended {H : Type} {self : Endpoint H} {limit : ℕ} (hself : self.bodyLimit = some limit)
    (body : BoxBody) (params : RouteParams) :
    (¬Collectable limit body ∧ self.extractBytes body params = none) ∨
      Collectable limit body ∧ ∃ result, Ended limit 0 [] body.frames result ∧
        self.extractBytes body params = some (result.mapError rejectCollection) := by
  unfold extractBytes fromRequest
  rw [hself,Option.elim_some,Option.getD_some]
  rcases collectYielded_ended limit body with ⟨hpanics,hnone⟩ | ⟨hfits,result,hresult,hended⟩
  · exact .inl ⟨hpanics,by rw [hnone,Option.map_none]⟩
  · exact .inr ⟨hfits,result,hended,by rw [hresult,Option.map_some]⟩

/-- The whole body is data within the limit, and trailers. -/
def Within (limit : ℕ) (frames : List (Except BoxError Frame)) : Prop :=
  (∀ frame ∈ frames, frame.isOk = true) ∧ dataLength frames ≤ limit

/-- Some data frames from the first one on, all before any error, are too long together. -/
def Exceeds (limit : ℕ) (frames : List (Except BoxError Frame)) : Prop :=
  ∃ data, data <+: dataOf (beforeError frames) ∧ limit < data.flatten.length

section Answers
variable {limit : ℕ} {frames : List (Except BoxError Frame)}

theorem exceeds_iff : Exceeds limit frames ↔ limit < dataLength (beforeError frames) := by
  constructor
  · rintro ⟨data,⟨rest,hrest⟩,hover⟩
    unfold dataLength
    rw [← hrest,List.flatten_append,List.length_append]
    omega
  · intro hover
    exact ⟨_,List.prefix_rfl,hover⟩

theorem within_iff : Within limit frames ↔
    (∀ frame ∈ frames, frame.isOk = true) ∧ dataLength (beforeError frames) ≤ limit := by
  refine and_congr_right fun hok => ?_
  have hwhole : beforeError frames = frames := List.takeWhile_eq_self_iff.mpr hok
  rw [hwhole]

theorem rejectCollection_ofLimit (error : BodyLimitExceeded) :
    (rejectCollection (.body (.limitedBody (.ofLimit error)))).status = .payloadTooLarge := rfl

theorem rejectCollection_inner (error : BoxError) :
    (rejectCollection (.body (.limitedBody (.inner error)))).status = .badRequest := rfl

theorem Ended.answer {result : Except (BodyCollectionError BoxError) Bytes} (h : Ended limit 0 [] frames result) :
    (∀ bytes, result.mapError rejectCollection = .ok bytes ↔
      Within limit frames ∧ bytes = (dataOf frames).flatten) ∧
      ((∃ rejection, result.mapError rejectCollection = .error rejection ∧ rejection.status = .payloadTooLarge) ↔
        Exceeds limit frames) ∧
      ((∃ rejection, result.mapError rejectCollection = .error rejection ∧ rejection.status = .badRequest) ↔
        ¬Within limit frames ∧ ¬Exceeds limit frames) := by
  have hstatus : StatusCode.badRequest ≠ StatusCode.payloadTooLarge := by decide
  cases h with
  | past error hover =>
    rw [zero_add] at hover
    have hexceeds := exceeds_iff.mpr hover
    have hwithin : ¬Within limit frames := fun h => (within_iff.mp h).2.not_gt hover
    simp [Except.mapError,rejectCollection_ofLimit,hstatus.symm,hexceeds,hwithin]
  | failed error hle herror =>
    rw [zero_add] at hle
    have hexceeds : ¬Exceeds limit frames := fun h => (exceeds_iff.mp h).not_ge hle
    have hwithin : ¬Within limit frames := by
      rcases herror with ⟨frame,hmem,hframe⟩
      exact fun h => Bool.false_ne_true (hframe.symm.trans (h.1 frame hmem))
    simp [Except.mapError,rejectCollection_inner,hstatus,hexceeds,hwithin]
  | whole hle hok =>
    rw [zero_add] at hle
    have hexceeds : ¬Exceeds limit frames := fun h => (exceeds_iff.mp h).not_ge hle
    have hwithin := within_iff.mpr ⟨hok,hle⟩
    simp [Except.mapError,hexceeds,hwithin,@eq_comm _ (dataOf frames).flatten]

end Answers

/-- Behind a route with a limit, the extractor of `Bytes` yields exactly the data of a body
within the limit, answers 413 to one that exceeds it before any error and 400 to the others,
unless a buffer would have to be longer than one can be, and then it panics; and polling the
limited body directly never yields more data than the limit. The largest limit does not
count further than it reaches. -/
theorem Endpoint.bodyLimit_exact {H : Type} {self : Endpoint H} {limit : ℕ} (hself : self.bodyLimit = some limit)
    (body : BoxBody) (params : RouteParams) :
    (self.extractBytes body params = none ↔ ¬Collectable limit body) ∧
    (Collectable limit body →
      (∀ bytes, self.extractBytes body params = some (.ok bytes) ↔
        Within limit body.frames ∧ bytes = (dataOf body.frames).flatten) ∧
      ((∃ rejection, self.extractBytes body params = some (.error rejection) ∧
          rejection.status = .payloadTooLarge) ↔ Exceeds limit body.frames) ∧
      ((∃ rejection, self.extractBytes body params = some (.error rejection) ∧
          rejection.status = .badRequest) ↔ ¬Within limit body.frames ∧ ¬Exceeds limit body.frames)) ∧
    (limit < usizeMax ∨ dataLength body.frames ≤ usizeMax →
      ∀ n, dataLength ((LimitedBody.new body limit).pollTimes n) ≤ limit) := by
  refine ⟨?_,?_,?_⟩
  · rcases Endpoint.extractBytes_ended hself body params with ⟨hpanics,hnone⟩ | ⟨hfits,result,_,hextract⟩
    · exact iff_of_true hnone hpanics
    · exact iff_of_false (by rw [hextract]; exact Option.some_ne_none _) (not_not_intro hfits)
  · intro hfits
    rcases Endpoint.extractBytes_ended hself body params with ⟨hpanics,_⟩ | ⟨_,result,hended,hextract⟩
    · exact absurd hfits hpanics
    · simp only [hextract,Option.some.injEq]
      exact hended.answer
  · intro hcount n
    have htake := dataLength_take_le body.frames n
    have hpolled := @LimitedBody.dataLength_acceptAll_le limit 0 (body.frames.take n) (by omega) (Nat.zero_le limit)
    rwa [zero_add,← LimitedBody.pollTimes_eq n body.frames body.hint] at hpolled

/-- Five bytes in three frames, of which the length was announced. -/
def fiveBytes : BoxBody := ⟨[.ok (.data [1,2,3]),.ok (.data []),.ok (.data [4,5])],.withExact 5⟩

theorem Endpoint.bodyLimit_exact_reached :
    (⟨(),some 5,none⟩ : Endpoint Unit).extractBytes fiveBytes [] = some (.ok [1,2,3,4,5]) ∧
    ∃ rejection, (⟨(),some 4,none⟩ : Endpoint Unit).extractBytes fiveBytes [] = some (.error rejection) ∧
      rejection.status = .payloadTooLarge := by
  have hwithin : Collectable 5 fiveBytes := collectable_of_limit (by decide)
  have hexceeds : Collectable 4 fiveBytes := collectable_of_limit (by decide)
  constructor
  · refine (((Endpoint.bodyLimit_exact rfl fiveBytes []).2.1 hwithin).1 _).mpr ⟨⟨?_,by decide⟩,rfl⟩
    exact List.all_eq_true.mp rfl
  · exact ((Endpoint.bodyLimit_exact rfl fiveBytes []).2.1 hexceeds).2.1.mpr (exceeds_iff.mpr (by decide))

theorem dataLength_replicate (n : ℕ) (data : Bytes) :
    dataLength (List.replicate n (.ok (.data data) : Except BoxError Frame)) = n * data.length := by
  induction n with
  | zero => simp
  | succ n ih => rw [List.replicate_succ,dataLength_data,ih,Nat.succ_mul,Nat.add_comm]

/-- A body that was announced with 2^63 bytes and breaks off after the first. -/
def brokenBody : BoxBody :=
  ⟨[.ok (.data [1]),.error (.other "connection reset")],.withExact 9223372036854775808⟩

/-- With a limit of 2^63 the length that a body announces is reserved before the first poll, which
is a panic where the answer should be 400. With the largest limit the count stays at it, and
more frames of 64 KiB than a `usize` can count the bytes of are all let through. -/
theorem Endpoint.bodyLimit_missed :
    ((⟨(),some 9223372036854775808,none⟩ : Endpoint Unit).extractBytes brokenBody [] = none ∧
      ¬Within 9223372036854775808 brokenBody.frames ∧ ¬Exceeds 9223372036854775808 brokenBody.frames) ∧
    ∃ n, usizeMax < dataLength ((LimitedBody.new
      ⟨List.replicate n (.ok (.data (List.replicate 65536 0))),.default⟩ usizeMax).pollTimes n) := by
  refine ⟨⟨?_,?_,?_⟩,Sync.u64Values / 65536,?_⟩
  · have hlong : isizeMax < 9223372036854775808 := by decide
    have hreserved : collectYielded (LimitedBody.new brokenBody 9223372036854775808).boxedBody.frames
        (LimitedBody.new brokenBody 9223372036854775808).boxedBody.hint 9223372036854775808 = none :=
      collectYielded_of_hint _ rfl hlong hlong
    exact congrArg (Option.map (Except.mapError rejectCollection)) hreserved
  · intro h
    have hok := h.1 (.error (.other "connection reset")) (List.mem_cons_of_mem _ List.mem_cons_self)
    cases hok
  · intro h
    exact absurd (exceeds_iff.mp h) (by decide)
  · rw [LimitedBody.new,LimitedBody.pollTimes_eq,LimitedBody.dataLength_acceptAll_usizeMax,
      List.take_of_length_le (by rw [List.length_replicate]),dataLength_replicate,List.length_replicate]
    decide

end H12Tiny.Web
