import H12Tiny.Foundation.HeaderMap
import H12Tiny.Sync.Bytes

/-! # Bounded collection

`collect_bytes_limited` of the util crate, on everything that polling a body yields. The
size hint of the body chooses the capacity that is reserved before the first frame. No
buffer is larger than the largest `isize`: to reserve more, or to grow past it, is a panic
and has no result here. That the memory for a smaller buffer is there is assumed.
-/
namespace H12Tiny.Util
open Sync (Bytes)

/-- The largest values of `usize` and of `isize`. -/
def usizeMax : ℕ := Sync.u64Values - 1
def isizeMax : ℕ := Sync.u64Values / 2 - 1

def saturatingAdd (a b : ℕ) : ℕ := min (a + b) usizeMax

inductive Frame
  | data (data : Bytes)
  | trailers (trailers : HeaderMap String Bytes)

/-- The `SizeHint` of the `http-body` crate, whose setters assert the order. -/
structure SizeHint where
  lower : ℕ
  upper : Option ℕ
  ordered : ∀ most ∈ upper, lower ≤ most

namespace SizeHint

def default : SizeHint := ⟨0,none,nofun⟩

def withExact (length : ℕ) : SizeHint := ⟨length,some length,fun _ h => (Option.some.inj h).le⟩

end SizeHint

structure BodyLimitError where
  limit : ℕ
  received : ℕ

inductive BodyCollectionError (E : Type)
  | body (error : E)
  | limitExceeded (error : BodyLimitError)

section Collect
variable {E : Type}

/-- What is reserved in front. Every `u64` is a `usize` here. -/
def initialCapacity (hint : SizeHint) (limit : ℕ) : ℕ := hint.upper.elim 0 fun upper => min upper limit

/-- One iteration of the loop: it returns, or goes on with its locals `output` and `received`. -/
def collectFrame (limit : ℕ) (output : Bytes) (received : ℕ) :
    Except E Frame → Option (Except (BodyCollectionError E) Bytes) ⊕ (Bytes × ℕ)
  | .error error => .inl (some (.error (.body error)))
  | .ok (.trailers _) => .inr (output,received)
  | .ok (.data data) =>
    let next := saturatingAdd received data.length
    if limit < next then .inl (some (.error (.limitExceeded ⟨limit,next⟩)))
    else if isizeMax < output.length + data.length then .inl none
    else .inr (output ++ data,next)

def collectLoop (limit : ℕ) (output : Bytes) (received : ℕ) :
    List (Except E Frame) → Option (Except (BodyCollectionError E) Bytes)
  | [] => some (.ok output)
  | frame :: frames =>
    match collectFrame limit output received frame with
    | .inl result => result
    | .inr (output,received) => collectLoop limit output received frames

/-- `collect_bytes_limited` of a body that yields these frames and then ends. -/
def collectYielded (frames : List (Except E Frame)) (hint : SizeHint) (limit : ℕ) :
    Option (Except (BodyCollectionError E) Bytes) :=
  if isizeMax < initialCapacity hint limit then none else collectLoop limit [] 0 frames

def dataOf : List (Except E Frame) → List Bytes
  | [] => []
  | .ok (.data data) :: frames => data :: dataOf frames
  | .ok (.trailers _) :: frames => dataOf frames
  | .error _ :: frames => dataOf frames

def dataLength (frames : List (Except E Frame)) : ℕ := (dataOf frames).flatten.length

def beforeError (frames : List (Except E Frame)) : List (Except E Frame) := frames.takeWhile Except.isOk

section Counting
variable {limit received : ℕ}

@[simp] theorem dataLength_nil : dataLength ([] : List (Except E Frame)) = 0 := rfl

@[simp] theorem dataLength_data (data : Bytes) (frames : List (Except E Frame)) :
    dataLength (.ok (.data data) :: frames) = data.length + dataLength frames := by
  simp [dataLength,dataOf]

@[simp] theorem dataLength_trailers (trailers : HeaderMap String Bytes) (frames : List (Except E Frame)) :
    dataLength (.ok (.trailers trailers) :: frames) = dataLength frames := rfl

@[simp] theorem dataLength_error (error : E) (frames : List (Except E Frame)) :
    dataLength (.error error :: frames) = dataLength frames := rfl

theorem dataLength_take_le (frames : List (Except E Frame)) (n : ℕ) :
    dataLength (frames.take n) ≤ dataLength frames := by
  induction frames generalizing n with
  | nil => simp
  | cons frame frames ih =>
    cases n with
    | zero => simp
    | succ n =>
      have hn := ih n
      rcases frame with error | data | trailers <;> simpa using hn

@[simp] theorem beforeError_ok (frame : Frame) (frames : List (Except E Frame)) :
    beforeError (.ok frame :: frames) = .ok frame :: beforeError frames := rfl

@[simp] theorem beforeError_error (error : E) (frames : List (Except E Frame)) :
    beforeError (.error error :: frames) = [] := rfl

theorem isizeMax_lt_usizeMax : isizeMax < usizeMax := by decide

theorem saturatingAdd_of_le {count : ℕ} (h : limit < usizeMax ∨ received + count ≤ usizeMax)
    (hle : saturatingAdd received count ≤ limit) : saturatingAdd received count = received + count := by
  unfold saturatingAdd at *
  omega

end Counting

theorem initialCapacity_le (hint : SizeHint) (limit : ℕ) : initialCapacity hint limit ≤ limit := by
  unfold initialCapacity
  cases hint.upper with
  | none => exact Nat.zero_le _
  | some upper => exact min_le_right _ _

section Frames
variable {limit received : ℕ} {output data : Bytes}

theorem collectFrame_exceeds (h : limit < saturatingAdd received data.length) :
    collectFrame limit output received (.ok (.data data) : Except E Frame) =
      .inl (some (.error (.limitExceeded ⟨limit,saturatingAdd received data.length⟩))) := if_pos h

theorem collectFrame_within (h : saturatingAdd received data.length ≤ limit)
    (hfits : output.length + data.length ≤ isizeMax) :
    collectFrame limit output received (.ok (.data data) : Except E Frame) =
      .inr (output ++ data,saturatingAdd received data.length) := by
  simp only [collectFrame,if_neg (Nat.not_lt.mpr h),if_neg (Nat.not_lt.mpr hfits)]

theorem collectFrame_grows (h : saturatingAdd received data.length ≤ limit)
    (hgrows : isizeMax < output.length + data.length) :
    collectFrame limit output received (.ok (.data data) : Except E Frame) = .inl none := by
  simp only [collectFrame,if_neg (Nat.not_lt.mpr h),if_pos hgrows]

theorem collectFrame_goes {frame : Except E Frame} {output' : Bytes} {received' : ℕ}
    (h : collectFrame limit output received frame = .inr (output',received')) (hcount : received = output.length) :
    received' = output'.length ∧ output' = output ++ (dataOf [frame]).flatten := by
  rcases frame with error | data | trailers
  · cases h
  · simp only [collectFrame] at h
    split at h
    · cases h
    · split at h
      · cases h
      next hfits =>
        cases h
        have hmax := isizeMax_lt_usizeMax
        refine ⟨?_,by simp [dataOf]⟩
        rw [List.length_append,hcount,saturatingAdd]
        omega
  · cases h
    exact ⟨hcount,by simp [dataOf]⟩

theorem collectFrame_returns {frame : Except E Frame} {result : Option (Except (BodyCollectionError E) Bytes)}
    (h : collectFrame limit output received frame = .inl result) :
    (∃ error, frame = .error error ∧ result = some (.error (.body error))) ∨
    ∃ data, frame = .ok (.data data) ∧
      (limit < saturatingAdd received data.length ∧
          result = some (.error (.limitExceeded ⟨limit,saturatingAdd received data.length⟩)) ∨
        saturatingAdd received data.length ≤ limit ∧ isizeMax < output.length + data.length ∧ result = none) := by
  rcases frame with error | data | trailers
  · cases h
    exact .inl ⟨error,rfl,rfl⟩
  · simp only [collectFrame] at h
    split at h
    next hlimit =>
      cases h
      exact .inr ⟨data,rfl,.inl ⟨hlimit,rfl⟩⟩
    next hlimit =>
      split at h
      next hgrows =>
        cases h
        exact .inr ⟨data,rfl,.inr ⟨Nat.not_lt.mp hlimit,hgrows,rfl⟩⟩
      · cases h
  · cases h

theorem collectLoop_ok {frames : List (Except E Frame)} {bytes : Bytes}
    (h : collectLoop limit output received frames = some (.ok bytes)) (hcount : received = output.length) :
    bytes = output ++ (dataOf frames).flatten := by
  induction frames generalizing output received with
  | nil =>
    cases h
    exact (List.append_nil _).symm
  | cons frame frames ih =>
    rw [collectLoop] at h
    rcases hframe : collectFrame limit output received frame with result | ⟨output',received'⟩
    · rw [hframe] at h
      dsimp only at h
      subst h
      rcases collectFrame_returns hframe with ⟨_,_,herror⟩ | ⟨_,_,⟨_,hlimit⟩ | ⟨_,_,hnone⟩⟩
      · cases herror
      · cases hlimit
      · cases hnone
    · rw [hframe] at h
      obtain ⟨hcount',rfl⟩ := collectFrame_goes hframe hcount
      have hcons : dataOf (frame :: frames) = dataOf [frame] ++ dataOf frames := by
        rcases frame with error | data | trailers <;> rfl
      rw [ih h hcount',hcons,List.flatten_append,List.append_assoc]

/-- A panic in the loop comes of data that is longer than a buffer can be. -/
theorem collectLoop_panics {frames : List (Except E Frame)} (h : collectLoop limit output received frames = none)
    (hcount : received = output.length) :
    isizeMax < limit ∧ isizeMax < output.length + dataLength (beforeError frames) := by
  induction frames generalizing output received with
  | nil => cases h
  | cons frame frames ih =>
    rw [collectLoop] at h
    rcases hframe : collectFrame limit output received frame with result | ⟨output',received'⟩
    · rw [hframe] at h
      dsimp only at h
      subst h
      rcases collectFrame_returns hframe with ⟨_,_,herror⟩ | ⟨data,rfl,⟨_,hlimit⟩ | ⟨hlimit,hgrows,_⟩⟩
      · cases herror
      · cases hlimit
      · have hmax := isizeMax_lt_usizeMax
        rw [saturatingAdd,hcount] at hlimit
        rw [beforeError_ok,dataLength_data]
        omega
    · rw [hframe] at h
      obtain ⟨hcount',rfl⟩ := collectFrame_goes hframe hcount
      obtain ⟨hlimit,hlong⟩ := ih h hcount'
      refine ⟨hlimit,?_⟩
      rcases frame with error | data | trailers
      · cases hframe
      · simp only [dataOf,List.flatten_cons,List.flatten_nil,List.append_nil,List.length_append] at hlong
        rw [beforeError_ok,dataLength_data]
        omega
      · simpa [dataOf] using hlong

/-- A collection panics only with a limit that is larger than a buffer can be, and then for
the size hint of the body or for its data. -/
theorem collectYielded_panics {frames : List (Except E Frame)} {hint : SizeHint}
    (h : collectYielded frames hint limit = none) : isizeMax < limit ∧
      ((∃ upper ∈ hint.upper, isizeMax < upper) ∨ isizeMax < dataLength (beforeError frames)) := by
  unfold collectYielded at h
  split at h
  next hcapacity =>
    have hlimit := hcapacity.trans_le (initialCapacity_le hint limit)
    refine ⟨hlimit,.inl ?_⟩
    unfold initialCapacity at hcapacity
    cases hupper : hint.upper with
    | none =>
      rw [hupper] at hcapacity
      exact absurd hcapacity (Nat.not_lt_zero _)
    | some upper =>
      rw [hupper] at hcapacity
      exact ⟨upper,rfl,hcapacity.trans_le (min_le_left _ _)⟩
  next =>
    obtain ⟨hlimit,hlong⟩ := collectLoop_panics h rfl
    refine ⟨hlimit,.inr ?_⟩
    simpa using hlong

/-- A hint that is larger than a buffer can be is a panic, whatever the body is. -/
theorem collectYielded_of_hint (frames : List (Except E Frame)) {hint : SizeHint} {upper : ℕ}
    (hupper : hint.upper = some upper) (hlong : isizeMax < upper) (hlimit : isizeMax < limit) :
    collectYielded frames hint limit = none := by
  have hcapacity : isizeMax < initialCapacity hint limit := by
    rw [initialCapacity,hupper]
    exact lt_min hlong hlimit
  exact if_pos hcapacity

end Frames
end Collect
end H12Tiny.Util
