import H12Tiny.Sync.Delivery
import H12Tiny.Sync.Response

/-! # The view of a response

What a caller of the blocking client sees of a response is a function of the bytes the
server sends. The head reader is compared with a reader of wires, as the body readers
are; the look-ahead it leaves behind is part of the wire the body starts on.
-/
namespace H12Tiny.Sync
variable {Name Value : Type} [DecidableEq Name] (http : HeaderTypes Name Value)

namespace Wire

def responseBody (headRequest : Bool) (_ : Unit) :
    EStateM Error Wire ((Head Name Value × BodyMode) ⊕ Unit) := do
  let head ← takeUntil none (crlf ++ crlf) headLimit headClosed (Error.fromIo .response)
  ofExcept (acceptHead http headRequest head)

theorem responseBody_ok {headRequest : Bool} {u : Unit} {wire wire' : Wire}
    {result : (Head Name Value × BodyMode) ⊕ Unit}
    (h : responseBody http headRequest u wire = .ok result wire') :
    ∃ head, wire = wire'.prepend (head ++ (crlf ++ crlf)) := by
  unfold responseBody at h
  simp only [bind,EStateM.bind] at h
  split at h
  next head wire₁ hhead =>
    obtain ⟨_,hwire⟩ := takeUntil_ok hhead
    rw [← (ofExcept_eq_ok h).2] at hwire
    exact ⟨head,hwire⟩
  next => cases h

theorem response_lowers (headRequest : Bool) :
    Lowers (responseBody http headRequest) (fun _ wire => wire.ready.length) := by
  intro _ wire _ wire' h
  obtain ⟨head,hwire⟩ := responseBody_ok http h
  rw [hwire]
  simp only [prepend,List.length_append,crlf_length]
  omega

def response (headRequest : Bool) : EStateM Error Wire (Head Name Value × BodyMode) :=
  loopM (responseBody http headRequest) _ (response_lowers http headRequest) ()

theorem response_later (headRequest : Bool) (wire : Wire) :
    ∀ {result : Head Name Value × BodyMode} {rest : Wire},
      response http headRequest wire = .ok result rest → rest.later = wire.later := by
  refine loopM_induction (response_lowers http headRequest)
    (P := fun _ wire r => ∀ {result : Head Name Value × BodyMode} {rest : Wire},
      r = .ok result rest → rest.later = wire.later) ?_ ?_ ?_ () wire
  · intro _ wire _ _ hb _ _ hr
    cases hr
    obtain ⟨_,hwire⟩ := responseBody_ok http hb
    rw [hwire]
    rfl
  · intro _ _ _ _ _ _ _ hr
    cases hr
  · intro _ wire _ _ _ hb ih _ _ hr
    obtain ⟨_,hwire⟩ := responseBody_ok http hb
    rw [ih hr,hwire]
    rfl

end Wire

theorem readResponse_simulates (headRequest : Bool) :
    Simulates Views (GivesUp headLimit none) (Cautious headLimit none)
      (loopM (readResponseBody http headRequest) _ (readResponse_lowers http headRequest) ())
      (Wire.response http headRequest) := by
  apply Simulates.loopM
  intro _
  apply Simulates.bind
  · exact takeUntil_simulates (crlf ++ crlf) maxResponseHeadBytes headLimit headClosed _ (Or.inl rfl)
  · intro head
    exact Simulates.ofExcept _

/-- What a caller sees who reads a response to its end. -/
structure View (Name Value : Type) extends Head Name Value where
  mode : BodyMode
  bytes : Bytes
  ending : Except IoError Unit

def view (headRequest : Bool) (sizes : ℕ → ℕ) (connection : Connection) : Except Error (View Name Value) :=
  (readResponse http headRequest connection).map fun response =>
    ⟨response.toHead,response.body.mode,(readAll false sizes response.body).bytes,
      (readAll false sizes response.body).ending⟩

/-- The run stopped because a head or a line reached its limit. The limit on all trailers
together is met in every run or in none. -/
def StopsAtLimit (seen : Except Error (View Name Value)) : Prop :=
  seen = .error headLimit ∨ ∃ view, seen = .ok view ∧ view.ending = .error lineLimit

def viewBytes (headRequest : Bool) (stream : Bytes) : Except Error (View Name Value) :=
  match Wire.response http headRequest ⟨stream,[]⟩ with
  | .error error _ => .error error
  | .ok (head,mode) rest => .ok ⟨head,mode,(deliver mode rest.ready).1,(deliver mode rest.ready).2⟩

theorem view_eq_viewBytes {headRequest : Bool} {sizes : ℕ → ℕ} (hsizes : ∀ k, 0 < sizes k)
    {connection : Connection} {stream : Bytes} (hwire : Connection.wire connection.script = ⟨stream,[]⟩)
    (hlimit : ¬ StopsAtLimit (view http headRequest sizes connection)) :
    view http headRequest sizes connection = viewBytes http headRequest stream := by
  have hagree := readResponse_simulates http headRequest ⟨connection,[]⟩ ⟨stream,[]⟩ hwire
  unfold viewBytes
  unfold view readResponse at hlimit ⊢
  generalize loopM (readResponseBody http headRequest) _ (readResponse_lowers http headRequest) ()
    ⟨connection,[]⟩ = left at hagree hlimit
  generalize hright : Wire.response http headRequest ⟨stream,[]⟩ = right at hagree
  cases hagree with
  | error _ => rfl
  | left h =>
    obtain ⟨_,rfl⟩ := h
    exact absurd (Or.inl rfl) hlimit
  | right h => exact absurd rfl h.1
  | @ok result inbound rest h =>
    obtain ⟨head,mode⟩ := result
    have hlater : rest.later = [] := Wire.response_later http headRequest ⟨stream,[]⟩ hright
    have hrest : inbound.wire = ⟨rest.ready,[]⟩ := by
      rw [show inbound.wire = rest from h,← hlater]
    have hline : (readAll false sizes ⟨inbound,mode⟩).ending ≠ .error lineLimit := by
      intro hending
      exact hlimit (Or.inr ⟨_,rfl,hending⟩)
    have hdeliver : ((readAll false sizes ⟨inbound,mode⟩).bytes,(readAll false sizes ⟨inbound,mode⟩).ending) =
        deliver mode rest.ready := readAll_delivers hsizes hrest hline
    simp only [Except.map]
    rw [← hdeliver]

/-- The view of a response depends on the bytes alone: not on how they are cut into reads
of the connection, nor on the buffers of the caller. -/
theorem view_function_of_bytes (headRequest : Bool) (stream : Bytes) (left right : Connection)
    (hleft : Connection.wire left.script = ⟨stream,[]⟩) (hright : Connection.wire right.script = ⟨stream,[]⟩)
    (sizes sizes' : ℕ → ℕ) (hsizes : ∀ k, 0 < sizes k) (hsizes' : ∀ k, 0 < sizes' k)
    (hlimit : ¬ StopsAtLimit (view http headRequest sizes left))
    (hlimit' : ¬ StopsAtLimit (view http headRequest sizes' right)) :
    view http headRequest sizes left = view http headRequest sizes' right := by
  rw [view_eq_viewBytes http hsizes hleft hlimit,view_eq_viewBytes http hsizes' hright hlimit']

/-- Header names that are tokens, in lower case, and values without control characters. -/
def byteHeaders : HeaderTypes Bytes Bytes where
  nameFromBytes bytes := if bytes ≠ [] ∧ bytes.all isToken then some (bytes.map toAsciiLowercase) else none
  valueFromBytes bytes := if bytes.all (fun byte => (32 ≤ byte ∧ byte ≠ 127) ∨ byte = 9) then some bytes else none
  asBytes := id
  contentLength := [99,111,110,116,101,110,116,45,108,101,110,103,116,104]
  transferEncoding := [116,114,97,110,115,102,101,114,45,101,110,99,111,100,105,110,103]

/-- An interim response and a response with one header field, a length of one. -/
def interimStream : Bytes :=
  http11Bytes ++ [32,49,48,48,13,10,13,10] ++ http11Bytes ++ [32,50,48,48,13,10] ++
    byteHeaders.contentLength ++ [58,32,49,13,10,13,10,65]

theorem view_function_of_bytes_interim :
    ¬ StopsAtLimit (view byteHeaders false (fun _ => 1) ⟨Event.segment interimStream,none⟩) ∧
    ¬ StopsAtLimit (view byteHeaders false (fun _ => 2)
      ⟨Event.segment (interimStream.take 21) ++ Event.segment (interimStream.drop 21),none⟩) ∧
    view byteHeaders false (fun _ => 1) ⟨Event.segment interimStream,none⟩ =
      view byteHeaders false (fun _ => 2)
        ⟨Event.segment (interimStream.take 21) ++ Event.segment (interimStream.drop 21),none⟩ := by
  have hview : view byteHeaders false (fun _ => 1) ⟨Event.segment interimStream,none⟩ =
      .ok ⟨⟨⟨200,by decide⟩,.http11,[(byteHeaders.contentLength,[49])]⟩,.contentLength 1,[65],.ok ()⟩ := rfl
  have hview' : view byteHeaders false (fun _ => 2)
      ⟨Event.segment (interimStream.take 21) ++ Event.segment (interimStream.drop 21),none⟩ =
      .ok ⟨⟨⟨200,by decide⟩,.http11,[(byteHeaders.contentLength,[49])]⟩,.contentLength 1,[65],.ok ()⟩ := rfl
  have hlimit : ∀ {seen : Except Error (View Bytes Bytes)} {v : View Bytes Bytes}, seen = .ok v →
      v.ending = .ok () → ¬ StopsAtLimit seen := by
    rintro _ v rfl hok (h | ⟨_,h,hending⟩)
    · cases h
    · cases h
      rw [hok] at hending
      cases hending
  refine ⟨hlimit hview rfl,hlimit hview' rfl,?_⟩
  exact view_function_of_bytes byteHeaders false interimStream _ _ rfl rfl _ _ (fun _ => Nat.one_pos)
    (fun _ => Nat.two_pos) (hlimit hview rfl) (hlimit hview' rfl)

end H12Tiny.Sync
