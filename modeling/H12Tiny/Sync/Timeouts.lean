import H12Tiny.Foundation.Transitions
import H12Tiny.Sync.Readers

/-! # The read timeout of a response body

Calls of `set_read_timeout` and `read` on one body, in any order. A read of the body keeps
the timeout of the connection, so whatever it reads from the connection is read under the
timeout that the connection has before the call. Whether it reads from the connection at
all is decided by the mode and the buffered bytes: either a failure of the connection's
next read is what the call returns, or the call ends without the connection.
-/
namespace H12Tiny.Sync

def Inbound.withScript (script : List Event) (inbound : Inbound) : Inbound :=
  { inbound with connection := { inbound.connection with script := script } }

def ChunkedBody.withScript (script : List Event) (body : ChunkedBody) : ChunkedBody :=
  ⟨body.toInbound.withScript script,body.state⟩

def ResponseBody.withScript (script : List Event) (body : ResponseBody) : ResponseBody :=
  ⟨body.toInbound.withScript script,body.mode⟩

def failing (error : IoError) (script : List Event) : List Event := .fail error :: script

/-! ## Asking the connection -/

abbrev InboundSettles {α : Type} (m : Reader α) (inbound : Inbound) : Prop :=
  Settles Inbound.withScript failing m inbound

section Settling
variable (inbound : Inbound)

theorem drain_settles (count : ℕ) : InboundSettles (drain count) inbound :=
  .returns (inbound.buffered.take count) { inbound with buffered := inbound.buffered.drop count } fun _ => rfl

theorem readBuffered_settles (capacity : ℕ) : InboundSettles (readBuffered capacity) inbound := by
  by_cases h : inbound.buffered = []
  · exact .asks inbound fun _ _ => if_pos h
  · exact .returns (inbound.buffered.take capacity) { inbound with buffered := inbound.buffered.drop capacity }
      fun _ => if_neg h

theorem readExactBuffered_settles (length : ℕ) : InboundSettles (readExactBuffered length) inbound := by
  refine Settles.loopM (readExact_lowers length) [] ?_ [] inbound
  intro output inbound
  unfold readExactBody
  split
  · refine (readBuffered_settles inbound _).bind fun read inbound => ?_
    split
    · exact .raises _ _ fun _ => rfl
    · exact .returns _ _ fun _ => rfl
  · exact .returns _ _ fun _ => rfl

theorem readUntil_settles (needle : Bytes) (maxLen : ℕ) (limit closed : IoError) :
    InboundSettles (readUntil needle maxLen limit closed id) inbound := by
  refine Settles.loopM (readUntil_lowers needle maxLen limit closed id) [] ?_ () inbound
  intro _ inbound
  cases hfind : findSub needle inbound.buffered with
  | some stop =>
    refine .returns (.inl stop) inbound fun script => ?_
    simp only [readUntilBody,Inbound.withScript,hfind]
  | none =>
    by_cases hlen : maxLen ≤ inbound.buffered.length
    · refine .raises limit inbound fun script => ?_
      simp only [readUntilBody,Inbound.withScript,hfind]
      exact if_pos hlen
    · refine .asks inbound fun error script => ?_
      simp only [readUntilBody,Inbound.withScript,hfind]
      exact if_neg hlen

theorem readLine_settles (maxLen : ℕ) : InboundSettles (readLine maxLen) inbound := by
  refine (readUntil_settles inbound _ _ _ _).bind fun stop inbound => ?_
  refine (drain_settles inbound _).bind fun text inbound => ?_
  refine (drain_settles inbound _).bind fun _ inbound => ?_
  exact .returns _ _ fun _ => rfl

theorem consumeTrailers_settles : InboundSettles consumeTrailers inbound := by
  refine Settles.loopM consumeTrailers_lowers [] ?_ 0 inbound
  intro total inbound
  exact (readLine_settles inbound _).bind fun line inbound => Settles.ofExcept _ _

theorem nextChunk_settles (separatorDue : Bool) : InboundSettles (nextChunk separatorDue) inbound := by
  refine Settles.bind ?_ fun _ inbound => ?_
  · unfold readSeparator
    split
    · exact (readExactBuffered_settles inbound 2).bind fun separator inbound => Settles.ofExcept _ _
    · exact .returns _ _ fun _ => rfl
  · refine (readLine_settles inbound _).bind fun line inbound => ?_
    refine (Settles.ofExcept _ _).bind fun size inbound => ?_
    split
    · exact (consumeTrailers_settles inbound).bind fun _ inbound => .returns _ _ fun _ => rfl
    · exact .returns _ _ fun _ => rfl

end Settling

theorem readChunked_settles (capacity : ℕ) (body : ChunkedBody) :
    Settles ChunkedBody.withScript failing (readChunked capacity) body := by
  refine Settles.loopM (readChunked_lowers capacity) [] ?_ () body
  rintro _ ⟨inbound,state⟩
  by_cases hcomplete : state.complete = true
  · exact .returns _ ⟨inbound,state⟩ fun _ => if_pos hcomplete
  by_cases hzero : state.remaining = 0
  · refine (nextChunk_settles inbound state.separatorDue).embed (fun inbound => ⟨inbound,state⟩)
      (fun size inbound => if size = 0 then .ok (.inl []) ⟨inbound,0,false,true⟩
        else .ok (.inr ()) ⟨inbound,size,false,false⟩) (fun _ _ => rfl) ?_ ?_ ?_
    · intro script size inbound' h
      simp only [readChunkedBody,ChunkedBody.withScript,if_neg hcomplete,if_pos hzero,h]
    · intro script error inbound' h
      simp only [readChunkedBody,ChunkedBody.withScript,if_neg hcomplete,if_pos hzero,h]
    · intro size inbound'
      left
      by_cases hsize : size = 0
      · exact ⟨_,⟨inbound',0,false,true⟩,fun _ => if_pos hsize⟩
      · exact ⟨_,⟨inbound',size,false,false⟩,fun _ => if_neg hsize⟩
  · refine (readBuffered_settles inbound (min capacity state.remaining)).embed (fun inbound => ⟨inbound,state⟩)
      (fun read inbound =>
        if read = [] then .error ⟨.unexpectedEof,"HTTP response ended in a chunk"⟩ ⟨inbound,state⟩
        else .ok (.inl read) ⟨inbound,state.remaining - read.length,state.remaining = read.length,false⟩)
      (fun _ _ => rfl) ?_ ?_ ?_
    · intro script read inbound' h
      simp only [readChunkedBody,ChunkedBody.withScript,if_neg hcomplete,if_neg hzero,h]
      rfl
    · intro script error inbound' h
      simp only [readChunkedBody,ChunkedBody.withScript,if_neg hcomplete,if_neg hzero,h]
    · intro read inbound'
      by_cases hread : read = []
      · exact .inr ⟨_,⟨inbound',state⟩,fun _ => if_pos hread⟩
      · exact .inl ⟨_,⟨inbound',state.remaining - read.length,state.remaining = read.length,false⟩,
          fun _ => if_neg hread⟩

theorem read_settles (capacity : ℕ) (body : ResponseBody) :
    Settles ResponseBody.withScript failing (ResponseBody.read capacity) body := by
  by_cases hcap : capacity = 0
  · exact .returns _ body fun _ => if_pos hcap
  rcases body with ⟨inbound,mode⟩
  cases mode with
  | empty => exact .returns _ ⟨inbound,.empty⟩ fun _ => if_neg hcap
  | eof =>
    refine (readBuffered_settles inbound capacity).embed (fun inbound => ⟨inbound,.eof⟩)
      (fun read inbound => .ok read ⟨inbound,.eof⟩) (fun _ _ => rfl) ?_ ?_ ?_
    · intro script read inbound' h
      simp only [ResponseBody.read,ResponseBody.withScript,if_neg hcap,h]
    · intro script error inbound' h
      simp only [ResponseBody.read,ResponseBody.withScript,if_neg hcap,h]
    · exact fun read inbound' => .inl ⟨read,⟨inbound',.eof⟩,fun _ => rfl⟩
  | contentLength remaining =>
    by_cases hzero : remaining = 0
    · refine .returns [] ⟨inbound,.contentLength remaining⟩ fun script => ?_
      simp only [ResponseBody.read,ResponseBody.withScript,if_neg hcap,if_pos hzero]
    · refine (readBuffered_settles inbound (min capacity remaining)).embed
        (fun inbound => ⟨inbound,.contentLength remaining⟩)
        (fun read inbound =>
          if read = [] then
            .error ⟨.unexpectedEof,"HTTP response ended before its Content-Length"⟩
              ⟨inbound,.contentLength remaining⟩
          else .ok read ⟨inbound,.contentLength (remaining - read.length)⟩)
        (fun _ _ => rfl) ?_ ?_ ?_
      · intro script read inbound' h
        simp only [ResponseBody.read,ResponseBody.withScript,if_neg hcap,if_neg hzero,h]
      · intro script error inbound' h
        simp only [ResponseBody.read,ResponseBody.withScript,if_neg hcap,if_neg hzero,h]
      · intro read inbound'
        by_cases hread : read = []
        · exact .inr ⟨_,⟨inbound',.contentLength remaining⟩,fun _ => if_pos hread⟩
        · exact .inl ⟨_,⟨inbound',.contentLength (remaining - read.length)⟩,fun _ => if_neg hread⟩
  | chunked state =>
    refine (readChunked_settles capacity ⟨inbound,state⟩).embed (fun body => ⟨body.toInbound,.chunked body.state⟩)
      (fun read body => .ok read ⟨body.toInbound,.chunked body.state⟩) (fun _ _ => rfl) ?_ ?_ ?_
    · intro script read body' h
      rw [ChunkedBody.withScript] at h
      simp only [ResponseBody.read,ResponseBody.withScript,if_neg hcap,h]
    · intro script error body' h
      rw [ChunkedBody.withScript] at h
      simp only [ResponseBody.read,ResponseBody.withScript,if_neg hcap,h]
    · exact fun read body' => .inl ⟨read,⟨body'.toInbound,.chunked body'.state⟩,fun _ => rfl⟩

/-! ## Keeping the timeout -/

def Inbound.timeout (inbound : Inbound) : Option ℕ := inbound.connection.readTimeout

theorem receive_keeps (capacity : ℕ) : Keeps Inbound.timeout (receive capacity) := by
  rintro ⟨⟨script,timeout⟩,buffered⟩
  rcases script with _ | ⟨event,script⟩
  · rfl
  · cases event <;> rfl

theorem steady_timeout (timeout : Option ℕ) : Steady fun inbound => inbound.timeout = timeout where
  receive capacity := (receive_keeps capacity).preserves timeout
  drain _ _ hinbound := hinbound
  line := by
    intro _ inbound hinbound
    have hreceive := (receive_keeps 4096).preserves timeout
    have hstep := lineBody_step inbound
    generalize lineBody () inbound = result at hstep ⊢
    cases hstep with
    | found _ => exact hinbound
    | limit _ _ => exact hinbound
    | failed _ _ hread => exact hreceive.of_eq hread hinbound
    | closed _ _ hread => exact hreceive.of_eq hread hinbound
    | more _ _ hread _ => exact hreceive.of_eq hread hinbound

theorem read_keeps (capacity : ℕ) :
    Keeps (fun body : ResponseBody => body.toInbound.timeout) (ResponseBody.read capacity) :=
  Keeps.of_preserves fun timeout => (steady_timeout timeout).read capacity

/-! ## Calls -/

/-- The call reads from the connection: what the next read there fails with is what it
returns. -/
def ReadsConnection (capacity : ℕ) (body : ResponseBody) : Prop :=
  ∃ body' : ResponseBody, ∀ error script, ResponseBody.read capacity (body.withScript (failing error script)) =
    .error error (body'.withScript script)

theorem read_of_not_readsConnection {capacity : ℕ} {body : ResponseBody} (h : ¬ReadsConnection capacity body) :
    (∃ bytes, ∃ body' : ResponseBody, ∀ script, ResponseBody.read capacity (body.withScript script) =
      .ok bytes (body'.withScript script)) ∨
    ∃ error, ∃ body' : ResponseBody, ∀ script, ResponseBody.read capacity (body.withScript script) =
      .error error (body'.withScript script) := by
  cases read_settles capacity body with
  | asks body' hread => exact absurd ⟨body',hread⟩ h
  | returns bytes body' hread => exact .inl ⟨bytes,body',hread⟩
  | raises error body' hread => exact .inr ⟨error,body',hread⟩

/-- The buffered bytes hold all that is left of a body with a length. -/
def Buffered (body : ResponseBody) : Prop :=
  ∃ remaining, body.mode = .contentLength remaining ∧ remaining ≤ body.buffered.length

theorem Buffered.read {body : ResponseBody} (h : Buffered body) (capacity : ℕ) :
    ∃ bytes, ∃ body' : ResponseBody, Buffered body' ∧ ∀ script,
      ResponseBody.read capacity (body.withScript script) = .ok bytes (body'.withScript script) := by
  rcases body with ⟨⟨connection,buffered⟩,mode⟩
  obtain ⟨remaining,rfl,hle⟩ := h
  by_cases hcap : capacity = 0
  · exact ⟨_,_,⟨remaining,rfl,hle⟩,fun _ => if_pos hcap⟩
  by_cases hzero : remaining = 0
  · refine ⟨_,_,⟨remaining,rfl,hle⟩,fun _ => (if_neg hcap).trans (if_pos hzero)⟩
  have hne : buffered ≠ [] := by
    rintro rfl
    exact hzero (Nat.le_zero.mp hle)
  have htaken : buffered.take (min capacity remaining) ≠ [] := by
    rw [Ne,List.take_eq_nil_iff]
    rintro (hnil | hnil)
    · omega
    · exact hne hnil
  refine ⟨buffered.take (min capacity remaining),⟨⟨connection,buffered.drop (min capacity remaining)⟩,
    .contentLength (remaining - (buffered.take (min capacity remaining)).length)⟩,⟨_,rfl,?_⟩,fun script => ?_⟩
  · dsimp only at hle ⊢
    rw [List.length_take,List.length_drop]
    omega
  · have hread : readBuffered (min capacity remaining) (Inbound.withScript script ⟨connection,buffered⟩) =
        .ok (buffered.take (min capacity remaining))
          (Inbound.withScript script ⟨connection,buffered.drop (min capacity remaining)⟩) := if_neg hne
    simp only [ResponseBody.read,ResponseBody.withScript,if_neg hcap,if_neg hzero,hread]
    exact if_neg htaken

theorem Buffered.not_readsConnection {body : ResponseBody} (h : Buffered body) (capacity : ℕ) :
    ¬ReadsConnection capacity body := by
  rintro ⟨body',hread⟩
  obtain ⟨bytes,_,-,hok⟩ := h.read capacity
  cases (hok _).symm.trans (hread lineLimit [])

theorem Buffered.finalState {body : ResponseBody} (h : Buffered body) (capacity : ℕ) :
    Buffered (finalState (ResponseBody.read capacity body)) := by
  obtain ⟨bytes,body',hbody',hok⟩ := h.read capacity
  have hread : ResponseBody.read capacity body = .ok bytes (body'.withScript body.connection.script) := hok _
  rw [hread]
  exact hbody'

/-- What `set_read_timeout` can do: nothing, set the timeout, or refuse it. -/
inductive SetResult (timeout : Option ℕ) (body : ResponseBody) : EStateM.Result IoError ResponseBody Unit → Prop
  | skipped (h : body.isComplete = true ∨ body.buffered ≠ []) : SetResult timeout body (.ok () body)
  | set : SetResult timeout body
      (.ok () { body with connection := { body.connection with readTimeout := timeout } })
  | refused (error : IoError) : SetResult timeout body (.error error body)

theorem setReadTimeout_result (timeout : Option ℕ) (body : ResponseBody) :
    SetResult timeout body (body.setReadTimeout timeout) := by
  unfold ResponseBody.setReadTimeout
  split
  next h => exact .skipped h
  next =>
    by_cases hzero : timeout = some 0
    · have hset : body.connection.setReadTimeout timeout =
          .error ⟨.invalidInput,"cannot set a 0 duration timeout"⟩ body.connection := if_pos hzero
      rw [hset]
      exact .refused _
    · have hset : body.connection.setReadTimeout timeout =
          .ok () { body.connection with readTimeout := timeout } := if_neg hzero
      rw [hset]
      exact .set

inductive Call
  | setReadTimeout (timeout : Option ℕ)
  | read (capacity : ℕ)

/-- A body, with the timeout that the last call of `set_read_timeout` promised for the reads
that follow: none if there was no such call, or it failed, or the body was complete. -/
structure Governed where
  body : ResponseBody
  timeout : Option (Option ℕ)

namespace Governed

def call (s : Governed) : Call → Governed
  | .setReadTimeout timeout =>
    match s.body.setReadTimeout timeout with
    | .ok _ body => ⟨body,if s.body.isComplete then none else some timeout⟩
    | .error _ body => ⟨body,none⟩
  | .read capacity => ⟨finalState (ResponseBody.read capacity s.body),s.timeout⟩

/-- What the next read of the body takes from the connection is read under the promised
timeout. -/
def Obeys (s : Governed) : Prop :=
  ∀ capacity, ReadsConnection capacity s.body → ∀ timeout, s.timeout = some timeout →
    s.body.connection.readTimeout = timeout

/-- A timeout is set when nothing is buffered, or it is the one that the connection has, or
the connection is not needed any more. -/
def Effective (s : Governed) : Call → Prop
  | .setReadTimeout timeout => s.body.isComplete = false →
    s.body.buffered = [] ∨ s.body.connection.readTimeout = timeout ∨ Buffered s.body
  | .read _ => True

/-- The promised timeout is the one of the connection, if that is still needed. -/
def Inv (s : Governed) : Prop :=
  ∀ timeout, s.timeout = some timeout → s.body.connection.readTimeout = timeout ∨ Buffered s.body

theorem Inv.obeys {s : Governed} (h : s.Inv) : s.Obeys := by
  intro capacity hreads timeout htimeout
  rcases h timeout htimeout with heq | hbuffered
  · exact heq
  · exact absurd hreads (hbuffered.not_readsConnection capacity)

theorem call_inv {s : Governed} {call : Call} (h : s.Inv) (heffective : s.Effective call) : (s.call call).Inv := by
  cases call with
  | read capacity =>
    intro timeout htimeout
    rcases h timeout htimeout with heq | hbuffered
    · exact .inl ((read_keeps capacity s.body).trans heq)
    · exact .inr (hbuffered.finalState capacity)
  | setReadTimeout timeout =>
    have hresult := setReadTimeout_result timeout s.body
    unfold Governed.call
    dsimp only
    generalize s.body.setReadTimeout timeout = result at hresult
    intro promised hpromised
    cases hresult with
    | refused error => cases hpromised
    | set =>
      dsimp only at hpromised
      split at hpromised
      · cases hpromised
      · exact .inl (Option.some.inj hpromised)
    | skipped hskip =>
      dsimp only at hpromised
      split at hpromised
      · cases hpromised
      next hopen =>
        cases hpromised
        have hbuffered := hskip.resolve_left hopen
        exact (heffective (Bool.eq_false_iff.mpr hopen)).resolve_left hbuffered

/-- In every run of calls that each set the timeout with nothing buffered, or to the one
there is, or with the whole rest of the body buffered, a timeout that was set is the one of
all reads from the connection up to the next one. -/
theorem calls_obey (body : ResponseBody) {s : Governed}
    (h : Reaches (fun s call => some (Governed.call s call)) Effective ⟨body,none⟩ s) : s.Obeys := by
  have hstart : Inv ⟨body,none⟩ := fun timeout htimeout =>
    absurd htimeout.symm (Option.some_ne_none timeout)
  have hinv : s.Inv := Reaches.invariant (fun hi heffective hstep => by
    cases hstep
    exact call_inv hi heffective) hstart h
  exact hinv.obeys

/-- A body up to the end of the stream, of which the connection has not given anything. -/
def unread : ResponseBody := ⟨⟨⟨[],none⟩,[]⟩,.eof⟩

theorem calls_obey_unread :
    (call ⟨unread,none⟩ (.setReadTimeout (some 50))).Obeys ∧
      ReadsConnection 1 (call ⟨unread,none⟩ (.setReadTimeout (some 50))).body := by
  have heffective : Effective ⟨unread,none⟩ (.setReadTimeout (some 50)) := fun _ => .inl rfl
  exact ⟨calls_obey unread (.single heffective rfl),⟨_,fun _ _ => rfl⟩⟩

/-- The same body, with one byte that came together with the head. -/
def begun : ResponseBody := ⟨⟨⟨[],none⟩,[120]⟩,.eof⟩

/-- A timeout set before the first byte is read is skipped without an error, and the second
read waits for the connection without one. -/
theorem setReadTimeout_skipped :
    begun.isComplete = false ∧ begun.setReadTimeout (some 50) = .ok () begun ∧
      ¬([Call.setReadTimeout (some 50),.read 1].foldl call ⟨begun,none⟩).Obeys := by
  refine ⟨rfl,rfl,fun hobeys => ?_⟩
  have hreads : ReadsConnection 1 ([Call.setReadTimeout (some 50),.read 1].foldl call ⟨begun,none⟩).body :=
    ⟨_,fun _ _ => rfl⟩
  cases hobeys 1 hreads (some 50) rfl

end Governed

end H12Tiny.Sync
