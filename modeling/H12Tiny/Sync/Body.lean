import H12Tiny.Foundation.Loop
import H12Tiny.Sync.Bytes

/-! # The blocking response body

`ResponseBody` and its readers. A connection is the script of what its reads will
give: non-empty segments of bytes and failures, and the end of the stream behind the
last one. A read takes at most as much as the caller's buffer holds and leaves the
rest of a segment for the next one, so every way the bytes can arrive is a script.
An output buffer is its length, and what is written to it is returned.

The readers below `read_chunked` use the connection and the buffered bytes only and
leave the mode alone; they are methods of these two fields. An error keeps the state
it was raised in.
-/
namespace H12Tiny.Sync

def maxResponseHeadBytes : ℕ := 64 * 1024
def maxChunkLineBytes : ℕ := 8 * 1024
def maxTrailerBytes : ℕ := 64 * 1024

inductive Event
  | data (byte : UInt8) (rest : Bytes)
  | fail (error : IoError)
  deriving DecidableEq, Repr

/-- The segment of these bytes, none when there are none. -/
def Event.segment : Bytes → List Event
  | [] => []
  | byte :: rest => [.data byte rest]

structure Connection where
  script : List Event
  readTimeout : Option ℕ
  deriving DecidableEq, Repr

def Event.size : Event → ℕ
  | .data _ rest => rest.length + 1
  | .fail _ => 1

def Connection.size (connection : Connection) : ℕ := (connection.script.map Event.size).sum

def Connection.read (capacity : ℕ) : EStateM IoError Connection Bytes := fun connection =>
  match connection.script with
  | [] => .ok [] connection
  | .fail error :: script => .error error { connection with script := script }
  | .data byte rest :: script =>
    .ok ((byte :: rest).take capacity)
      { connection with script := Event.segment ((byte :: rest).drop capacity) ++ script }

/-- The standard library refuses a zero timeout. -/
def Connection.setReadTimeout (timeout : Option ℕ) : EStateM IoError Connection Unit :=
  fun connection =>
    if timeout = some 0 then
      .error ⟨.invalidInput,"cannot set a 0 duration timeout"⟩ connection
    else .ok () { connection with readTimeout := timeout }

structure Inbound where
  connection : Connection
  buffered : Bytes
  deriving DecidableEq, Repr

def Inbound.size (inbound : Inbound) : ℕ := inbound.buffered.length + inbound.connection.size

abbrev Reader := EStateM IoError Inbound

def receive (capacity : ℕ) : Reader Bytes := fun inbound =>
  match inbound.connection.read capacity with
  | .ok bytes connection => .ok bytes { inbound with connection := connection }
  | .error error connection => .error error { inbound with connection := connection }

def drain {ε : Type} (count : ℕ) : EStateM ε Inbound Bytes := fun inbound =>
  .ok (inbound.buffered.take count) { inbound with buffered := inbound.buffered.drop count }

def readBuffered (capacity : ℕ) : Reader Bytes := fun inbound =>
  if inbound.buffered = [] then receive capacity inbound else drain capacity inbound

def framingClosed : IoError :=
  ⟨.unexpectedEof,"HTTP response ended before its declared body framing completed"⟩

def readExactBody (length : ℕ) (output : Bytes) : Reader (Bytes ⊕ Bytes) :=
  if output.length < length then do
    let read ← readBuffered (length - output.length)
    if read = [] then throw framingClosed
    else return .inr (output ++ read)
  else return .inl output

/-- The loop of `read_line` and of `read_response_head`: more input is read until the
needle is among the buffered bytes, and its position is returned. -/
def readUntilBody {ε : Type} (needle : Bytes) (maxLen : ℕ) (limit closed : ε) (io : IoError → ε)
    (_ : Unit) : EStateM ε Inbound (ℕ ⊕ Unit) := fun inbound =>
  match findSub needle inbound.buffered with
  | some stop => .ok (.inl stop) inbound
  | none =>
    if maxLen ≤ inbound.buffered.length then .error limit inbound
    else
      match receive 4096 inbound with
      | .error error inbound => .error (io error) inbound
      | .ok read inbound =>
        if read = [] then .error closed inbound
        else .ok (.inr ()) { inbound with buffered := inbound.buffered ++ read }

@[simp] theorem segment_size (bytes : Bytes) : ((Event.segment bytes).map Event.size).sum = bytes.length := by
  cases bytes with
  | nil => rfl
  | cons byte rest => simp [Event.segment,Event.size]

theorem receive_size {capacity : ℕ} {inbound inbound' : Inbound} {read : Bytes}
    (h : receive capacity inbound = .ok read inbound') :
    inbound'.buffered = inbound.buffered ∧
      inbound.connection.size = read.length + inbound'.connection.size := by
  obtain ⟨⟨script,timeout⟩,buffered⟩ := inbound
  cases script with
  | nil =>
    cases h
    exact ⟨rfl,(Nat.zero_add _).symm⟩
  | cons event script =>
    cases event with
    | fail error => cases h
    | data byte rest =>
      cases h
      refine ⟨rfl,?_⟩
      simp only [Connection.size,List.map_cons,List.map_append,List.sum_cons,List.sum_append,segment_size,
        Event.size,List.length_take,List.length_drop,List.length_cons]
      omega

theorem readExact_lowers (length : ℕ) :
    Lowers (readExactBody length) (fun output _ => length - output.length) := by
  intro output inbound output' inbound' h
  unfold readExactBody at h
  split at h
  next hlt =>
    simp only [bind,EStateM.bind] at h
    split at h
    next read _ _ =>
      split at h
      next => cases h
      next hne =>
        cases h
        have hpos := List.length_pos_of_ne_nil hne
        simp only [List.length_append]
        omega
    next => cases h
  next => cases h

inductive UntilStep {ε : Type} (needle : Bytes) (maxLen : ℕ) (limit closed : ε) (io : IoError → ε)
    (inbound : Inbound) : EStateM.Result ε Inbound (ℕ ⊕ Unit) → Prop
  | found {stop : ℕ} (hfind : findSub needle inbound.buffered = some stop) :
      UntilStep needle maxLen limit closed io inbound (.ok (.inl stop) inbound)
  | limit (hfind : findSub needle inbound.buffered = none) (hlen : maxLen ≤ inbound.buffered.length) :
      UntilStep needle maxLen limit closed io inbound (.error limit inbound)
  | failed {error : IoError} {inbound' : Inbound} (hfind : findSub needle inbound.buffered = none)
      (hlen : inbound.buffered.length < maxLen) (hread : receive 4096 inbound = .error error inbound') :
      UntilStep needle maxLen limit closed io inbound (.error (io error) inbound')
  | closed {inbound' : Inbound} (hfind : findSub needle inbound.buffered = none)
      (hlen : inbound.buffered.length < maxLen) (hread : receive 4096 inbound = .ok [] inbound') :
      UntilStep needle maxLen limit closed io inbound (.error closed inbound')
  | more {read : Bytes} {inbound' : Inbound} (hfind : findSub needle inbound.buffered = none)
      (hlen : inbound.buffered.length < maxLen) (hread : receive 4096 inbound = .ok read inbound')
      (hne : read ≠ []) :
      UntilStep needle maxLen limit closed io inbound
        (.ok (.inr ()) { inbound' with buffered := inbound'.buffered ++ read })

section Until
variable {ε : Type} (needle : Bytes) (maxLen : ℕ) (limit closed : ε) (io : IoError → ε)

theorem readUntilBody_step (inbound : Inbound) :
    UntilStep needle maxLen limit closed io inbound
      (readUntilBody needle maxLen limit closed io () inbound) := by
  unfold readUntilBody
  split
  next hfind => exact .found hfind
  next hfind =>
    split
    next hlen => exact .limit hfind hlen
    next hlen =>
      split
      next hread => exact .failed hfind (by omega) hread
      next hread =>
        split
        next he =>
          subst he
          exact .closed hfind (by omega) hread
        next hne => exact .more hfind (by omega) hread hne

theorem readUntil_lowers :
    Lowers (readUntilBody needle maxLen limit closed io) (fun _ inbound => inbound.connection.size) := by
  intro _ inbound _ inbound' h
  have hstep := readUntilBody_step needle maxLen limit closed io inbound
  rw [h] at hstep
  cases hstep with
  | more _ _ hread hne =>
    have hsize := (receive_size hread).2
    have hpos := List.length_pos_of_ne_nil hne
    simp only
    omega

end Until

def readExactBuffered (length : ℕ) : Reader Bytes :=
  loopM (readExactBody length) _ (readExact_lowers length) []

def readUntil {ε : Type} (needle : Bytes) (maxLen : ℕ) (limit closed : ε) (io : IoError → ε) :
    EStateM ε Inbound ℕ :=
  loopM (readUntilBody needle maxLen limit closed io) _ (readUntil_lowers needle maxLen limit closed io) ()

/-- The buffered bytes before the needle, which is dropped with them. -/
def takeUntil {ε : Type} (needle : Bytes) (maxLen : ℕ) (limit closed : ε) (io : IoError → ε) :
    EStateM ε Inbound Bytes := do
  let stop ← readUntil needle maxLen limit closed io
  let text ← drain stop
  let _ ← drain needle.length
  return text

def lineLimit : IoError := ⟨.invalidData,"HTTP chunk line exceeds the configured limit"⟩
def lineClosed : IoError := ⟨.unexpectedEof,"HTTP response ended in a chunk line"⟩

def readLine (maxLen : ℕ) : Reader Bytes := takeUntil crlf maxLen lineLimit lineClosed id

theorem readUntil_found {ε : Type} {needle : Bytes} {maxLen : ℕ} {limit closed : ε} {io : IoError → ε}
    {inbound : Inbound} : ∀ {stop : ℕ} {inbound' : Inbound},
    readUntil needle maxLen limit closed io inbound = .ok stop inbound' →
      findSub needle inbound'.buffered = some stop ∧ inbound'.size = inbound.size := by
  refine loopM_induction (readUntil_lowers needle maxLen limit closed io)
    (P := fun _ inbound r => ∀ {stop : ℕ} {inbound' : Inbound}, r = .ok stop inbound' →
      findSub needle inbound'.buffered = some stop ∧ inbound'.size = inbound.size) ?_ ?_ ?_ () inbound
  · intro _ inbound _ _ hb _ _ hr
    cases hr
    have hstep := readUntilBody_step needle maxLen limit closed io inbound
    rw [hb] at hstep
    cases hstep with
    | found hfind => exact ⟨hfind,rfl⟩
  · intro _ _ _ _ _ _ _ hr
    cases hr
  · intro _ inbound _ _ _ hb ih _ _ hr
    obtain ⟨hfind,hsize⟩ := ih hr
    refine ⟨hfind,hsize.trans ?_⟩
    have hstep := readUntilBody_step needle maxLen limit closed io inbound
    rw [hb] at hstep
    cases hstep with
    | more _ _ hread _ =>
      obtain ⟨hbuf,hconn⟩ := receive_size hread
      simp only [Inbound.size,List.length_append,hbuf,hconn]
      omega

theorem takeUntil_size {ε : Type} {needle : Bytes} {maxLen : ℕ} {limit closed : ε} {io : IoError → ε}
    {text : Bytes} {inbound inbound' : Inbound}
    (h : takeUntil needle maxLen limit closed io inbound = .ok text inbound') :
    inbound.size = text.length + needle.length + inbound'.size := by
  unfold takeUntil at h
  simp only [bind,EStateM.bind] at h
  split at h
  next stop inbound₁ hr =>
    obtain ⟨hfind,hsize⟩ := readUntil_found hr
    have hbound := findSub_bound hfind
    cases h
    rw [← hsize]
    simp only [Inbound.size,List.length_take,List.length_drop]
    omega
  next => cases h

/-- The checks of `consume_trailers` on a line, with the bytes of the lines before. -/
def checkTrailer (total : ℕ) (line : Bytes) : Except IoError (Unit ⊕ ℕ) :=
  if maxTrailerBytes < total + (line.length + 2) then
    .error ⟨.invalidData,"HTTP response trailers exceed the configured limit"⟩
  else if line = [] then .ok (.inl ())
  else if colon ∉ line then .error ⟨.invalidData,"malformed HTTP response trailer"⟩
  else .ok (.inr (total + (line.length + 2)))

theorem checkTrailer_ok {total : ℕ} {line : Bytes} {result : Unit ⊕ ℕ} (h : checkTrailer total line = .ok result) :
    total + (line.length + 2) ≤ maxTrailerBytes ∧
      ((line = [] ∧ result = .inl ()) ∨
        (line ≠ [] ∧ colon ∈ line ∧ result = .inr (total + (line.length + 2)))) := by
  unfold checkTrailer at h
  split at h
  next => cases h
  next hle =>
    refine ⟨Nat.le_of_not_lt hle,?_⟩
    split at h
    next hnil =>
      cases h
      exact .inl ⟨hnil,rfl⟩
    next hne =>
      split at h
      next => cases h
      next hcolon =>
        cases h
        exact .inr ⟨hne,not_not.mp hcolon,rfl⟩

def consumeTrailersBody (total : ℕ) : Reader (Unit ⊕ ℕ) := do
  let line ← readLine maxChunkLineBytes
  ofExcept (checkTrailer total line)

theorem ofExcept_eq_ok {ε σ α : Type} {x : Except ε α} {s s' : σ} {a : α}
    (h : (ofExcept x : EStateM ε σ α) s = .ok a s') : x = .ok a ∧ s' = s := by
  cases x with
  | ok b =>
    cases h
    exact ⟨rfl,rfl⟩
  | error e => cases h

theorem consumeTrailers_lowers : Lowers consumeTrailersBody (fun _ inbound => inbound.size) := by
  intro total inbound total' inbound' h
  unfold consumeTrailersBody at h
  simp only [bind,EStateM.bind] at h
  split at h
  next line inbound₁ hline =>
    have hsize := takeUntil_size hline
    rw [crlf_length] at hsize
    rw [(ofExcept_eq_ok h).2]
    simp only
    omega
  next => cases h

def consumeTrailers : Reader Unit := loopM consumeTrailersBody _ consumeTrailers_lowers 0

def checkSeparator (separator : Bytes) : Except IoError Unit :=
  if separator ≠ crlf then .error ⟨.invalidData,"HTTP chunk data was not followed by CRLF"⟩ else .ok ()

def readSeparator (separatorDue : Bool) : Reader Unit :=
  if separatorDue then do
    let separator ← readExactBuffered 2
    ofExcept (checkSeparator separator)
  else return ()

/-- The part of `read_chunked` between two chunks: the separator, the size line and,
behind the last chunk, the trailers. -/
def nextChunk (separatorDue : Bool) : Reader ℕ := do
  readSeparator separatorDue
  let line ← readLine maxChunkLineBytes
  let size ← ofExcept (parseChunkSize line)
  if size = 0 then
    consumeTrailers
    return 0
  else return size

structure ChunkState where
  remaining : ℕ
  separatorDue : Bool
  complete : Bool
  deriving DecidableEq, Repr

/-- A body whose mode is `BodyMode::Chunked`, the only one `read_chunked` is called on. -/
structure ChunkedBody extends Inbound where
  state : ChunkState
  deriving DecidableEq, Repr

def readChunkedBody (capacity : ℕ) (_ : Unit) : EStateM IoError ChunkedBody (Bytes ⊕ Unit) := fun body =>
  if body.state.complete then .ok (.inl []) body
  else if body.state.remaining = 0 then
    match nextChunk body.state.separatorDue body.toInbound with
    | .error error inbound => .error error ⟨inbound,body.state⟩
    | .ok size inbound =>
      if size = 0 then .ok (.inl []) ⟨inbound,0,false,true⟩
      else .ok (.inr ()) ⟨inbound,size,false,false⟩
  else
    match readBuffered (min capacity body.state.remaining) body.toInbound with
    | .error error inbound => .error error ⟨inbound,body.state⟩
    | .ok read inbound =>
      if read = [] then .error ⟨.unexpectedEof,"HTTP response ended in a chunk"⟩ ⟨inbound,body.state⟩
      else
        .ok (.inl read)
          ⟨inbound,body.state.remaining - read.length,body.state.remaining = read.length,false⟩

theorem readChunked_lowers (capacity : ℕ) : Lowers (readChunkedBody capacity)
    (fun _ body => if body.state.remaining = 0 then 1 else 0) := by
  intro _ body _ body' h
  unfold readChunkedBody at h
  split at h
  · cases h
  · split at h
    next hzero =>
      split at h
      · cases h
      · split at h
        · cases h
        next hne =>
          cases h
          simp [hzero,hne]
    next =>
      split at h
      · cases h
      · split at h
        · cases h
        · cases h

def readChunked (capacity : ℕ) : EStateM IoError ChunkedBody Bytes :=
  loopM (readChunkedBody capacity) _ (readChunked_lowers capacity) ()

inductive BodyMode
  | empty
  | contentLength (remaining : ℕ)
  | chunked (state : ChunkState)
  | eof
  deriving DecidableEq, Repr

structure ResponseBody extends Inbound where
  mode : BodyMode
  deriving DecidableEq, Repr

namespace ResponseBody

def isComplete (body : ResponseBody) : Bool :=
  match body.mode with
  | .empty => true
  | .contentLength remaining => remaining = 0
  | .chunked state => state.complete
  | .eof => false

def setReadTimeout (timeout : Option ℕ) : EStateM IoError ResponseBody Unit := fun body =>
  if body.isComplete ∨ body.buffered ≠ [] then .ok () body
  else
    match body.connection.setReadTimeout timeout with
    | .ok _ connection => .ok () { body with connection := connection }
    | .error error connection => .error error { body with connection := connection }

def read (capacity : ℕ) : EStateM IoError ResponseBody Bytes := fun body =>
  if capacity = 0 then .ok [] body
  else
    match body.mode with
    | .empty => .ok [] body
    | .eof =>
      match readBuffered capacity body.toInbound with
      | .ok read inbound => .ok read ⟨inbound,.eof⟩
      | .error error inbound => .error error ⟨inbound,.eof⟩
    | .contentLength remaining =>
      if remaining = 0 then .ok [] body
      else
        match readBuffered (min capacity remaining) body.toInbound with
        | .error error inbound => .error error ⟨inbound,.contentLength remaining⟩
        | .ok read inbound =>
          if read = [] then
            .error ⟨.unexpectedEof,"HTTP response ended before its Content-Length"⟩
              ⟨inbound,.contentLength remaining⟩
          else .ok read ⟨inbound,.contentLength (remaining - read.length)⟩
    | .chunked state =>
      match readChunked capacity ⟨body.toInbound,state⟩ with
      | .ok read body => .ok read ⟨body.toInbound,.chunked body.state⟩
      | .error error body => .error error ⟨body.toInbound,.chunked body.state⟩

end ResponseBody
end H12Tiny.Sync
