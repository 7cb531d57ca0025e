import H12Tiny.Sync.Framing

/-! # One read of a chunked body

All outcomes of `read_chunked` in terms of the mode and the wire before the call. The
framing between two chunks is read as a whole, and the mode changes only behind it:
an error in it leaves the mode as it was, whatever has been taken off the wire.
-/
namespace H12Tiny.Sync

def chunkClosed : IoError := ⟨.unexpectedEof,"HTTP response ended in a chunk"⟩

/-- The data of a chunk comes next, in the mode and on the wire given last. -/
inductive Opens (bound : Option ℕ) (state : ChunkState) (wire : Wire) : ChunkState → Wire → Prop
  | within (h : state.remaining ≠ 0) : Opens bound state wire state wire
  | next {size : ℕ} {rest : Wire} (h : state.remaining = 0)
      (hnext : Wire.nextChunk bound state.separatorDue wire = .ok size rest) (hsize : size ≠ 0) :
      Opens bound state wire ⟨size,false,false⟩ rest

inductive Reads (bound : Option ℕ) (capacity : ℕ) (state : ChunkState) (wire : Wire) :
    EStateM.Result IoError ChunkedBody Bytes → Prop
  | complete {inbound : Inbound} (hcomplete : state.complete = true) (hwire : inbound.wire = wire) :
      Reads bound capacity state wire (.ok [] ⟨inbound,state⟩)
  | framing {error : IoError} {inbound : Inbound} (hcomplete : state.complete = false)
      (hzero : state.remaining = 0)
      (hnext : Wire.nextChunk bound state.separatorDue wire = .error error inbound.wire) :
      Reads bound capacity state wire (.error error ⟨inbound,state⟩)
  | gaveUp {inbound : Inbound} (hcomplete : state.complete = false) (hzero : state.remaining = 0)
      (hbound : bound = none) : Reads bound capacity state wire (.error lineLimit ⟨inbound,state⟩)
  | finished {inbound : Inbound} (hcomplete : state.complete = false) (hzero : state.remaining = 0)
      (hnext : Wire.nextChunk bound state.separatorDue wire = .ok 0 inbound.wire) :
      Reads bound capacity state wire (.ok [] ⟨inbound,0,false,true⟩)
  | data {read : Bytes} {inbound : Inbound} {chunk : ChunkState} {rest : Wire}
      (hcomplete : state.complete = false) (hopens : Opens bound state wire chunk rest)
      (hrest : rest = inbound.wire.prepend read) (hne : read ≠ [])
      (hlen : read.length ≤ min capacity chunk.remaining) :
      Reads bound capacity state wire (.ok read
        ⟨inbound,chunk.remaining - read.length,chunk.remaining = read.length,false⟩)
  | closed {inbound : Inbound} {chunk : ChunkState} {rest : Wire}
      (hcomplete : state.complete = false) (hopens : Opens bound state wire chunk rest)
      (hrest : rest = ⟨[],[]⟩) (hwire : inbound.wire = rest) :
      Reads bound capacity state wire (.error chunkClosed ⟨inbound,chunk⟩)
  | failed {error : IoError} {inbound : Inbound} {chunk : ChunkState} {rest : Wire}
      (hcomplete : state.complete = false) (hopens : Opens bound state wire chunk rest)
      (hrest : rest = inbound.wire.fail error) :
      Reads bound capacity state wire (.error error ⟨inbound,chunk⟩)

section Read
variable {bound : Option ℕ} {capacity : ℕ}

/-- The data stage: once bytes of a chunk are due, one read of them ends the call. -/
theorem readChunked_data (hcap : 0 < capacity) {state chunk : ChunkState} {wire : Wire} {body : ChunkedBody}
    (hcomplete : state.complete = false) (hopens : Opens bound state wire body.state body.wire)
    (hchunk : body.state = chunk) (hdone : chunk.complete = false) (hpos : chunk.remaining ≠ 0) :
    Reads bound capacity state wire (readChunked capacity body) := by
  obtain ⟨inbound,chunk'⟩ := body
  dsimp only at hopens hchunk
  subst hchunk
  have hreceived := readBuffered_received (show 0 < min capacity chunk'.remaining by omega) inbound
  unfold readChunked
  generalize hr : readBuffered (min capacity chunk'.remaining) inbound = r at hreceived
  cases hreceived with
  | @closed inbound' h hwire =>
    have hbody : readChunkedBody capacity () ⟨inbound,chunk'⟩ = .error chunkClosed ⟨inbound',chunk'⟩ := by
      simp only [readChunkedBody,hdone,hpos,hr]
      rfl
    rw [loopM_of_error _ hbody]
    exact .closed hcomplete hopens h hwire
  | @failed error inbound' h =>
    have hbody : readChunkedBody capacity () ⟨inbound,chunk'⟩ = .error error ⟨inbound',chunk'⟩ := by
      simp only [readChunkedBody,hdone,hpos,hr]
      rfl
    rw [loopM_of_error _ hbody]
    exact .failed hcomplete hopens h
  | @some read inbound' h hne hlen =>
    have hbody : readChunkedBody capacity () ⟨inbound,chunk'⟩ = .ok (.inl read)
        ⟨inbound',chunk'.remaining - read.length,chunk'.remaining = read.length,false⟩ := by
      simp only [readChunkedBody,hdone,hpos,hr,hne]
      rfl
    rw [loopM_of_stop _ hbody]
    exact .data hcomplete hopens h hne hlen

theorem readChunked_reads (hcap : 0 < capacity) (hbound : Bounds maxChunkLineBytes bound) (body : ChunkedBody)
    (hcautious : bound = none ∨ (body.state.complete = false → body.state.remaining = 0 →
      ∀ rest, Wire.nextChunk bound body.state.separatorDue body.wire ≠ .error lineLimit rest)) :
    Reads bound capacity body.state body.wire (readChunked capacity body) := by
  obtain ⟨inbound,state⟩ := body
  cases hcomplete : state.complete with
  | true =>
    have hbody : readChunkedBody capacity () ⟨inbound,state⟩ = .ok (.inl []) ⟨inbound,state⟩ := by
      simp only [readChunkedBody,hcomplete,if_true]
    unfold readChunked
    rw [loopM_of_stop _ hbody]
    exact .complete hcomplete rfl
  | false =>
    by_cases hzero : state.remaining = 0
    · have hagree := nextChunk_simulates hbound state.separatorDue inbound inbound.wire rfl
      generalize hr : nextChunk state.separatorDue inbound = r at hagree
      generalize hw : Wire.nextChunk bound state.separatorDue inbound.wire = w at hagree hcautious
      cases hagree with
      | @ok size inbound' _ h =>
        cases h
        by_cases hsize : size = 0
        · subst hsize
          have hbody : readChunkedBody capacity () ⟨inbound,state⟩ = .ok (.inl []) ⟨inbound',0,false,true⟩ := by
            simp only [readChunkedBody,hcomplete,hzero,hr]
            rfl
          unfold readChunked
          rw [loopM_of_stop _ hbody]
          exact .finished hcomplete hzero hw
        · have hbody : readChunkedBody capacity () ⟨inbound,state⟩ =
              .ok (.inr ()) ⟨inbound',size,false,false⟩ := by
            simp only [readChunkedBody,hcomplete,hzero,hr,hsize]
            rfl
          have hnext : readChunked capacity ⟨inbound,state⟩ =
              readChunked capacity ⟨inbound',size,false,false⟩ := loopM_of_next _ hbody
          rw [hnext]
          exact readChunked_data hcap hcomplete (.next hzero hw hsize) rfl rfl hsize
      | @error error inbound' _ h =>
        cases h
        have hbody : readChunkedBody capacity () ⟨inbound,state⟩ = .error error ⟨inbound',state⟩ := by
          simp only [readChunkedBody,hcomplete,hzero,hr]
          rfl
        unfold readChunked
        rw [loopM_of_error _ hbody]
        exact .framing hcomplete hzero hw
      | @left error inbound' _ h =>
        obtain ⟨hnone,rfl⟩ := h
        have hbody : readChunkedBody capacity () ⟨inbound,state⟩ = .error lineLimit ⟨inbound',state⟩ := by
          simp only [readChunkedBody,hcomplete,hzero,hr]
          rfl
        unfold readChunked
        rw [loopM_of_error _ hbody]
        exact .gaveUp hcomplete hzero hnone
      | right h =>
        obtain ⟨hsome,rfl⟩ := h
        rcases hcautious with hnone | hne
        · exact absurd hnone hsome
        · exact absurd rfl (hne hcomplete hzero _)
    · exact readChunked_data hcap hcomplete (.within hzero) rfl hcomplete hzero

theorem read_chunked_ok (hcap : 0 < capacity) {inbound : Inbound} {state : ChunkState} {read : Bytes}
    {body : ResponseBody} (h : ResponseBody.read capacity ⟨inbound,.chunked state⟩ = .ok read body) :
    ∃ inbound' state', readChunked capacity ⟨inbound,state⟩ = .ok read ⟨inbound',state'⟩ ∧
      body = ⟨inbound',.chunked state'⟩ := by
  unfold ResponseBody.read at h
  rw [if_neg (by omega)] at h
  dsimp only at h
  split at h
  next hr =>
    cases h
    exact ⟨_,_,hr,rfl⟩
  next => cases h

theorem read_chunked_error (hcap : 0 < capacity) {inbound : Inbound} {state : ChunkState} {error : IoError}
    {body : ResponseBody} (h : ResponseBody.read capacity ⟨inbound,.chunked state⟩ = .error error body) :
    ∃ inbound' state', readChunked capacity ⟨inbound,state⟩ = .error error ⟨inbound',state'⟩ ∧
      body = ⟨inbound',.chunked state'⟩ := by
  unfold ResponseBody.read at h
  rw [if_neg (by omega)] at h
  dsimp only at h
  split at h
  next => cases h
  next hr =>
    cases h
    exact ⟨_,_,hr,rfl⟩

end Read

def lengthClosed : IoError := ⟨.unexpectedEof,"HTTP response ended before its Content-Length"⟩

inductive FixedReads (capacity remaining : ℕ) (wire : Wire) :
    EStateM.Result IoError ResponseBody Bytes → Prop
  | complete {inbound : Inbound} (hzero : remaining = 0) (hwire : inbound.wire = wire) :
      FixedReads capacity remaining wire (.ok [] ⟨inbound,.contentLength remaining⟩)
  | closed {inbound : Inbound} (hpos : remaining ≠ 0) (h : wire = ⟨[],[]⟩) (hwire : inbound.wire = wire) :
      FixedReads capacity remaining wire (.error lengthClosed ⟨inbound,.contentLength remaining⟩)
  | failed {error : IoError} {inbound : Inbound} (hpos : remaining ≠ 0) (h : wire = inbound.wire.fail error) :
      FixedReads capacity remaining wire (.error error ⟨inbound,.contentLength remaining⟩)
  | some {read : Bytes} {inbound : Inbound} (hpos : remaining ≠ 0) (h : wire = inbound.wire.prepend read)
      (hne : read ≠ []) (hlen : read.length ≤ min capacity remaining) :
      FixedReads capacity remaining wire (.ok read ⟨inbound,.contentLength (remaining - read.length)⟩)

theorem read_fixed {capacity : ℕ} (hcap : 0 < capacity) (inbound : Inbound) (remaining : ℕ) :
    FixedReads capacity remaining inbound.wire
      (ResponseBody.read capacity ⟨inbound,.contentLength remaining⟩) := by
  unfold ResponseBody.read
  rw [if_neg (by omega)]
  dsimp only
  split
  next hzero => exact .complete hzero rfl
  next hpos =>
    have hreceived := readBuffered_received (show 0 < min capacity remaining by omega) inbound
    generalize readBuffered (min capacity remaining) inbound = r at hreceived
    cases hreceived with
    | closed h hwire => exact .closed hpos h hwire
    | failed h => exact .failed hpos h
    | some h hne hlen =>
      dsimp only
      rw [if_neg hne]
      exact .some hpos h hne hlen

inductive EofReads (capacity : ℕ) (wire : Wire) : EStateM.Result IoError ResponseBody Bytes → Prop
  | closed {inbound : Inbound} (h : wire = ⟨[],[]⟩) (hwire : inbound.wire = wire) :
      EofReads capacity wire (.ok [] ⟨inbound,.eof⟩)
  | failed {error : IoError} {inbound : Inbound} (h : wire = inbound.wire.fail error) :
      EofReads capacity wire (.error error ⟨inbound,.eof⟩)
  | some {read : Bytes} {inbound : Inbound} (h : wire = inbound.wire.prepend read) (hne : read ≠ []) :
      EofReads capacity wire (.ok read ⟨inbound,.eof⟩)

theorem read_eof {capacity : ℕ} (hcap : 0 < capacity) (inbound : Inbound) :
    EofReads capacity inbound.wire (ResponseBody.read capacity ⟨inbound,.eof⟩) := by
  unfold ResponseBody.read
  rw [if_neg (by omega)]
  dsimp only
  have hreceived := readBuffered_received hcap inbound
  generalize readBuffered capacity inbound = r at hreceived
  cases hreceived with
  | closed h hwire => exact .closed h hwire
  | failed h => exact .failed h
  | some h hne _ => exact .some h hne

theorem read_complete {body : ResponseBody} (h : body.isComplete = true) (capacity : ℕ) :
    body.read capacity = .ok [] body := by
  obtain ⟨inbound,mode⟩ := body
  unfold ResponseBody.read
  split
  · rfl
  · cases mode with
    | empty => rfl
    | eof => cases h
    | contentLength remaining =>
      have hzero : remaining = 0 := of_decide_eq_true h
      dsimp only
      rw [if_pos hzero]
    | chunked state =>
      have hcomplete : state.complete = true := h
      have hbody : readChunkedBody capacity () ⟨inbound,state⟩ = .ok (.inl []) ⟨inbound,state⟩ := by
        simp only [readChunkedBody,hcomplete,if_true]
      have hread : readChunked capacity ⟨inbound,state⟩ = .ok [] ⟨inbound,state⟩ := loopM_of_stop _ hbody
      dsimp only
      rw [hread]

end H12Tiny.Sync
