import H12Tiny.Util.Bodies

/-! # Bodies that are read from a reader

`ReaderStream` and the body that `stream_body` makes of it. A reader fills a buffer of the
chunk size with a number of bytes, which is zero at its end. It is not polled again after
its end or an error. A buffer larger than the largest `isize` is a panic, so a stream is a
body only with a chunk size up to it. Collected under an idle timeout, the body gives the
bytes of the reader exactly if the reader comes to its end with them within the limit and
without a pause that reaches the timeout.
-/
namespace H12Tiny.Util
open Sync (Bytes)

/-- A reader puts no more into a buffer than the buffer holds. -/
structure Reader (σ E : Type) where
  pollRead : ℕ → Source σ (Except E Bytes)
  bounded : ∀ {capacity now : ℕ} {s : σ} {bytes : Bytes},
    (pollRead capacity now s).1 = .ready (.ok bytes) → bytes.length ≤ capacity

structure ReaderStream (σ : Type) where
  reader : σ
  chunkSize : ℕ
  done : Bool

namespace ReaderStream
variable {σ E : Type}

def new (reader : σ) : ReaderStream σ := ⟨reader,16384,false⟩

def withChunkSize (self : ReaderStream σ) (chunkSize : ℕ) : ReaderStream σ :=
  { self with chunkSize := max chunkSize 1 }

/-- What the stream makes of a read into its buffer. -/
def read (reader : Reader σ E) (now : ℕ) (self : ReaderStream σ) :
    Poll (Option (Except E Bytes)) × ReaderStream σ :=
  match reader.pollRead self.chunkSize now self.reader with
  | (.pending,reader) => (.pending,{ self with reader })
  | (.ready (.ok []),reader) => (.ready none,{ self with reader, done := true })
  | (.ready (.ok (byte :: bytes)),reader) => (.ready (some (.ok (byte :: bytes))),{ self with reader })
  | (.ready (.error error),reader) => (.ready (some (.error error)),{ self with reader, done := true })

/-- It has no answer if the buffer cannot be made. -/
def pollNext (reader : Reader σ E) (now : ℕ) (self : ReaderStream σ) :
    Option (Poll (Option (Except E Bytes)) × ReaderStream σ) :=
  if self.done then some (.ready none,self)
  else if isizeMax < self.chunkSize then none
  else some (read reader now self)

section Polling
variable {reader : Reader σ E} {now : ℕ} {self : ReaderStream σ}

theorem read_chunkSize : (read reader now self).2.chunkSize = self.chunkSize := by
  unfold read
  rcases reader.pollRead self.chunkSize now self.reader with ⟨(error | _ | ⟨byte,bytes⟩) | _,next⟩ <;> rfl

theorem pollNext_open (hdone : self.done = false) (hfits : self.chunkSize ≤ isizeMax) :
    pollNext reader now self = some (read reader now self) := by
  simp [pollNext,hdone,Nat.not_lt.mpr hfits]

theorem pollNext_isSome (hfits : self.chunkSize ≤ isizeMax) : (pollNext reader now self).isSome = true := by
  cases hdone : self.done with
  | true => simp [pollNext,hdone]
  | false => rw [pollNext_open hdone hfits,Option.isSome_some]

theorem pollNext_chunkSize (hfits : self.chunkSize ≤ isizeMax)
    {polled : Poll (Option (Except E Bytes)) × ReaderStream σ} (h : polled ∈ pollNext reader now self) :
    polled.2.chunkSize ≤ isizeMax := by
  cases hdone : self.done with
  | true =>
    simp only [pollNext,hdone,if_true,Option.mem_def] at h
    cases h
    exact hfits
  | false =>
    rw [pollNext_open hdone hfits] at h
    cases h
    exact read_chunkSize.trans_le hfits

end Polling
end ReaderStream

/-- A stream whose buffers can be made. -/
structure BufferedStream (σ : Type) extends ReaderStream σ where
  fits : chunkSize ≤ isizeMax

section Body
variable {σ E : Type}

theorem BufferedStream.eq_of_stream {first second : BufferedStream σ}
    (h : first.toReaderStream = second.toReaderStream) : first = second := by
  cases first
  cases second
  cases h
  rfl

def BufferedStream.pollNext (reader : Reader σ E) : Source (BufferedStream σ) (Option (Except E Bytes)) :=
  fun now self =>
    let polled := (self.toReaderStream.pollNext reader now).get (ReaderStream.pollNext_isSome self.fits)
    (polled.1,⟨polled.2,ReaderStream.pollNext_chunkSize self.fits (Option.get_mem _)⟩)

theorem BufferedStream.pollNext_open {reader : Reader σ E} {now : ℕ} {self : BufferedStream σ}
    (hdone : self.done = false) : (pollNext reader now self).1 = (self.read reader now).1 ∧
      (pollNext reader now self).2.toReaderStream = (self.read reader now).2 := by
  simp only [pollNext,ReaderStream.pollNext_open hdone self.fits,Option.get_some,and_self]

def streamBody (stream : Source σ (Option (Except E Bytes))) : Body σ E :=
  stream.map (Option.map (Except.map Frame.data))

def readerBody (reader : Reader σ E) : Body (BufferedStream σ) E := streamBody (BufferedStream.pollNext reader)

def frameOf : Except E Bytes → Option (Except E Frame)
  | .ok [] => none
  | .ok (byte :: bytes) => some (.ok (.data (byte :: bytes)))
  | .error error => some (.error error)

def readBytes : Except E Bytes → Bytes
  | .ok bytes => bytes
  | .error _ => []

inductive Opens : Poll (Except E Bytes) → Prop
  | pending : Opens .pending
  | bytes (byte : UInt8) (bytes : Bytes) : Opens (.ready (.ok (byte :: bytes)))

theorem Opens.frame {read : Poll (Except E Bytes)} (h : Opens read) :
    (read = .pending ∧ read.map frameOf = .pending) ∨
      ∃ data, read.map frameOf = .ready (some (.ok (.data data))) := by
  cases h with
  | pending => exact .inl ⟨rfl,rfl⟩
  | bytes byte bytes => exact .inr ⟨_,rfl⟩

theorem opens_of_frame {read : Poll (Except E Bytes)}
    (h : read.map frameOf = .pending ∨ ∃ frame, read.map frameOf = .ready (some (.ok frame))) : Opens read := by
  rcases read with (error | _ | ⟨byte,bytes⟩) | _
  · simp [Poll.map,frameOf] at h
  · simp [Poll.map,frameOf] at h
  · exact .bytes byte bytes
  · exact .pending

theorem read_of_end {read : Poll (Except E Bytes)} (h : read.map frameOf = .ready none) :
    read = .ready (.ok []) := by
  rcases read with (error | _ | ⟨byte,bytes⟩) | _
  · simp [Poll.map,frameOf] at h
  · rfl
  · simp [Poll.map,frameOf] at h
  · cases h

end Body

section Open
variable {σ E : Type} (reader : Reader σ E) (schedule : Schedule) (s : σ) (capacity : ℕ)

def readAt (n : ℕ) : Poll (Except E Bytes) := (reader.pollRead capacity).answerAt schedule s n

def content (n : ℕ) : Bytes := ((reader.pollRead capacity).yields schedule s n).flatMap readBytes

variable {reader schedule s capacity} {n : ℕ}

theorem readerBody_answer (now : ℕ) (r : σ) (fits : capacity ≤ isizeMax) :
    (readerBody reader now ⟨⟨r,capacity,false⟩,fits⟩).1 = (reader.pollRead capacity now r).1.map frameOf := by
  unfold readerBody streamBody Source.map
  rw [(BufferedStream.pollNext_open rfl).1]
  unfold ReaderStream.read
  dsimp only
  rcases reader.pollRead capacity now r with ⟨(error | _ | ⟨byte,bytes⟩) | _,next⟩ <;> rfl

theorem readerBody_opens {now : ℕ} {r : σ} (fits : capacity ≤ isizeMax)
    (h : Opens (reader.pollRead capacity now r).1) :
    (readerBody reader now ⟨⟨r,capacity,false⟩,fits⟩).2 =
      ⟨⟨(reader.pollRead capacity now r).2,capacity,false⟩,fits⟩ := by
  apply BufferedStream.eq_of_stream
  unfold readerBody streamBody Source.map
  rw [(BufferedStream.pollNext_open rfl).2]
  unfold ReaderStream.read
  dsimp only
  rcases hread : reader.pollRead capacity now r with ⟨answer,next⟩
  rw [hread] at h
  cases h <;> rfl

variable (fits : capacity ≤ isizeMax)
include fits

theorem stateAt_open (h : ∀ k < n, Opens (readAt reader schedule s capacity k)) :
    (readerBody reader).stateAt schedule ⟨⟨s,capacity,false⟩,fits⟩ n =
      ⟨⟨(reader.pollRead capacity).stateAt schedule s n,capacity,false⟩,fits⟩ := by
  induction n with
  | zero => rfl
  | succ n ih =>
    have hn := h n (Nat.lt_succ_self n)
    rw [Source.stateAt_succ,ih fun k hk => h k (Nat.lt_succ_of_lt hk)]
    exact readerBody_opens fits hn

theorem answerAt_open (h : ∀ k < n, Opens (readAt reader schedule s capacity k)) :
    (readerBody reader).answerAt schedule ⟨⟨s,capacity,false⟩,fits⟩ n =
      (readAt reader schedule s capacity n).map frameOf := by
  unfold Source.answerAt
  rw [stateAt_open fits h]
  exact readerBody_answer _ _ fits

omit fits in
theorem content_succ (n : ℕ) : content reader schedule s capacity (n + 1) =
    content reader schedule s capacity n ++ (readAt reader schedule s capacity n).toList.flatMap readBytes :=
  List.flatMap_append ..

omit fits in
theorem content_length_mono {m : ℕ} (h : m ≤ n) :
    (content reader schedule s capacity m).length ≤ (content reader schedule s capacity n).length := by
  induction n, h using Nat.le_induction with
  | base => exact Nat.le_refl _
  | succ n _ ih =>
    rw [content_succ,List.length_append]
    exact Nat.le_add_right_of_le ih

theorem delivered_open (h : ∀ k < n, Opens (readAt reader schedule s capacity k)) :
    delivered (readerBody reader) schedule ⟨⟨s,capacity,false⟩,fits⟩ n = content reader schedule s capacity n := by
  induction n with
  | zero => rfl
  | succ n ih =>
    have hread : ∀ read : Poll (Except E Bytes),
        (dataOf (read.map frameOf).toList.reduceOption).flatten = read.toList.flatMap readBytes := by
      rintro ((error | _ | ⟨byte,bytes⟩) | _) <;> rfl
    have hbefore : ∀ k < n, Opens (readAt reader schedule s capacity k) := fun k hk => h k (Nat.lt_succ_of_lt hk)
    rw [delivered_succ,ih hbefore,answerAt_open fits hbefore,hread,content_succ]

omit fits in
/-- The last instant before a read at which bytes came, or the start. -/
def lastRead (reader : Reader σ E) (schedule : Schedule) (s : σ) (capacity n : ℕ) : ℕ :=
  schedule.lastBefore (fun k => (readAt reader schedule s capacity k).isReady) n

theorem lastFrame_open (h : ∀ k < n, Opens (readAt reader schedule s capacity k)) :
    lastFrame (readerBody reader) schedule ⟨⟨s,capacity,false⟩,fits⟩ n = lastRead reader schedule s capacity n := by
  apply Schedule.lastBefore_congr
  intro k hk
  have hframe : ∀ {read : Poll (Except E Bytes)}, Opens read → isFrame (read.map frameOf) = read.isReady := by
    rintro _ (_ | ⟨byte,bytes⟩) <;> rfl
  rw [answerAt_open fits fun j hj => h j (hj.trans hk)]
  exact hframe (h k hk)

section Goes
variable {idle limit : ℕ}

theorem opens_of_goes (h : ∀ k < n, Goes (readerBody reader) schedule ⟨⟨s,capacity,false⟩,fits⟩ idle limit k) :
    ∀ k < n, Opens (readAt reader schedule s capacity k) := by
  intro k
  induction k using Nat.strongRecOn with
  | ind k ih =>
    intro hk
    have hanswer := answerAt_open fits fun j hj => ih j hj (hj.trans hk)
    apply opens_of_frame
    rw [← hanswer]
    cases h k hk with
    | waits hpending _ => exact .inl hpending
    | trailers htrailers => exact .inr ⟨_,htrailers⟩
    | data hdata _ => exact .inr ⟨_,hdata⟩

/-- A read that the timeout bears and the limit allows does not end the collection. -/
theorem not_ends_of_opens {m : ℕ} {result : Option (Except (BodyCollectionError (IdleTimeoutError E)) Bytes)}
    (hopens : ∀ k < m, Opens (readAt reader schedule s capacity k)) (hn : n < m)
    (hpause : readAt reader schedule s capacity n = .pending →
      schedule.instant n < lastRead reader schedule s capacity n + idle)
    (hheld : Held limit (content reader schedule s capacity m)) :
    ¬ Ends (readerBody reader) schedule ⟨⟨s,capacity,false⟩,fits⟩ idle limit n result := by
  have hbefore : ∀ k < n, Opens (readAt reader schedule s capacity k) := fun k hk => hopens k (hk.trans hn)
  have hanswer := answerAt_open fits hbefore
  obtain ⟨hlimit,hfits⟩ := hheld
  intro hends
  rcases (hopens n hn).frame with ⟨hread,hframe⟩ | ⟨data,hframe⟩
  · rw [hframe] at hanswer
    cases hends with
    | complete h => cases hanswer.symm.trans h
    | failed h => cases hanswer.symm.trans h
    | exceeded h _ => cases hanswer.symm.trans h
    | outgrown h _ _ => cases hanswer.symm.trans h
    | stalled _ hidle =>
      rw [lastFrame_open fits hbefore] at hidle
      exact absurd (hpause hread) (Nat.not_lt.mpr hidle)
  · have hmono : (content reader schedule s capacity (n + 1)).length ≤
        (content reader schedule s capacity m).length := content_length_mono hn
    have hdelivered := delivered_open fits (n := n + 1) fun k hk => hopens k (by omega)
    rw [hframe] at hanswer
    cases hends with
    | complete h => cases hanswer.symm.trans h
    | failed h => cases hanswer.symm.trans h
    | stalled h _ => cases hanswer.symm.trans h
    | exceeded _ hexceeds =>
      rw [hdelivered] at hexceeds
      omega
    | outgrown _ hlong _ =>
      rw [hdelivered] at hlong
      omega

end Goes
end Open

section Collected
variable {σ E : Type} (reader : Reader σ E) (schedule : Schedule) (s : σ) {capacity : ℕ} (fits : capacity ≤ isizeMax)
  (idle limit n : ℕ) (bytes : Bytes)

/-- The reader comes to its end with these bytes, and no pause before has reached the timeout. -/
def ReadsAll (m capacity : ℕ) : Prop :=
  readAt reader schedule s capacity m = .ready (.ok []) ∧
    (∀ k < m, Opens (readAt reader schedule s capacity k)) ∧
    (∀ k < m, readAt reader schedule s capacity k = .pending →
      schedule.instant k < lastRead reader schedule s capacity k + idle) ∧
    content reader schedule s capacity m = bytes

theorem stream_collected :
    (collectBytesLimited (IdleTimeoutBody.pollFrame (readerBody reader)) (IdleTimeoutBody.sizeHint fun _ => .default)
        limit).resolve schedule (.new (.new schedule.start ⟨⟨s,capacity,false⟩,fits⟩ idle)) n =
        .ready (some (.ok bytes)) ↔
      (∃ m < n, ReadsAll reader schedule s idle bytes m capacity) ∧ Held limit bytes := by
  have hcapacity : initialCapacity .default limit ≤ isizeMax := Nat.zero_le isizeMax
  have hrun := collect_run (readerBody reader) schedule ⟨⟨s,capacity,false⟩,fits⟩ idle (fun _ => .default) hcapacity n
  constructor
  · intro hresolve
    rcases hrun with ⟨hpending,-,-⟩ | ⟨m,hm,result,hready,hends,⟨-,hheld⟩,hgoes⟩
    · cases hpending.symm.trans hresolve
    · cases hready.symm.trans hresolve
      have hopens := opens_of_goes fits hgoes
      have hcontent := delivered_open fits hopens
      have hanswer := answerAt_open fits hopens
      cases hends with
      | complete hnone =>
        refine ⟨⟨m,hm,?_,hopens,?_,hcontent.symm⟩,hheld⟩
        · exact read_of_end (hanswer.symm.trans hnone)
        · intro k hk hread
          have hbefore : ∀ j < k, Opens (readAt reader schedule s capacity j) := fun j hj => hopens j (hj.trans hk)
          have hpending := answerAt_open fits hbefore
          rw [hread] at hpending
          rw [← lastFrame_open fits hbefore]
          exact (hgoes k hk).idle_of_pending hpending
  · rintro ⟨⟨m,hm,hend,hopens,hpause,rfl⟩,hheld⟩
    have hnone := answerAt_open fits hopens
    rw [hend] at hnone
    rcases hrun with ⟨-,-,hgoes⟩ | ⟨m',hm',result,hready,hends,-,hgoes⟩
    · exact absurd (hgoes m hm) (not_goes_of_end hnone)
    · rcases Nat.lt_trichotomy m' m with hlt | rfl | hlt
      · exact absurd hends (not_ends_of_opens fits hopens hlt (hpause m' hlt) hheld)
      · rw [hready,hends.of_end hnone,delivered_open fits hopens]
      · exact absurd (hgoes m hlt) (not_goes_of_end hnone)

end Collected

/-- A reader that is collected through an idle timeout gives exactly the bytes of the reader,
and does so exactly if the reader comes to its end, the bytes are within the limit and what
a buffer can hold, and no poll before the end finds a pause that has reached the timeout.
With a chunk size that is larger than a buffer can be every poll of the stream panics. -/
theorem reader_collected {σ E : Type} (reader : Reader σ E) (schedule : Schedule) (s : σ)
    (chunkSize idle limit n : ℕ) (bytes : Bytes) :
    let stream := (ReaderStream.new s).withChunkSize chunkSize
    (isizeMax < chunkSize → ∀ now, stream.pollNext reader now = none) ∧
    ∀ fits : stream.chunkSize ≤ isizeMax,
      (collectBytesLimited (IdleTimeoutBody.pollFrame (readerBody reader))
          (IdleTimeoutBody.sizeHint fun _ => .default) limit).resolve schedule
          (.new (.new schedule.start ⟨stream,fits⟩ idle)) n = .ready (some (.ok bytes)) ↔
        (∃ m < n, ReadsAll reader schedule s idle bytes m stream.chunkSize) ∧ Held limit bytes := by
  intro stream
  constructor
  · intro hlong now
    have hcapacity : isizeMax < stream.chunkSize := hlong.trans_le (Nat.le_max_left chunkSize 1)
    exact if_pos hcapacity
  · intro fits
    exact stream_collected reader schedule s fits idle limit n bytes

/-- A file in memory. -/
def fileReader : Reader Bytes Empty where
  pollRead capacity _ file := (.ready (.ok (file.take capacity)),file.drop capacity)
  bounded h := by
    cases h
    exact List.length_take_le _ _

theorem reader_collected_file :
    (collectBytesLimited (IdleTimeoutBody.pollFrame (readerBody fileReader))
        (IdleTimeoutBody.sizeHint fun _ => .default) 3).resolve instantly
        (.new (.new instantly.start ⟨(ReaderStream.new [1,2,3]).withChunkSize 2,by decide⟩ 5)) 3 =
      .ready (some (.ok [1,2,3])) := by
  refine ((reader_collected fileReader instantly [1,2,3] 2 5 3 3 [1,2,3]).2 (by decide)).mpr ⟨⟨2,?_,?_⟩,?_⟩
  · decide
  · refine ⟨rfl,?_,?_,rfl⟩
    · rintro (_ | _ | k) hk
      · exact .bytes 1 [2]
      · exact .bytes 3 []
      · omega
    · rintro (_ | _ | k) hk hread
      · cases hread
      · cases hread
      · omega
  · exact ⟨by decide,by decide⟩

end H12Tiny.Util
