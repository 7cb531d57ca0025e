import H12Tiny.Foundation.Loop
import H12Tiny.Foundation.Oneshot
import H12Tiny.Sync.Bytes

/-! # Protocol detection

`ReadVersion` and `Rewind` of the automatic server connection. A transport is the bytes
the peer sends before it closes its side, and what each poll does: it waits, fails, or
gives at least one byte while there are some and at most what the offered buffer holds.
The answers given so far are kept for the statements; the code does not read them. A
call of `poll_read` is modelled by the capacity of the buffer it offers and the bytes
put into it. The detector's memory has a length of its own and a counter of the bytes
in it that are initialized, and both outlive a poll.
-/
namespace H12Tiny.Server
open Sync (Bytes IoError)

def h2Preface : Bytes :=
  [80,82,73,32,42,32,72,84,84,80,47,50,46,48,13,10,13,10,83,77,13,10,13,10]

inductive Turn
  | pending
  | fail (error : IoError)
  | ready (more : ℕ)
  deriving DecidableEq, Repr

abbrev Answer := Poll (Except IoError Bytes)

def Answer.bytes : Answer → Bytes
  | .ready (.ok bytes) => bytes
  | _ => []

def received (answers : List Answer) : Bytes := answers.flatMap Answer.bytes

structure Transport where
  unread : Bytes
  turns : ℕ → Turn
  answers : List Answer

namespace Transport

def answer (io : Transport) (capacity : ℕ) : Answer :=
  match io.turns io.answers.length with
  | .pending => .pending
  | .fail error => .ready (.error error)
  | .ready more => .ready (.ok (io.unread.take (min (more + 1) capacity)))

def pollRead (capacity : ℕ) (io : Transport) : Answer × Transport :=
  (io.answer capacity,
    { io with unread := io.unread.drop (io.answer capacity).bytes.length,
              answers := io.answers ++ [io.answer capacity] })

theorem answer_prefix (io : Transport) (capacity : ℕ) : (io.answer capacity).bytes <+: io.unread := by
  unfold answer
  split
  · exact List.nil_prefix
  · exact List.nil_prefix
  · exact List.take_prefix _ _

theorem answer_length (io : Transport) (capacity : ℕ) : (io.answer capacity).bytes.length ≤ capacity := by
  unfold answer
  split
  · exact Nat.zero_le _
  · exact Nat.zero_le _
  · simp only [Answer.bytes,List.length_take]
    omega

/-- An answer without bytes to a buffer with room says that the peer closed its side. -/
theorem answer_nil {io : Transport} {capacity : ℕ} (hc : 0 < capacity)
    (h : io.answer capacity = .ready (.ok [])) : io.unread = [] := by
  unfold answer at h
  split at h
  · cases h
  · cases h
  · simp only [Poll.ready.injEq,Except.ok.injEq,List.take_eq_nil_iff] at h
    rcases h with h | h
    · omega
    · exact h

theorem pollRead_splits (io : Transport) (capacity : ℕ) :
    (io.answer capacity).bytes ++ (io.pollRead capacity).2.unread = io.unread :=
  List.prefix_iff_eq_append.mp (io.answer_prefix capacity)

end Transport

/-- A buffer with a counter of the bytes in it that are filled. -/
structure ReadBuf where
  raw : Bytes
  filled : ℕ

namespace ReadBuf

def bytes (buf : ReadBuf) : Bytes := buf.raw.take buf.filled

def remaining (buf : ReadBuf) : ℕ := buf.raw.length - buf.filled

def putSlice (slice : Bytes) (buf : ReadBuf) : ReadBuf where
  raw := buf.bytes ++ slice ++ buf.raw.drop (buf.filled + slice.length)
  filled := buf.filled + slice.length

theorem length_bytes {buf : ReadBuf} (h : buf.filled ≤ buf.raw.length) : buf.bytes.length = buf.filled := by
  rw [bytes,List.length_take]
  omega

theorem putSlice_bytes {buf : ReadBuf} (h : buf.filled ≤ buf.raw.length) (slice : Bytes) :
    (buf.putSlice slice).bytes = buf.bytes ++ slice := by
  have hlen : buf.filled + slice.length = (buf.bytes ++ slice).length := by
    rw [List.length_append,length_bytes h]
  rw [bytes,putSlice,hlen,List.take_left]

theorem putSlice_raw_length {buf : ReadBuf} {slice : Bytes} (h : buf.filled ≤ buf.raw.length)
    (hs : slice.length ≤ buf.remaining) : (buf.putSlice slice).raw.length = buf.raw.length := by
  unfold remaining at hs
  simp only [putSlice,List.length_append,List.length_drop,length_bytes h]
  omega

end ReadBuf

inductive Version
  | h1
  | h2
  deriving DecidableEq, Repr

structure Rewind where
  pre : Option Bytes
  inner : Transport

def Rewind.newBuffered (inner : Transport) (pre : Bytes) : Rewind := ⟨some pre,inner⟩

def Rewind.pollRead (capacity : ℕ) (rewind : Rewind) : Answer × Rewind :=
  match rewind.pre with
  | some (byte :: rest) =>
    let copyLen := min (byte :: rest).length capacity
    let left := (byte :: rest).drop copyLen
    (.ready (.ok ((byte :: rest).take copyLen)),
      { rewind with pre := if left = [] then none else some left })
  | _ =>
    ((rewind.inner.pollRead capacity).1,⟨none,(rewind.inner.pollRead capacity).2⟩)

/-- The future's own fields. The transport is there until the future completes. -/
structure ReadVersion where
  io : Transport
  buf : Bytes
  filled : ℕ
  version : Version
  cancelled : Bool

/-- The outcome of a poll: a future that has completed is not polled again. -/
inductive Polled
  | pending (next : ReadVersion)
  | ready (result : Except IoError (Version × Rewind))

/-- The memory is not initialized: its bytes are arbitrary. -/
def readVersion (io : Transport) (uninit : Bytes) : ReadVersion := ⟨io,uninit,0,.h2,false⟩

namespace ReadVersion

def cancel (this : ReadVersion) : ReadVersion := { this with cancelled := true }

def finish (this : ReadVersion) (buf : ReadBuf) : Polled :=
  .ready (.ok (this.version,Rewind.newBuffered this.io buf.bytes))

/-- One iteration of the loop of `poll`, on the future and the local buffer over its
memory. -/
def iterate (p : ReadVersion × ReadBuf) : Polled ⊕ ReadVersion × ReadBuf :=
  if p.2.filled < h2Preface.length then
    let io := (p.1.io.pollRead p.2.remaining).2
    match (p.1.io.pollRead p.2.remaining).1 with
    | .pending => .inl (.pending { p.1 with io := io, buf := p.2.raw })
    | .ready (.error error) => .inl (.ready (.error error))
    | .ready (.ok slice) =>
      let buf := p.2.putSlice slice
      let this := { p.1 with io := io, buf := buf.raw, filled := buf.filled }
      if buf.filled = p.2.filled ∨
          buf.bytes.drop p.2.filled ≠ (h2Preface.take buf.filled).drop p.2.filled then
        .inl (finish { this with version := .h1 } buf)
      else .inr (this,buf)
  else .inl (finish p.1 p.2)

theorem iterate_decreases : Decreases iterate (fun p => h2Preface.length - p.2.filled) := by
  rintro ⟨this,buf⟩ ⟨this',buf'⟩ h
  unfold iterate at h
  dsimp only at h ⊢
  split at h
  next hlt =>
    split at h
    · cases h
    · cases h
    next slice hslice =>
      split at h
      · cases h
      next hgo =>
        cases h
        simp only [ReadBuf.putSlice] at hgo ⊢
        omega
  · cases h

def cancelError : IoError := ⟨.interrupted,"HTTP protocol detection cancelled"⟩

def poll (this : ReadVersion) : Polled :=
  if this.cancelled then .ready (.error cancelError)
  else loop iterate _ iterate_decreases (this,⟨this.buf,this.filled⟩)

def polls : ℕ → ReadVersion → Polled
  | 0, this => .pending this
  | n + 1, this =>
    match this.poll with
    | .pending next => next.polls n
    | .ready result => .ready result

end ReadVersion

/-- Every poll of the transport was made while what it had given was a beginning of the
preface, and not all of it. -/
def Watched (answers : List Answer) : Prop :=
  ∀ before after, answers = before ++ after → after ≠ [] →
    received before <+: h2Preface ∧ received before ≠ h2Preface

theorem received_concat (answers : List Answer) (answer : Answer) :
    received (answers ++ [answer]) = received answers ++ answer.bytes := by
  simp [received]

theorem Watched.concat {answers : List Answer} (h : Watched answers) (answer : Answer)
    (hp : received answers <+: h2Preface) (hne : received answers ≠ h2Preface) :
    Watched (answers ++ [answer]) := by
  intro before after hsplit hafter
  rcases List.eq_nil_or_concat after with hnil | ⟨front,last,rfl⟩
  · exact absurd hnil hafter
  · rw [List.concat_eq_append,← List.append_assoc] at hsplit
    obtain ⟨hfront,-⟩ := List.append_inj' hsplit rfl
    by_cases hempty : front = []
    · rw [hempty,List.append_nil] at hfront
      rw [← hfront]
      exact ⟨hp,hne⟩
    · exact h before front hfront hempty

/-- The detector between two reads: its memory holds what the transport has given, and
that is a beginning of the preface. -/
structure Tracks (stream : Bytes) (this : ReadVersion) : Prop where
  memory : this.buf.length = h2Preface.length
  fits : this.filled ≤ h2Preface.length
  active : this.cancelled = false
  version : this.version = .h2
  seen : this.buf.take this.filled = received this.io.answers
  splits : received this.io.answers ++ this.io.unread = stream
  matched : received this.io.answers <+: h2Preface
  watched : Watched this.io.answers

/-- What the completed detector hands over. -/
structure Detected (stream : Bytes) (version : Version) (rewind : Rewind) : Prop where
  pre : rewind.pre = some (received rewind.inner.answers)
  splits : received rewind.inner.answers ++ rewind.inner.unread = stream
  few : (received rewind.inner.answers).length ≤ h2Preface.length
  watched : Watched rewind.inner.answers
  exact : version = .h2 ↔ h2Preface <+: stream

def Polled.Sound (stream : Bytes) : Polled → Prop
  | .pending next => Tracks stream next
  | .ready (.ok (version,rewind)) => Detected stream version rewind
  | .ready (.error _) => True

namespace Tracks
variable {stream : Bytes} {this : ReadVersion} (h : Tracks stream this)
include h

theorem filled_eq : (received this.io.answers).length = this.filled := by
  rw [← h.seen,List.length_take]
  have hm := h.memory
  have hf := h.fits
  omega

theorem received_ne (hlt : this.filled < h2Preface.length) : received this.io.answers ≠ h2Preface := by
  intro heq
  have hlen := h.filled_eq
  rw [heq] at hlen
  omega

theorem read_splits (capacity : ℕ) :
    received (this.io.pollRead capacity).2.answers ++ (this.io.pollRead capacity).2.unread = stream := by
  have hmore := this.io.pollRead_splits capacity
  rw [← h.splits,← hmore,← List.append_assoc,← received_concat]
  rfl

theorem read_watched (capacity : ℕ) (hlt : this.filled < h2Preface.length) :
    Watched (this.io.pollRead capacity).2.answers :=
  h.watched.concat _ h.matched (h.received_ne hlt)

theorem pending {capacity : ℕ} (hlt : this.filled < h2Preface.length)
    (hanswer : this.io.answer capacity = .pending) :
    Tracks stream { this with io := (this.io.pollRead capacity).2 } := by
  have hsame : received (this.io.pollRead capacity).2.answers = received this.io.answers := by
    rw [Transport.pollRead,received_concat,hanswer]
    exact List.append_nil _
  exact ⟨h.memory,h.fits,h.active,h.version,h.seen.trans hsame.symm,h.read_splits capacity,
    by rw [hsame]; exact h.matched,h.read_watched capacity hlt⟩

theorem read_buf {slice : Bytes} (hs : slice.length ≤ h2Preface.length - this.filled) :
    ((⟨this.buf,this.filled⟩ : ReadBuf).putSlice slice).bytes = received this.io.answers ++ slice ∧
      ((⟨this.buf,this.filled⟩ : ReadBuf).putSlice slice).raw.length = h2Preface.length := by
  have hfits : this.filled ≤ this.buf.length := by
    rw [h.memory]
    exact h.fits
  constructor
  · rw [ReadBuf.putSlice_bytes hfits,ReadBuf.bytes,h.seen]
  · rw [ReadBuf.putSlice_raw_length hfits,h.memory]
    rw [ReadBuf.remaining,h.memory]
    exact hs

end Tracks

/-- The comparison of the new bytes alone decides whether all bytes so far are a
beginning of the preface. -/
theorem matched_iff {seen slice : Bytes} (hseen : seen <+: h2Preface) :
    seen ++ slice <+: h2Preface ↔
      (seen ++ slice).drop seen.length = (h2Preface.take (seen ++ slice).length).drop seen.length := by
  obtain ⟨rest,hrest⟩ := hseen
  rw [List.drop_left,List.length_append,← hrest,List.take_length_add_append,List.drop_left,
    List.prefix_append_right_inj]
  constructor
  · intro hp
    exact List.prefix_iff_eq_take.mp hp
  · intro heq
    rw [heq]
    exact List.take_prefix _ _

/-- A beginning of the stream that is no beginning of the preface tells the two apart. -/
theorem not_preface {stream seen rest : Bytes} (hsplit : seen ++ rest = stream)
    (hs : seen.length ≤ h2Preface.length) (hseen : ¬ seen <+: h2Preface) : ¬ h2Preface <+: stream := by
  intro hp
  exact hseen (List.prefix_of_prefix_length_le ⟨rest,hsplit⟩ hp hs)

namespace ReadVersion
variable {stream : Bytes} {this : ReadVersion}

theorem finish_full (h : Tracks stream this) (hfull : ¬ this.filled < h2Preface.length) :
    (finish this ⟨this.buf,this.filled⟩).Sound stream := by
  have hlen := h.filled_eq
  have hall : received this.io.answers = h2Preface := by
    apply h.matched.eq_of_length_le
    omega
  refine ⟨congrArg some h.seen,h.splits,h.matched.length_le,h.watched,?_⟩
  rw [← h.splits,hall]
  exact iff_of_true h.version (List.prefix_append _ _)

section Read
variable {slice : Bytes}

def stored (this : ReadVersion) (slice : Bytes) : ReadVersion :=
  { this with
    io := (this.io.pollRead (h2Preface.length - this.filled)).2
    buf := ((⟨this.buf,this.filled⟩ : ReadBuf).putSlice slice).raw
    filled := this.filled + slice.length }

variable (h : Tracks stream this)
  (hanswer : this.io.answer (h2Preface.length - this.filled) = .ready (.ok slice))
include hanswer

theorem received_stored : received (stored this slice).io.answers = received this.io.answers ++ slice := by
  simp only [stored,Transport.pollRead,received_concat,hanswer,Answer.bytes]

theorem slice_length : slice.length ≤ h2Preface.length - this.filled := by
  have hroom := this.io.answer_length (h2Preface.length - this.filled)
  rw [hanswer] at hroom
  exact hroom

include h

theorem stored_bytes : (stored this slice).buf.take (stored this slice).filled =
    received (stored this slice).io.answers := by
  rw [received_stored hanswer]
  exact (h.read_buf (slice_length hanswer)).1

theorem stored_length : (received (stored this slice).io.answers).length ≤ h2Preface.length := by
  have hs := slice_length hanswer
  have hlen := h.filled_eq
  have hfits := h.fits
  rw [received_stored hanswer,List.length_append]
  omega

/-- The test of the loop: the read gave nothing, or not what the preface has there. -/
theorem diverges_iff :
    (this.filled + slice.length = this.filled ∨
      (received this.io.answers ++ slice).drop this.filled ≠
        (h2Preface.take (this.filled + slice.length)).drop this.filled) ↔
      slice = [] ∨ ¬ received (stored this slice).io.answers <+: h2Preface := by
  have hiff := @matched_iff _ slice h.matched
  rw [List.length_append,h.filled_eq] at hiff
  rw [received_stored hanswer,hiff,← List.length_eq_zero_iff]
  have hzero : this.filled + slice.length = this.filled ↔ slice.length = 0 := by omega
  rw [hzero]

theorem stored_diverged (hlt : this.filled < h2Preface.length)
    (hdiverges : slice = [] ∨ ¬ received (stored this slice).io.answers <+: h2Preface) :
    ¬ h2Preface <+: stream := by
  rcases hdiverges with hnil | hdiffers
  · -- The peer closed its side: the stream is what has been received, and too short.
    have hend := Transport.answer_nil (by omega) (hnil ▸ hanswer)
    intro hp
    have hlen := hp.length_le
    have hfilled := h.filled_eq
    rw [← h.splits,hend,List.append_nil,hfilled] at hlen
    omega
  · exact not_preface (h.read_splits _) (stored_length h hanswer) hdiffers

theorem stored_tracks (hlt : this.filled < h2Preface.length)
    (hmatched : received (stored this slice).io.answers <+: h2Preface) :
    Tracks stream (stored this slice) := by
  have hs := slice_length hanswer
  have hfits := h.fits
  refine ⟨(h.read_buf hs).2,?_,h.active,h.version,stored_bytes h hanswer,h.read_splits _,hmatched,
    h.read_watched _ hlt⟩
  change this.filled + slice.length ≤ h2Preface.length
  omega

theorem finish_stored (hlt : this.filled < h2Preface.length)
    (hdiverges : slice = [] ∨ ¬ received (stored this slice).io.answers <+: h2Preface) :
    (finish { stored this slice with version := .h1 }
      ((⟨this.buf,this.filled⟩ : ReadBuf).putSlice slice)).Sound stream := by
  refine ⟨congrArg some (stored_bytes h hanswer),h.read_splits _,stored_length h hanswer,
    h.read_watched _ hlt,?_⟩
  exact iff_of_false nofun (stored_diverged h hanswer hlt hdiverges)

theorem iterate_read (hlt : this.filled < h2Preface.length) :
    (slice = [] ∨ ¬ received (stored this slice).io.answers <+: h2Preface) ∧
      iterate (this,⟨this.buf,this.filled⟩) = .inl (finish { stored this slice with version := .h1 }
        ((⟨this.buf,this.filled⟩ : ReadBuf).putSlice slice)) ∨
    received (stored this slice).io.answers <+: h2Preface ∧
      iterate (this,⟨this.buf,this.filled⟩) =
        .inr (stored this slice,(⟨this.buf,this.filled⟩ : ReadBuf).putSlice slice) := by
  have hremaining : (⟨this.buf,this.filled⟩ : ReadBuf).remaining = h2Preface.length - this.filled := by
    rw [ReadBuf.remaining,h.memory]
  have hbytes := (h.read_buf (slice_length hanswer)).1
  have hfilled : ((⟨this.buf,this.filled⟩ : ReadBuf).putSlice slice).filled =
    this.filled + slice.length := rfl
  have hiff := diverges_iff h hanswer
  have hfirst : (this.io.pollRead (h2Preface.length - this.filled)).1 = .ready (.ok slice) := hanswer
  simp only [iterate,hlt,if_true,hremaining,hfirst,hbytes,hfilled,hiff]
  split
  next hdiverges => exact Or.inl ⟨hdiverges,rfl⟩
  next hgoes =>
    rw [not_or,not_not] at hgoes
    exact Or.inr ⟨hgoes.2,rfl⟩

end Read

/-- One iteration keeps the detector's invariant, and what it completes with is sound. -/
theorem iterate_sound (h : Tracks stream this) :
    (∀ r, iterate (this,⟨this.buf,this.filled⟩) = .inl r → r.Sound stream) ∧
    ∀ this' buf', iterate (this,⟨this.buf,this.filled⟩) = .inr (this',buf') →
      buf' = ⟨this'.buf,this'.filled⟩ ∧ Tracks stream this' := by
  by_cases hlt : this.filled < h2Preface.length
  · have hremaining : (⟨this.buf,this.filled⟩ : ReadBuf).remaining = h2Preface.length - this.filled := by
      rw [ReadBuf.remaining,h.memory]
    cases hanswer : this.io.answer (h2Preface.length - this.filled) with
    | pending =>
      have hfirst : (this.io.pollRead (h2Preface.length - this.filled)).1 = .pending := hanswer
      simp only [iterate,hlt,if_true,hremaining,hfirst]
      constructor
      · intro r hr
        cases hr
        exact h.pending hlt hanswer
      · intro _ _ hr
        cases hr
    | ready result =>
      cases result with
      | error error =>
        have hfirst : (this.io.pollRead (h2Preface.length - this.filled)).1 = .ready (.error error) :=
          hanswer
        simp only [iterate,hlt,if_true,hremaining,hfirst]
        constructor
        · intro r hr
          cases hr
          trivial
        · intro _ _ hr
          cases hr
      | ok slice =>
        rcases iterate_read h hanswer hlt with ⟨hdiverges,heq⟩ | ⟨hmatched,heq⟩
        · rw [heq]
          constructor
          · intro r hr
            cases hr
            exact finish_stored h hanswer hlt hdiverges
          · intro _ _ hr
            cases hr
        · rw [heq]
          constructor
          · intro _ hr
            cases hr
          · intro this' buf' hr
            cases hr
            exact ⟨rfl,stored_tracks h hanswer hlt hmatched⟩
  · simp only [iterate,hlt,if_false]
    constructor
    · intro r hr
      cases hr
      exact finish_full h hlt
    · intro _ _ hr
      cases hr

theorem poll_sound (h : Tracks stream this) : this.poll.Sound stream := by
  have hloop := loop_induction iterate_decreases
    (P := fun p r => p.2 = ⟨p.1.buf,p.1.filled⟩ → Tracks stream p.1 → r.Sound stream) ?_ ?_
    (this,⟨this.buf,this.filled⟩) rfl h
  · rw [poll,h.active]
    exact hloop
  · rintro ⟨this,buf⟩ r hr hbuf h
    dsimp only at hbuf h
    subst hbuf
    exact (iterate_sound h).1 r hr
  · rintro ⟨this,buf⟩ ⟨this',buf'⟩ r hr ih hbuf h
    dsimp only at hbuf h
    subst hbuf
    obtain ⟨hbuf,hnext⟩ := (iterate_sound h).2 this' buf' hr
    exact ih hbuf hnext

theorem polls_sound (n : ℕ) (h : Tracks stream this) : (this.polls n).Sound stream := by
  induction n generalizing this with
  | zero => exact h
  | succ n ih =>
    have hpoll := poll_sound h
    rw [polls]
    cases hp : this.poll with
    | pending next =>
      rw [hp] at hpoll
      exact ih hpoll
    | ready result =>
      rw [hp] at hpoll
      exact hpoll

end ReadVersion

theorem readVersion_tracks (stream : Bytes) (turns : ℕ → Turn) {uninit : Bytes}
    (hmemory : uninit.length = h2Preface.length) :
    Tracks stream (readVersion ⟨stream,turns,[]⟩ uninit) where
  memory := hmemory
  fits := Nat.zero_le _
  active := rfl
  version := rfl
  seen := rfl
  splits := rfl
  matched := List.nil_prefix
  watched := by
    intro before after hsplit hafter
    exact absurd (List.append_eq_nil_iff.mp hsplit.symm).2 hafter

namespace Rewind

def reads : List ℕ → Rewind → List Answer × Rewind
  | [], rewind => ([],rewind)
  | capacity :: capacities, rewind =>
    ((rewind.pollRead capacity).1 :: ((rewind.pollRead capacity).2.reads capacities).1,
      ((rewind.pollRead capacity).2.reads capacities).2)

def rest (rewind : Rewind) : Bytes := rewind.pre.getD [] ++ rewind.inner.unread

theorem pollRead_cases (rewind : Rewind) (capacity : ℕ) :
    (∃ pre, rewind.pre = some pre ∧ pre ≠ [] ∧
      (rewind.pollRead capacity).1 = .ready (.ok (pre.take (min pre.length capacity))) ∧
      (rewind.pollRead capacity).2.inner = rewind.inner ∧
      (rewind.pollRead capacity).2.pre.getD [] = pre.drop (min pre.length capacity)) ∨
    (rewind.pre.getD [] = [] ∧
      rewind.pollRead capacity =
        ((rewind.inner.pollRead capacity).1,⟨none,(rewind.inner.pollRead capacity).2⟩)) := by
  obtain ⟨pre,inner⟩ := rewind
  cases pre with
  | none => exact Or.inr ⟨rfl,rfl⟩
  | some pre =>
    cases pre with
    | nil => exact Or.inr ⟨rfl,rfl⟩
    | cons byte rest =>
      refine Or.inl ⟨byte :: rest,rfl,List.cons_ne_nil _ _,rfl,rfl,?_⟩
      simp only [pollRead]
      split
      next hnil => rw [hnil]; rfl
      next => rfl

theorem pollRead_splits (rewind : Rewind) (capacity : ℕ) :
    (rewind.pollRead capacity).1.bytes ++ (rewind.pollRead capacity).2.rest = rewind.rest := by
  rcases rewind.pollRead_cases capacity with ⟨pre,hpre,-,hanswer,hinner,hleft⟩ | ⟨hpre,heq⟩
  · rw [rest,rest,hanswer,hinner,hleft,hpre,← List.append_assoc]
    exact congrArg (· ++ rewind.inner.unread) (List.take_append_drop _ pre)
  · rw [rest,heq,rest,hpre]
    exact rewind.inner.pollRead_splits capacity

theorem pollRead_eof {rewind : Rewind} {capacity : ℕ} (hc : 0 < capacity)
    (h : (rewind.pollRead capacity).1 = .ready (.ok [])) : rewind.rest = [] := by
  rcases rewind.pollRead_cases capacity with ⟨pre,-,hne,hanswer,-,-⟩ | ⟨hpre,heq⟩
  · rw [hanswer,Poll.ready.injEq,Except.ok.injEq,List.take_eq_nil_iff] at h
    have hlen := List.length_pos_iff.mpr hne
    rcases h with h | h
    · omega
    · exact absurd h hne
  · rw [heq] at h
    rw [rest,hpre,Transport.answer_nil hc h]
    rfl

theorem pollRead_ready {rewind : Rewind} (hready : ∀ n, ∃ more, rewind.inner.turns n = .ready more)
    (capacity : ℕ) : ∃ bytes, (rewind.pollRead capacity).1 = .ready (.ok bytes) := by
  rcases rewind.pollRead_cases capacity with ⟨pre,-,-,hanswer,-,-⟩ | ⟨-,heq⟩
  · exact ⟨_,hanswer⟩
  · obtain ⟨more,hmore⟩ := hready rewind.inner.answers.length
    rw [heq]
    exact ⟨rewind.inner.unread.take (min (more + 1) capacity),by
      simp only [Transport.pollRead,Transport.answer,hmore]⟩

theorem pollRead_turns (rewind : Rewind) (capacity : ℕ) :
    (rewind.pollRead capacity).2.inner.turns = rewind.inner.turns := by
  rcases rewind.pollRead_cases capacity with ⟨pre,-,-,-,hinner,-⟩ | ⟨-,heq⟩
  · rw [hinner]
  · rw [heq]
    rfl

theorem reads_splits (capacities : List ℕ) (rewind : Rewind) :
    received (rewind.reads capacities).1 ++ (rewind.reads capacities).2.rest = rewind.rest := by
  induction capacities generalizing rewind with
  | nil => rfl
  | cons capacity capacities ih =>
    rw [reads,received,List.flatMap_cons,List.append_assoc]
    rw [← rewind.pollRead_splits capacity,← ih (rewind.pollRead capacity).2]
    rfl

/-- As many reads with room as there are bytes, and everything has been read. -/
theorem reads_all (capacities : List ℕ) (rewind : Rewind)
    (hready : ∀ n, ∃ more, rewind.inner.turns n = .ready more)
    (henough : rewind.rest.length ≤ capacities.countP (0 < ·)) :
    received (rewind.reads capacities).1 = rewind.rest := by
  induction capacities generalizing rewind with
  | nil =>
    rw [List.countP_nil,Nat.le_zero,List.length_eq_zero_iff] at henough
    rw [henough]
    rfl
  | cons capacity capacities ih =>
    have hsplit := rewind.pollRead_splits capacity
    have hlen := congrArg List.length hsplit
    rw [List.length_append] at hlen
    rw [List.countP_cons] at henough
    obtain ⟨bytes,hbytes⟩ := pollRead_ready hready capacity
    have hrest : received ((rewind.pollRead capacity).2.reads capacities).1 =
        (rewind.pollRead capacity).2.rest := by
      apply ih
      · rw [pollRead_turns]
        exact hready
      · by_cases hc : 0 < capacity
        · simp only [hc,decide_true,if_true] at henough
          by_cases hnil : bytes = []
          · have hend := pollRead_eof hc (hnil ▸ hbytes)
            rw [hend] at hlen
            simp only [List.length_nil] at hlen
            omega
          · have hpos : 0 < (rewind.pollRead capacity).1.bytes.length := by
              rw [hbytes]
              exact List.length_pos_iff.mpr hnil
            omega
        · simp only [hc,decide_false,Bool.false_eq_true,if_false] at henough
          omega
    rw [reads,received,List.flatMap_cons]
    rw [← hsplit,← hrest]
    rfl

end Rewind

theorem Detected.rest {stream : Bytes} {version : Version} {rewind : Rewind}
    (h : Detected stream version rewind) : rewind.rest = stream := by
  rw [Rewind.rest,h.pre]
  exact h.splits

/-- A schedule that does not fail and is not pending for ever. -/
structure Turn.Fair (turns : ℕ → Turn) : Prop where
  works : ∀ n error, turns n ≠ .fail error
  ready : ∀ n, ∃ m, n ≤ m ∧ ∃ more, turns m = .ready more

/-- A poll completes, or it has received more bytes, or it has only used up one turn
that was pending. -/
def Polled.Later (this : ReadVersion) : Polled → Prop
  | .pending next => next.io.turns = this.io.turns ∧ (this.filled < next.filled ∨
      this.filled = next.filled ∧ next.io.answers.length = this.io.answers.length + 1 ∧
        this.io.turns this.io.answers.length = .pending)
  | .ready result => ∃ found, result = .ok found

theorem Polled.Later.trans {this next : ReadVersion} {r : Polled} (h : r.Later next)
    (hturns : next.io.turns = this.io.turns) (hlt : this.filled < next.filled) : r.Later this := by
  cases r with
  | ready result => exact h
  | pending last =>
    obtain ⟨hlast,hgoes⟩ := h
    refine ⟨hlast.trans hturns,Or.inl ?_⟩
    rcases hgoes with hmore | ⟨hsame,-⟩ <;> omega

namespace ReadVersion

theorem iterate_later {this : ReadVersion} (buf : ReadBuf) (hbuf : buf.filled = this.filled)
    (hworks : ∀ n error, this.io.turns n ≠ .fail error) :
    (∀ r, iterate (this,buf) = .inl r → r.Later this) ∧
    ∀ this' buf', iterate (this,buf) = .inr (this',buf') →
      buf'.filled = this'.filled ∧ this'.io.turns = this.io.turns ∧ this.filled < this'.filled := by
  unfold iterate
  dsimp only
  split
  · cases hturn : this.io.turns this.io.answers.length with
    | pending =>
      have hanswer : (this.io.pollRead buf.remaining).1 = .pending := by
        simp only [Transport.pollRead,Transport.answer,hturn]
      simp only [hanswer]
      constructor
      · intro r hr
        cases hr
        exact ⟨rfl,Or.inr ⟨rfl,List.length_append,hturn⟩⟩
      · intro _ _ hr
        cases hr
    | fail error => exact absurd hturn (hworks _ error)
    | ready more =>
      have hanswer : (this.io.pollRead buf.remaining).1 =
          .ready (.ok (this.io.unread.take (min (more + 1) buf.remaining))) := by
        simp only [Transport.pollRead,Transport.answer,hturn]
      simp only [hanswer]
      split
      · constructor
        · intro r hr
          cases hr
          exact ⟨_,rfl⟩
        · intro _ _ hr
          cases hr
      next hgoes =>
        constructor
        · intro _ hr
          cases hr
        · intro this' buf' hr
          cases hr
          refine ⟨rfl,rfl,?_⟩
          simp only [ReadBuf.putSlice] at hgoes ⊢
          omega
  · constructor
    · intro r hr
      cases hr
      exact ⟨_,rfl⟩
    · intro _ _ hr
      cases hr

theorem poll_later {this : ReadVersion} (hactive : this.cancelled = false)
    (hworks : ∀ n error, this.io.turns n ≠ .fail error) : this.poll.Later this := by
  have hloop := loop_induction iterate_decreases
    (P := fun p r => p.2.filled = p.1.filled → (∀ n error, p.1.io.turns n ≠ .fail error) → r.Later p.1) ?_ ?_
    (this,⟨this.buf,this.filled⟩) rfl hworks
  · rw [poll,hactive]
    exact hloop
  · rintro ⟨this,buf⟩ r hr hbuf hworks
    exact (iterate_later buf hbuf hworks).1 r hr
  · rintro ⟨this,buf⟩ ⟨next,buf'⟩ r hr ih hbuf hworks
    obtain ⟨hbuf',hturns,hlt⟩ := (iterate_later buf hbuf hworks).2 next buf' hr
    have hnext := ih hbuf' (by rw [hturns]; exact hworks)
    exact hnext.trans hturns hlt

/-- The outer induction is on the bytes still missing from the preface, the inner one on
the turns up to the next that is ready. -/
theorem completes {stream : Bytes} {this : ReadVersion} (h : Tracks stream this)
    (hfair : Turn.Fair this.io.turns) :
    ∃ n version rewind, this.polls n = .ready (.ok (version,rewind)) := by
  induction hmissing : h2Preface.length - this.filled using Nat.strongRecOn generalizing this with
  | ind missing ih =>
    obtain ⟨m,hm,more,hready⟩ := hfair.ready this.io.answers.length
    induction hwait : m - this.io.answers.length using Nat.strongRecOn generalizing this with
    | ind wait ihwait =>
      have hlater := poll_later h.active hfair.works
      have hsound := poll_sound h
      cases hp : this.poll with
      | ready result =>
        rw [hp] at hlater
        obtain ⟨found,rfl⟩ := hlater
        exact ⟨1,found.1,found.2,by rw [polls,hp]⟩
      | pending next =>
        rw [hp] at hlater hsound
        obtain ⟨hturns,hgoes⟩ := hlater
        have hfits := hsound.fits
        have hnext : Turn.Fair next.io.turns := by
          rw [hturns]
          exact hfair
        rcases hgoes with hmore | ⟨hsame,hanswers,hpending⟩
        · obtain ⟨n,version,rewind,hn⟩ := ih _ (by omega) hsound hnext rfl
          exact ⟨n + 1,version,rewind,by rw [polls,hp]; exact hn⟩
        · have hne : m ≠ this.io.answers.length := by
            intro heq
            rw [← heq,hready] at hpending
            cases hpending
          obtain ⟨n,version,rewind,hn⟩ := ihwait (m - next.io.answers.length) (by omega) hsound hnext
            (by omega) (by omega) (by rw [hturns]; exact hready) rfl
          exact ⟨n + 1,version,rewind,by rw [polls,hp]; exact hn⟩

end ReadVersion

/-- Detection never waits for ever on a transport that does not: it completes. -/
theorem readVersion_completes (stream : Bytes) {turns : ℕ → Turn} (hfair : Turn.Fair turns) {uninit : Bytes}
    (hmemory : uninit.length = h2Preface.length) :
    ∃ n version rewind, (readVersion ⟨stream,turns,[]⟩ uninit).polls n = .ready (.ok (version,rewind)) :=
  ReadVersion.completes (readVersion_tracks stream turns hmemory) hfair

/-- Detection is exact and loses nothing: the version tells whether the stream begins with
the preface; at most its length has been read, and nothing behind the first byte that
differs; and the reads of the rewound connection give the stream from its beginning,
report its end only there, and get there. -/
theorem detection_exact {stream : Bytes} {turns : ℕ → Turn} {uninit : Bytes}
    (hmemory : uninit.length = h2Preface.length) {n : ℕ} {version : Version} {rewind : Rewind}
    (h : (readVersion ⟨stream,turns,[]⟩ uninit).polls n = .ready (.ok (version,rewind))) :
    (version = .h2 ↔ h2Preface <+: stream) ∧
    received rewind.inner.answers ++ rewind.inner.unread = stream ∧
    (received rewind.inner.answers).length ≤ h2Preface.length ∧
    Watched rewind.inner.answers ∧
    ∀ capacities : List ℕ,
      received (rewind.reads capacities).1 ++ (rewind.reads capacities).2.rest = stream ∧
      (∀ capacity, 0 < capacity → ((rewind.reads capacities).2.pollRead capacity).1 = .ready (.ok []) →
        received (rewind.reads capacities).1 = stream) ∧
      ((∀ k, ∃ more, rewind.inner.turns k = .ready more) → stream.length ≤ capacities.countP (0 < ·) →
        received (rewind.reads capacities).1 = stream) := by
  have hsound := ReadVersion.polls_sound n (readVersion_tracks stream turns hmemory)
  rw [h] at hsound
  refine ⟨hsound.exact,hsound.splits,hsound.few,hsound.watched,?_⟩
  intro capacities
  have hsplit := rewind.reads_splits capacities
  rw [hsound.rest] at hsplit
  refine ⟨hsplit,?_,?_⟩
  · intro capacity hc heof
    rw [Rewind.pollRead_eof hc heof,List.append_nil] at hsplit
    exact hsplit
  · intro hready henough
    have hall := Rewind.reads_all capacities rewind hready
    rw [hsound.rest] at hall
    exact hall henough

/-- Four bytes, then a pause, then as much as fits. -/
def halting : ℕ → Turn
  | 0 => .ready 3
  | 1 => .pending
  | _ => .ready 99

theorem detection_exact_halting :
    (∃ rewind, (readVersion ⟨h2Preface ++ [0,0],halting,[]⟩ (List.replicate 24 7)).polls 2 =
        .ready (.ok (.h2,rewind)) ∧
      received (rewind.reads [0,20,0,20,20]).1 = h2Preface ++ [0,0]) ∧
    ∃ rewind, (readVersion ⟨[80,82,73,32,47],halting,[]⟩ (List.replicate 24 7)).polls 2 =
        .ready (.ok (.h1,rewind)) ∧
      received (rewind.reads [1,9,9]).1 = [80,82,73,32,47] := by
  have hprior : (readVersion ⟨h2Preface ++ [0,0],halting,[]⟩ (List.replicate 24 7)).polls 2 =
      .ready (.ok (.h2,⟨some h2Preface,⟨[0,0],halting,
        [.ready (.ok [80,82,73,32]),.pending,.ready (.ok (h2Preface.drop 4))]⟩⟩)) := rfl
  have hplain : (readVersion ⟨[80,82,73,32,47],halting,[]⟩ (List.replicate 24 7)).polls 2 =
      .ready (.ok (.h1,⟨some [80,82,73,32,47],⟨[],halting,
        [.ready (.ok [80,82,73,32]),.pending,.ready (.ok [47])]⟩⟩)) := rfl
  have hmemory : (List.replicate 24 (7 : UInt8)).length = h2Preface.length := rfl
  refine ⟨⟨_,hprior,?_⟩,_,hplain,?_⟩
  · exact ((detection_exact hmemory hprior).2.2.2.2 [0,20,0,20,20]).2.1 1 Nat.one_pos rfl
  · exact ((detection_exact hmemory hplain).2.2.2.2 [1,9,9]).2.1 1 Nat.one_pos rfl

end H12Tiny.Server
