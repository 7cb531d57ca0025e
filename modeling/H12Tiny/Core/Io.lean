import H12Tiny.Foundation.Polled
import H12Tiny.Sync.Bytes

/-! # The adapters between the two kinds of streams

`FuturesIo` makes a stream of Hyper out of one of futures-io, and `HyperIo` the reverse. A
reader of futures-io is handed initialized bytes and says how many of them it has read; it
may say anything. A reader of Hyper is handed a buffer with storage that need not be
initialized, of which it fills a part. The unsafe `advance` has no result where it would
reach beyond the initialized bytes. Writes are handed on as they are and left out.
-/
namespace H12Tiny.Core
open Sync (Bytes IoError)

/-- The filled bytes, the initialized ones behind them, and how much storage is behind both. -/
structure ReadBuf where
  filled : Bytes
  spare : Bytes
  uninit : ℕ

namespace ReadBuf
variable (self : ReadBuf)

def new (buf : Bytes) : ReadBuf := ⟨[],buf,0⟩

def remaining : ℕ := self.spare.length + self.uninit

def capacity : ℕ := self.filled.length + self.remaining

def initializeUnfilled : ReadBuf := ⟨self.filled,self.spare ++ List.replicate self.uninit 0,0⟩

def advance (n : ℕ) : Option ReadBuf :=
  if n ≤ self.spare.length then some ⟨self.filled ++ self.spare.take n,self.spare.drop n,self.uninit⟩ else none

/-- The same storage with more bytes filled, none of them changed, and no less initialized. -/
structure Extends (buf buf' : ReadBuf) : Prop where
  filled : buf.filled <+: buf'.filled
  capacity : buf'.capacity = buf.capacity
  uninit : buf'.uninit ≤ buf.uninit

end ReadBuf

/-- A reader of futures-io. It stays within the bytes that it gets. -/
structure AsyncRead (σ : Type) where
  pollRead : σ → Bytes → Poll (Except IoError ℕ) × Bytes × σ
  length_eq : ∀ s dst, (pollRead s dst).2.1.length = dst.length

structure HyperRead (σ : Type) where
  pollRead : σ → ReadBuf → Poll (Except IoError Unit) × ReadBuf × σ
  extends_buf : ∀ s (buf : ReadBuf), buf.Extends (pollRead s buf).2.1

variable {σ : Type}

def oversized : IoError := ⟨.invalidData,"futures-io AsyncRead returned more bytes than requested"⟩

/-- What `FuturesIo::poll_read` makes of the answer of the wrapped reader and of the bytes
that the reader has written over the unfilled part. -/
def FuturesIo.settle (buf : ReadBuf) (answer : Poll (Except IoError ℕ)) (dst : Bytes) :
    Option (Poll (Except IoError Unit) × ReadBuf) :=
  match answer with
  | .ready (.ok n) =>
    if buf.remaining < n then some (.ready (.error oversized),⟨buf.filled,dst,0⟩)
    else (ReadBuf.advance ⟨buf.filled,dst,0⟩ n).map fun buf => (.ready (.ok ()),buf)
  | .ready (.error error) => some (.ready (.error error),⟨buf.filled,dst,0⟩)
  | .pending => some (.pending,⟨buf.filled,dst,0⟩)

def FuturesIo.pollRead (inner : AsyncRead σ) (s : σ) (buf : ReadBuf) :
    Option (Poll (Except IoError Unit) × ReadBuf × σ) :=
  if buf.remaining = 0 then some (.ready (.ok ()),buf,s)
  else
    let read := inner.pollRead s buf.initializeUnfilled.spare
    (settle buf read.1 read.2.1).map fun result => (result.1,result.2,read.2.2)

def HyperIo.pollRead (inner : HyperRead σ) (s : σ) (buf : Bytes) : Poll (Except IoError ℕ) × Bytes × σ :=
  if buf = [] then (.ready (.ok 0),buf,s)
  else
    let read := inner.pollRead s (ReadBuf.new buf)
    (read.1.map (Except.map fun _ => read.2.1.filled.length),read.2.1.filled ++ read.2.1.spare,read.2.2)

namespace ReadBuf
variable {buf buf' : ReadBuf}

theorem Extends.refl (buf : ReadBuf) : buf.Extends buf := ⟨List.prefix_refl _,rfl,Nat.le_refl _⟩

theorem Extends.trans {buf'' : ReadBuf} (h : buf.Extends buf') (h' : buf'.Extends buf'') : buf.Extends buf'' :=
  ⟨h.filled.trans h'.filled,h'.capacity.trans h.capacity,Nat.le_trans h'.uninit h.uninit⟩

theorem initializeUnfilled_length (buf : ReadBuf) : buf.initializeUnfilled.spare.length = buf.remaining := by
  simp [initializeUnfilled,remaining]

theorem Extends.overwrite {dst : Bytes} (h : dst.length = buf.remaining) :
    buf.Extends ⟨buf.filled,dst,0⟩ := by
  refine ⟨List.prefix_refl _,?_,Nat.zero_le _⟩
  simp only [ReadBuf.capacity,remaining] at *
  omega

theorem advance_extends {n : ℕ} (h : buf.advance n = some buf') :
    buf.Extends buf' ∧ buf'.filled = buf.filled ++ buf.spare.take n := by
  obtain ⟨hle,hsome⟩ := Option.ite_none_right_eq_some.mp h
  cases hsome
  refine ⟨⟨List.prefix_append _ _,?_,Nat.le_refl _⟩,rfl⟩
  simp only [ReadBuf.capacity,remaining,List.length_append,List.length_take,List.length_drop]
  omega

end ReadBuf

namespace FuturesIo

def reported (buf : ReadBuf) (answer : Poll (Except IoError ℕ)) (dst : Bytes) : Bytes :=
  match answer with
  | .ready (.ok n) => if buf.remaining < n then [] else dst.take n
  | _ => []

/-- Whatever the reader says, `advance` stays within the initialized bytes, and those that
are filled are those it reported. -/
theorem settle_sound {buf : ReadBuf} (answer : Poll (Except IoError ℕ)) {dst : Bytes}
    (hlength : dst.length = buf.remaining) :
    ∃ answer' buf', settle buf answer dst = some (answer',buf') ∧ buf.Extends buf' ∧
      buf'.filled = buf.filled ++ reported buf answer dst ∧
      (answer' ≠ .ready (.ok ()) → reported buf answer dst = []) := by
  have hextends : buf.Extends ⟨buf.filled,dst,0⟩ := .overwrite hlength
  have hkept : buf.filled = buf.filled ++ [] := (List.append_nil _).symm
  unfold settle reported
  rcases answer with (error | n) | _
  · exact ⟨_,_,rfl,hextends,hkept,fun _ => rfl⟩
  · by_cases hfits : buf.remaining < n
    · simp only [if_pos hfits]
      exact ⟨_,_,rfl,hextends,hkept,fun _ => trivial⟩
    · simp only [if_neg hfits]
      have hadvance : ReadBuf.advance ⟨buf.filled,dst,0⟩ n = some ⟨buf.filled ++ dst.take n,dst.drop n,0⟩ :=
        if_pos (hlength ▸ Nat.not_lt.mp hfits)
      rw [hadvance]
      exact ⟨_,_,rfl,hextends.trans (ReadBuf.advance_extends hadvance).1,rfl,fun h => absurd rfl h⟩
  · exact ⟨_,_,rfl,hextends,hkept,fun _ => rfl⟩

variable (inner : AsyncRead σ) (s : σ) (buf : ReadBuf)

theorem written_length : (inner.pollRead s buf.initializeUnfilled.spare).2.1.length = buf.remaining :=
  (inner.length_eq _ _).trans buf.initializeUnfilled_length

def piece : Bytes :=
  if buf.remaining = 0 then []
  else
    let read := inner.pollRead s buf.initializeUnfilled.spare
    reported buf read.1 read.2.1

theorem pollRead_sound : ∃ answer buf' s', pollRead inner s buf = some (answer,buf',s') ∧ buf.Extends buf' ∧
    buf'.filled = buf.filled ++ piece inner s buf ∧ (answer ≠ .ready (.ok ()) → piece inner s buf = []) := by
  unfold pollRead piece
  split
  next => exact ⟨_,_,_,rfl,.refl buf,(List.append_nil _).symm,fun _ => rfl⟩
  next =>
    obtain ⟨answer',buf',hsettle,hsound⟩ :=
      settle_sound (inner.pollRead s buf.initializeUnfilled.spare).1 (written_length inner s buf)
    simp only [hsettle]
    exact ⟨_,_,_,rfl,hsound⟩

theorem pollRead_isSome : (pollRead inner s buf).isSome = true := by
  obtain ⟨_,_,_,h,_⟩ := pollRead_sound inner s buf
  simp [h]

end FuturesIo

def futuresIo (inner : AsyncRead σ) : HyperRead σ where
  pollRead s buf := (FuturesIo.pollRead inner s buf).get (FuturesIo.pollRead_isSome inner s buf)
  extends_buf s buf := by
    obtain ⟨_,_,_,h,hextends,_⟩ := FuturesIo.pollRead_sound inner s buf
    simp only [h,Option.get_some]
    exact hextends

def hyperIo (inner : HyperRead σ) : AsyncRead σ where
  pollRead := HyperIo.pollRead inner
  length_eq s dst := by
    unfold HyperIo.pollRead
    split
    next => rfl
    next =>
      have hextends := inner.extends_buf s (ReadBuf.new dst)
      have huninit := hextends.uninit
      have hcapacity := hextends.capacity
      simp only [ReadBuf.new,ReadBuf.capacity,ReadBuf.remaining,List.length_append,List.length_nil] at *
      omega

def FuturesIo.polls (inner : AsyncRead σ) :
    ℕ → σ → ReadBuf → Option (List (Poll (Except IoError Unit)) × ReadBuf × σ)
  | 0,s,buf => some ([],buf,s)
  | k + 1,s,buf => (pollRead inner s buf).bind fun read =>
    (polls inner k read.2.2 read.2.1).map fun rest => (read.1 :: rest.1,rest.2)

/-- What the reader reports in these polls, as far as there is room for it. -/
def FuturesIo.pieces (inner : AsyncRead σ) : ℕ → σ → ReadBuf → Bytes
  | 0,_,_ => []
  | k + 1,s,buf =>
    match pollRead inner s buf with
    | some (_,buf',s') => piece inner s buf ++ pieces inner k s' buf'
    | none => []

/-- The wrapped reader may answer anything: no poll advances beyond the initialized bytes,
and the buffer keeps its storage and its bytes, behind which stand the reported ones. -/
theorem broken_reader_is_harmless (inner : AsyncRead σ) (k : ℕ) (s : σ) (buf : ReadBuf) :
    ∃ answers buf' s', FuturesIo.polls inner k s buf = some (answers,buf',s') ∧ answers.length = k ∧
      buf.Extends buf' ∧ buf'.filled = buf.filled ++ FuturesIo.pieces inner k s buf ∧
      ((∀ answer ∈ answers, answer ≠ .ready (.ok ())) → buf'.filled = buf.filled) := by
  induction k generalizing s buf with
  | zero =>
    exact ⟨[],buf,s,rfl,rfl,.refl buf,(List.append_nil _).symm,fun _ => rfl⟩
  | succ k ih =>
    obtain ⟨answer,mid,t,hpoll,hextends,hfilled,hfailed⟩ := FuturesIo.pollRead_sound inner s buf
    obtain ⟨answers,buf',s',hpolls,hlength,hextends',hfilled',hfailed'⟩ := ih t mid
    refine ⟨answer :: answers,buf',s',?_,congrArg (· + 1) hlength,hextends.trans hextends',?_,?_⟩
    · simp [FuturesIo.polls,hpoll,hpolls]
    · simp [FuturesIo.pieces,hpoll,hfilled',hfilled]
    · intro hnone
      obtain ⟨hanswer,hanswers⟩ := List.forall_mem_cons.mp hnone
      rw [hfailed' hanswers,hfilled,hfailed hanswer,List.append_nil]

abbrev Transport (σ : Type) := σ → ℕ → Poll (Except IoError Bytes) × σ

def delivered : Poll (Except IoError Bytes) → Bytes
  | .ready (.ok bytes) => bytes
  | _ => []

/-- The reader gives what the transport has, to everyone who has room. -/
def AsyncRead.Reads (self : AsyncRead σ) (transport : Transport σ) : Prop :=
  ∀ s dst, dst ≠ [] → ∃ dst', self.pollRead s dst =
      ((transport s dst.length).1.map (Except.map List.length),dst',(transport s dst.length).2) ∧
    delivered (transport s dst.length).1 <+: dst'

def HyperRead.Reads (self : HyperRead σ) (transport : Transport σ) : Prop :=
  ∀ s (buf : ReadBuf), buf.remaining ≠ 0 → ∃ buf', self.pollRead s buf =
      ((transport s buf.remaining).1.map (Except.map fun _ => ()),buf',(transport s buf.remaining).2) ∧
    buf'.filled = buf.filled ++ delivered (transport s buf.remaining).1

theorem settle_delivers {buf : ReadBuf} {answer : Poll (Except IoError Bytes)} {dst : Bytes}
    (hlength : dst.length = buf.remaining) (hdelivered : delivered answer <+: dst) :
    ∃ buf', FuturesIo.settle buf (answer.map (Except.map List.length)) dst =
        some (answer.map (Except.map fun _ => ()),buf') ∧
      buf'.filled = buf.filled ++ delivered answer := by
  rcases answer with (error | bytes) | _
  · exact ⟨_,rfl,(List.append_nil _).symm⟩
  · have hle : bytes.length ≤ dst.length := hdelivered.length_le
    have hfits : ¬ buf.remaining < bytes.length := Nat.not_lt.mpr (hlength ▸ hle)
    have hadvance : ReadBuf.advance ⟨buf.filled,dst,0⟩ bytes.length =
        some ⟨buf.filled ++ dst.take bytes.length,dst.drop bytes.length,0⟩ := if_pos hle
    refine ⟨_,(if_neg hfits).trans (congrArg (Option.map _) hadvance),?_⟩
    exact congrArg (buf.filled ++ ·) (List.prefix_iff_eq_take.mp hdelivered).symm
  · exact ⟨_,rfl,(List.append_nil _).symm⟩

theorem futuresIo_reads {inner : AsyncRead σ} {transport : Transport σ} (h : inner.Reads transport) :
    (futuresIo inner).Reads transport := by
  intro s buf hremaining
  have hspare := buf.initializeUnfilled_length
  obtain ⟨dst,hread,hdelivered⟩ := h s buf.initializeUnfilled.spare fun hnil =>
    hremaining (hspare.symm.trans (congrArg List.length hnil))
  have hlength := FuturesIo.written_length inner s buf
  rw [hspare] at hread hdelivered
  rw [hread] at hlength
  obtain ⟨buf',hsettle,hfilled⟩ := settle_delivers hlength hdelivered
  have hpoll : FuturesIo.pollRead inner s buf = some ((transport s buf.remaining).1.map (Except.map fun _ => ()),
      buf',(transport s buf.remaining).2) := by
    unfold FuturesIo.pollRead
    rw [if_neg hremaining,hread]
    exact congrArg (Option.map _) hsettle
  refine ⟨buf',?_,hfilled⟩
  simp only [futuresIo,hpoll,Option.get_some]

theorem hyperIo_reads {inner : HyperRead σ} {transport : Transport σ} (h : inner.Reads transport) :
    (hyperIo inner).Reads transport := by
  intro s dst hdst
  have hremaining : (ReadBuf.new dst).remaining = dst.length := Nat.add_zero _
  obtain ⟨buf,hread,hfilled⟩ := h s (ReadBuf.new dst) (by
    rw [hremaining,Ne,List.length_eq_zero_iff]
    exact hdst)
  rw [hremaining] at hread hfilled
  refine ⟨buf.filled ++ buf.spare,?_,?_⟩
  · change HyperIo.pollRead inner s dst = _
    unfold HyperIo.pollRead
    rw [if_neg hdst,hread]
    simp only [hfilled]
    generalize transport s dst.length = read
    obtain ⟨(error | bytes) | _,s'⟩ := read
    · rfl
    · rfl
    · rfl
  · rw [hfilled]
    exact List.prefix_append _ _

/-- One read after the other, each into a buffer of its own: the answers with the bytes read. -/
def AsyncRead.reads (self : AsyncRead σ) : List Bytes → σ → List (Poll (Except IoError Bytes)) × σ
  | [],s => ([],s)
  | dst :: rest,s =>
    let read := self.pollRead s dst
    let later := self.reads rest read.2.2
    (read.1.map (Except.map fun n => read.2.1.take n) :: later.1,later.2)

/-- The same from the transport itself, which is not asked when there is no room. -/
def Transport.reads (transport : Transport σ) : List ℕ → σ → List (Poll (Except IoError Bytes)) × σ
  | [],s => ([],s)
  | room :: rest,s =>
    let read := if room = 0 then (.ready (.ok []),s) else transport s room
    let later := Transport.reads transport rest read.2
    (read.1 :: later.1,later.2)

/-- Both adapters around a reader, so many times. -/
def layered (inner : AsyncRead σ) : ℕ → AsyncRead σ
  | 0 => inner
  | n + 1 => hyperIo (futuresIo (layered inner n))

theorem layered_reads {inner : AsyncRead σ} {transport : Transport σ} (h : inner.Reads transport) (layers : ℕ) :
    (layered inner layers).Reads transport := by
  induction layers with
  | zero => exact h
  | succ n ih => exact hyperIo_reads (futuresIo_reads ih)

theorem read_eq {inner : HyperRead σ} {transport : Transport σ} (h : (hyperIo inner).Reads transport)
    (dst : Bytes) (s : σ) :
    (((hyperIo inner).pollRead s dst).1.map (Except.map fun n => ((hyperIo inner).pollRead s dst).2.1.take n),
        ((hyperIo inner).pollRead s dst).2.2) =
      if dst.length = 0 then (.ready (.ok []),s) else transport s dst.length := by
  rcases dst with _ | ⟨byte,dst⟩
  · rfl
  · obtain ⟨dst',hpoll,hdelivered⟩ := h s (byte :: dst) (List.cons_ne_nil _ _)
    simp only [hpoll,List.length_cons,Nat.succ_ne_zero,if_false]
    rw [List.length_cons] at hdelivered
    generalize transport s (dst.length + 1) = read at *
    obtain ⟨(error | bytes) | _,s'⟩ := read
    · rfl
    · have htake : dst'.take bytes.length = bytes := (List.prefix_iff_eq_take.mp hdelivered).symm
      simp [Poll.map,Except.map,htake]
    · rfl

theorem reads_eq {inner : HyperRead σ} {transport : Transport σ} (h : (hyperIo inner).Reads transport)
    (buffers : List Bytes) (s : σ) :
    (hyperIo inner).reads buffers s = Transport.reads transport (buffers.map List.length) s := by
  induction buffers generalizing s with
  | nil => rfl
  | cons dst rest ih =>
    have hread := read_eq h dst s
    simp only [AsyncRead.reads,Transport.reads,List.map_cons,← hread,ih]

/-- However often a stream is wrapped, its bytes arrive as they are. -/
theorem adapters_are_transparent {inner : AsyncRead σ} {transport : Transport σ} (h : inner.Reads transport)
    (layers : ℕ) (buffers : List Bytes) (s : σ) :
    (layered inner (layers + 1)).reads buffers s = Transport.reads transport (buffers.map List.length) s :=
  reads_eq (layered_reads h (layers + 1)) buffers s

/-- Bytes in memory, of which each read takes as many as there is room for. -/
def slice : AsyncRead Bytes where
  pollRead bytes dst :=
    let taken := bytes.take dst.length
    (.ready (.ok taken.length),taken ++ dst.drop taken.length,bytes.drop dst.length)
  length_eq bytes dst := by
    simp only [List.length_append,List.length_take,List.length_drop]
    omega

theorem slice_reads : slice.Reads fun bytes room => (.ready (.ok (bytes.take room)),bytes.drop room) :=
  fun _ _ _ => ⟨_,rfl,List.prefix_append _ _⟩

theorem adapters_are_transparent_slice :
    (layered slice 2).reads [[0,0],[],[0,0]] [1,2,3] =
      ([.ready (.ok [1,2]),.ready (.ok []),.ready (.ok [3])],[]) :=
  adapters_are_transparent slice_reads 1 [[0,0],[],[0,0]] [1,2,3]

end H12Tiny.Core
