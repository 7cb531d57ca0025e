import H12Tiny.Sync.Drain

/-! # What a byte string delivers

The decoder as a function of the mode and of all the bytes up to the end of the
stream, a chunk at a time: what it delivers and how it ends. Where nothing fails, a
caller that reads to the end gets just that, however the bytes arrive and whatever the
sizes of its buffers, unless a line reaches its limit.
-/
namespace H12Tiny.Sync

theorem Wire.nextChunk_rest {bound : Option ℕ} {separatorDue : Bool} {wire rest : Wire} {size : ℕ}
    (h : Wire.nextChunk bound separatorDue wire = .ok size rest) :
    rest.later = wire.later ∧ rest.ready.length ≤ wire.ready.length := by
  have htame := Wire.nextChunk_tame bound separatorDue wire
  rw [h] at htame
  cases htame with
  | ok hwire =>
    rw [hwire]
    refine ⟨rfl,?_⟩
    simp only [Wire.prepend,List.length_append]
    omega

def ChunkState.framings (state : ChunkState) : ℕ := if state.remaining = 0 then 1 else 0

def decode (state : ChunkState) (ready : Bytes) : Bytes × Except IoError Unit :=
  if state.complete then ([],.ok ())
  else if state.remaining = 0 then
    match _ : Wire.nextChunk none state.separatorDue ⟨ready,[]⟩ with
    | .error error _ => ([],.error error)
    | .ok size rest => if size = 0 then ([],.ok ()) else decode ⟨size,false,false⟩ rest.ready
  else if ready.length < state.remaining then (ready,.error chunkClosed)
  else
    let rest := decode ⟨0,true,false⟩ (ready.drop state.remaining)
    (ready.take state.remaining ++ rest.1,rest.2)
termination_by 2 * ready.length + state.framings
decreasing_by
  · have hle := (Wire.nextChunk_rest ‹_›).2
    have hdue : state.framings = 1 := if_pos ‹state.remaining = 0›
    have hdata : ChunkState.framings ⟨size,false,false⟩ = 0 := if_neg ‹¬ size = 0›
    dsimp only at hle
    omega
  · have hdata : state.framings = 0 := if_neg ‹¬ state.remaining = 0›
    have hdue : ChunkState.framings ⟨0,true,false⟩ = 1 := rfl
    have hdrop := List.length_drop (l := ready) (i := state.remaining)
    omega

section Decode
variable {state : ChunkState} {ready : Bytes}

theorem decode_complete (h : state.complete = true) : decode state ready = ([],.ok ()) := by
  rw [decode,if_pos h]

section Framing
variable (hcomplete : state.complete = false) (hzero : state.remaining = 0)
include hcomplete hzero

theorem decode_error {error : IoError} {rest : Wire}
    (h : Wire.nextChunk none state.separatorDue ⟨ready,[]⟩ = .error error rest) :
    decode state ready = ([],.error error) := by
  rw [decode,if_neg (by simp [hcomplete]),if_pos hzero]
  split
  next herr =>
    rw [h] at herr
    cases herr
    rfl
  next hok =>
    rw [h] at hok
    cases hok

theorem decode_ok {size : ℕ} {rest : Wire}
    (h : Wire.nextChunk none state.separatorDue ⟨ready,[]⟩ = .ok size rest) :
    decode state ready = if size = 0 then ([],.ok ()) else decode ⟨size,false,false⟩ rest.ready := by
  rw [decode,if_neg (by simp [hcomplete]),if_pos hzero]
  split
  next herr =>
    rw [h] at herr
    cases herr
  next hok =>
    rw [h] at hok
    cases hok
    rfl

end Framing

section Data
variable (hcomplete : state.complete = false) (hpos : state.remaining ≠ 0)
include hcomplete hpos

theorem decode_short (hlen : ready.length < state.remaining) :
    decode state ready = (ready,.error chunkClosed) := by
  rw [decode,if_neg (by simp [hcomplete]),if_neg hpos,if_pos hlen]

theorem decode_full (hlen : state.remaining ≤ ready.length) :
    decode state ready = (ready.take state.remaining ++ (decode ⟨0,true,false⟩ (ready.drop state.remaining)).1,
      (decode ⟨0,true,false⟩ (ready.drop state.remaining)).2) := by
  rw [decode,if_neg (by simp [hcomplete]),if_neg hpos,if_neg (by omega)]

theorem decode_piece {read rest : Bytes} (hlen : read.length ≤ state.remaining) (hready : ready = read ++ rest) :
    decode state ready =
      (read ++ (decode ⟨state.remaining - read.length,state.remaining = read.length,false⟩ rest).1,
        (decode ⟨state.remaining - read.length,state.remaining = read.length,false⟩ rest).2) := by
  subst hready
  by_cases heq : state.remaining = read.length
  · rw [decode_full hcomplete hpos (by rw [List.length_append]; omega)]
    simp only [heq,Nat.sub_self,decide_true,List.take_left,List.drop_left]
  · have hleft : state.remaining - read.length ≠ 0 := by omega
    by_cases hshort : (read ++ rest).length < state.remaining
    · rw [decode_short hcomplete hpos hshort]
      rw [List.length_append] at hshort
      have hrest : decode ⟨state.remaining - read.length,state.remaining = read.length,false⟩ rest =
          (rest,.error chunkClosed) := by
        apply decode_short rfl hleft
        simp only
        omega
      rw [hrest]
    · rw [decode_full hcomplete hpos (by omega)]
      rw [List.length_append] at hshort
      have hlen' : (⟨state.remaining - read.length,state.remaining = read.length,false⟩ : ChunkState).remaining ≤
          rest.length := by
        simp only
        omega
      have hrest := decode_full rfl hleft hlen'
      simp only [List.take_append,List.drop_append,List.take_of_length_le hlen,List.drop_of_length_le hlen,
        List.nil_append,List.append_assoc,hrest]

end Data

theorem decode_opens {chunk : ChunkState} {rest : Wire} (hcomplete : state.complete = false)
    (h : Opens none state ⟨ready,[]⟩ chunk rest) :
    rest.later = [] ∧ chunk.complete = false ∧ chunk.remaining ≠ 0 ∧
      decode state ready = decode chunk rest.ready := by
  cases h with
  | within hpos => exact ⟨rfl,hcomplete,hpos,rfl⟩
  | next hzero hnext hsize =>
    refine ⟨(Wire.nextChunk_rest hnext).1,rfl,hsize,?_⟩
    rw [decode_ok hcomplete hzero hnext,if_neg hsize]

end Decode

theorem read_chunked_reads {capacity : ℕ} (hcap : 0 < capacity) {inbound : Inbound} {state : ChunkState}
    {read : Bytes} {body : ResponseBody}
    (h : ResponseBody.read capacity ⟨inbound,.chunked state⟩ = .ok read body) :
    ∃ inbound' state', body = ⟨inbound',.chunked state'⟩ ∧
      Reads none capacity state inbound.wire (.ok read ⟨inbound',state'⟩) := by
  obtain ⟨inbound',state',hread,rfl⟩ := read_chunked_ok hcap h
  have hreads := readChunked_reads hcap (Or.inl rfl) ⟨inbound,state⟩ (Or.inl rfl)
  rw [hread] at hreads
  exact ⟨inbound',state',rfl,hreads⟩

/-- A caller of a chunked body on which nothing fails gets what its bytes deliver. -/
theorem Calls.decodes {sizes : ℕ → ℕ} {body : ResponseBody} {outcome : Outcome}
    (h : Calls false sizes body outcome) (hsizes : ∀ k, 0 < sizes k)
    (hlimit : outcome.ending ≠ .error lineLimit) :
    ∀ {inbound : Inbound} {state : ChunkState} {ready : Bytes}, body = ⟨inbound,.chunked state⟩ →
      inbound.wire = ⟨ready,[]⟩ → (outcome.bytes,outcome.ending) = decode state ready := by
  induction h with
  | ended h =>
    rintro inbound state ready rfl hwire
    obtain ⟨inbound',state',rfl,hreads⟩ := read_chunked_reads (hsizes 0) h
    rw [hwire] at hreads
    cases hreads with
    | complete hcomplete _ => rw [decode_complete hcomplete]
    | finished hcomplete hzero hnext => rw [decode_ok hcomplete hzero hnext,if_pos rfl]
    | data _ _ _ hne _ => exact absurd rfl hne
  | failed h _ =>
    rintro inbound state ready rfl hwire
    obtain ⟨inbound',state',hread,rfl⟩ := read_chunked_error (hsizes 0) h
    have hreads := readChunked_reads (hsizes 0) (Or.inl rfl) ⟨inbound,state⟩ (Or.inl rfl)
    rw [hread] at hreads
    simp only [hwire] at hreads
    cases hreads with
    | framing hcomplete hzero hnext => rw [decode_error hcomplete hzero hnext]
    | gaveUp _ _ _ => exact absurd rfl hlimit
    | closed hcomplete hopens hrest _ =>
      obtain ⟨_,hdone,hpos,hdecode⟩ := decode_opens hcomplete hopens
      rw [hdecode,hrest,decode_short hdone hpos (by rw [List.length_nil]; omega)]
    | failed hcomplete hopens hrest =>
      obtain ⟨hlater,_⟩ := decode_opens hcomplete hopens
      rw [hrest] at hlater
      cases hlater
  | @more _ _ _ read _ h hne _ ih =>
    rintro inbound state ready rfl hwire
    obtain ⟨inbound',state',rfl,hreads⟩ := read_chunked_reads (hsizes 0) h
    rw [hwire] at hreads
    cases hreads with
    | complete _ _ => exact absurd rfl hne
    | finished _ _ _ => exact absurd rfl hne
    | @data _ _ chunk _ hcomplete hopens hrest _ hlen =>
      obtain ⟨hlater,hdone,hpos,hdecode⟩ := decode_opens hcomplete hopens
      rw [hrest] at hlater hdecode
      have hpiece := decode_piece hdone hpos (show read.length ≤ chunk.remaining by omega)
        (show (inbound'.wire.prepend read).ready = read ++ inbound'.wire.ready from rfl)
      have hrest' : inbound'.wire = ⟨inbound'.wire.ready,[]⟩ := by rw [← hlater]; rfl
      have hmore := ih (fun k => hsizes (k + 1)) hlimit rfl hrest'
      rw [hdecode,hpiece,← hmore]
  | retried _ hretry _ _ => cases hretry

theorem Wire.eq_of_later {wire : Wire} (h : wire.later = []) : wire = ⟨wire.ready,[]⟩ := by
  rw [← h]

theorem Calls.delivers_fixed {sizes : ℕ → ℕ} {body : ResponseBody} {outcome : Outcome}
    (h : Calls false sizes body outcome) (hsizes : ∀ k, 0 < sizes k) :
    ∀ {inbound : Inbound} {remaining : ℕ} {ready : Bytes}, body = ⟨inbound,.contentLength remaining⟩ →
      inbound.wire = ⟨ready,[]⟩ →
      outcome.bytes = ready.take remaining ∧
        outcome.ending = if remaining ≤ ready.length then .ok () else .error lengthClosed := by
  induction h with
  | ended h =>
    rintro inbound remaining ready rfl hwire
    have hfixed := read_fixed (hsizes 0) inbound remaining
    rw [h,hwire] at hfixed
    cases hfixed with
    | complete hzero _ =>
      rw [hzero,List.take_zero,if_pos (Nat.zero_le _)]
      exact ⟨rfl,rfl⟩
    | some _ _ hne _ => exact absurd rfl hne
  | failed h _ =>
    rintro inbound remaining ready rfl hwire
    have hfixed := read_fixed (hsizes 0) inbound remaining
    rw [h,hwire] at hfixed
    cases hfixed with
    | closed hpos hempty _ =>
      cases hempty
      rw [List.take_nil,if_neg (by rw [List.length_nil]; omega)]
      exact ⟨rfl,rfl⟩
    | failed _ hfail => cases hfail
  | @more _ _ _ read _ h hne _ ih =>
    rintro inbound remaining ready rfl hwire
    have hfixed := read_fixed (hsizes 0) inbound remaining
    rw [h,hwire] at hfixed
    cases hfixed with
    | complete _ _ => exact absurd rfl hne
    | @some _ inbound' _ hprepend _ hlen =>
      obtain ⟨hready,hlater⟩ := Wire.mk.inj hprepend
      obtain ⟨hbytes,hending⟩ := ih (fun k => hsizes (k + 1)) rfl (Wire.eq_of_later hlater.symm)
      have hiff : remaining ≤ ready.length ↔ remaining - read.length ≤ inbound'.wire.ready.length := by
        rw [hready,List.length_append]
        omega
      have htake : read.take remaining = read := List.take_of_length_le (by omega)
      constructor
      · dsimp only
        rw [hbytes,hready,List.take_append,htake]
      · dsimp only
        rw [hending]
        simp only [hiff]
  | retried _ hretry _ _ => cases hretry

theorem Calls.delivers_eof {sizes : ℕ → ℕ} {body : ResponseBody} {outcome : Outcome}
    (h : Calls false sizes body outcome) (hsizes : ∀ k, 0 < sizes k) :
    ∀ {inbound : Inbound} {ready : Bytes}, body = ⟨inbound,.eof⟩ → inbound.wire = ⟨ready,[]⟩ →
      outcome.bytes = ready ∧ outcome.ending = .ok () := by
  induction h with
  | ended h =>
    rintro inbound ready rfl hwire
    have heof := read_eof (hsizes 0) inbound
    rw [h,hwire] at heof
    cases heof with
    | closed hempty _ =>
      cases hempty
      exact ⟨rfl,rfl⟩
    | some _ hne => exact absurd rfl hne
  | failed h _ =>
    rintro inbound ready rfl hwire
    have heof := read_eof (hsizes 0) inbound
    rw [h,hwire] at heof
    cases heof with
    | failed hfail => cases hfail
  | more h hne _ ih =>
    rintro inbound ready rfl hwire
    have heof := read_eof (hsizes 0) inbound
    rw [h,hwire] at heof
    cases heof with
    | closed _ _ => exact absurd rfl hne
    | some hprepend _ =>
      obtain ⟨hready,hlater⟩ := Wire.mk.inj hprepend
      obtain ⟨hbytes,hending⟩ := ih (fun k => hsizes (k + 1)) rfl (Wire.eq_of_later hlater.symm)
      exact ⟨by dsimp only; rw [hbytes,hready],hending⟩
  | retried _ hretry _ _ => cases hretry

/-- What all the bytes to come deliver in a mode, and how the body ends. -/
def deliver (mode : BodyMode) (ready : Bytes) : Bytes × Except IoError Unit :=
  match mode with
  | .empty => ([],.ok ())
  | .contentLength remaining =>
    (ready.take remaining,if remaining ≤ ready.length then .ok () else .error lengthClosed)
  | .chunked state => decode state ready
  | .eof => (ready,.ok ())

/-- What a caller gets is a function of the mode and the bytes. -/
theorem readAll_delivers {sizes : ℕ → ℕ} (hsizes : ∀ k, 0 < sizes k) {body : ResponseBody} {ready : Bytes}
    (hwire : body.wire = ⟨ready,[]⟩) (hlimit : (readAll false sizes body).ending ≠ .error lineLimit) :
    ((readAll false sizes body).bytes,(readAll false sizes body).ending) = deliver body.mode ready := by
  obtain ⟨inbound,mode⟩ := body
  have hcalls := readAll_calls false sizes ⟨inbound,mode⟩
  generalize readAll false sizes ⟨inbound,mode⟩ = outcome at hcalls hlimit
  cases mode with
  | empty =>
    have hread : ResponseBody.read (sizes 0) ⟨inbound,.empty⟩ = .ok [] ⟨inbound,.empty⟩ :=
      read_complete rfl _
    cases hcalls with
    | ended _ => rfl
    | failed h _ =>
      rw [hread] at h
      cases h
    | more h hne _ =>
      rw [hread] at h
      cases h
      exact absurd rfl hne
    | retried _ hretry _ => cases hretry
  | contentLength remaining =>
    obtain ⟨hbytes,hending⟩ := hcalls.delivers_fixed hsizes rfl hwire
    rw [hbytes,hending]
    rfl
  | chunked state => exact hcalls.decodes hsizes hlimit rfl hwire
  | eof =>
    obtain ⟨hbytes,hending⟩ := hcalls.delivers_eof hsizes rfl hwire
    rw [hbytes,hending]
    rfl

end H12Tiny.Sync
