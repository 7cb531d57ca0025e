import H12Tiny.Sync.Reads

/-! # Reading a body to its end

A caller that reads with buffers of given sizes until a read returns no bytes or
fails, and that may call again after a transient failure. Every call that lets it go
on takes bytes or a failure off the wire, so it comes to an end.
-/
namespace H12Tiny.Sync

def Wire.size (wire : Wire) : ℕ :=
  wire.ready.length + (wire.later.map fun failure => failure.2.length + 1).sum

@[simp] theorem Wire.size_prepend (bytes : Bytes) (wire : Wire) :
    (wire.prepend bytes).size = bytes.length + wire.size := by
  simp only [size,prepend,List.length_append]
  omega

@[simp] theorem Wire.size_fail (error : IoError) (wire : Wire) : (wire.fail error).size = wire.size + 1 := by
  simp only [size,fail,List.map_cons,List.sum_cons,List.length_nil]
  omega

theorem Connection.size_wire (script : List Event) :
    (script.map Event.size).sum = (Connection.wire script).size := by
  induction script with
  | nil => rfl
  | cons event script ih =>
    cases event with
    | data byte rest =>
      rw [Connection.wire,Wire.size_prepend,← ih]
      simp [Event.size]
    | fail error =>
      rw [Connection.wire,Wire.size_fail,← ih]
      simp only [List.map_cons,List.sum_cons,Event.size]
      omega

theorem Inbound.size_wire (inbound : Inbound) : inbound.size = inbound.wire.size := by
  rw [Inbound.wire,Wire.size_prepend,← Connection.size_wire]
  rfl

theorem Inbound.size_lt_of_prepend {inbound : Inbound} {wire : Wire} {read : Bytes}
    (h : wire = inbound.wire.prepend read) (hne : read ≠ []) : inbound.size < wire.size := by
  have hpos := List.length_pos_of_ne_nil hne
  rw [h,Wire.size_prepend,← Inbound.size_wire]
  omega

theorem Inbound.size_lt_of_fail {inbound : Inbound} {wire : Wire} {error : IoError}
    (h : wire = inbound.wire.fail error) : inbound.size < wire.size := by
  rw [h,Wire.size_fail,← Inbound.size_wire]
  omega

def IoError.isTransient (error : IoError) : Bool :=
  error.kind = .wouldBlock ∨ error.kind = .timedOut ∨ error.kind = .interrupted

theorem IoError.isOwn.not_transient {error : IoError} (h : error.isOwn) : error.isTransient = false := by
  unfold isTransient
  rcases h with h | h
  · simp [h]
  · simp [h]

theorem Opens.size_le {bound : Option ℕ} {state chunk : ChunkState} {wire rest : Wire}
    (h : Opens bound state wire chunk rest) : rest.size ≤ wire.size := by
  cases h with
  | within => exact le_rfl
  | next _ hnext _ =>
    have htame := Wire.nextChunk_tame bound state.separatorDue wire
    rw [hnext] at htame
    cases htame with
    | ok h =>
      rw [h,Wire.size_prepend]
      omega

theorem Reads.progresses {capacity : ℕ} {state : ChunkState} {wire : Wire}
    {r : EStateM.Result IoError ChunkedBody Bytes} (h : Reads none capacity state wire r) :
    (∀ read body, r = .ok read body → read ≠ [] → body.size < wire.size) ∧
    (∀ error body, r = .error error body → error.isTransient = true → body.size < wire.size) := by
  cases h with
  | complete _ _ =>
    refine ⟨?_,nofun⟩
    intro _ _ hr hne
    cases hr
    exact absurd rfl hne
  | finished _ _ _ =>
    refine ⟨?_,nofun⟩
    intro _ _ hr hne
    cases hr
    exact absurd rfl hne
  | @framing error inbound _ _ hnext =>
    refine ⟨nofun,?_⟩
    intro _ _ hr ht
    cases hr
    have htame := Wire.nextChunk_tame none state.separatorDue wire
    rw [hnext] at htame
    generalize hrest : inbound.wire = rest at htame
    have hsize : inbound.size = rest.size := by rw [Inbound.size_wire,hrest]
    cases htame with
    | own hown =>
      rw [hown.not_transient] at ht
      cases ht
    | failed hlater hlen =>
      rw [hsize]
      simp only [Wire.size,hlater,List.map_cons,List.sum_cons]
      omega
  | gaveUp _ _ _ =>
    refine ⟨nofun,?_⟩
    intro _ _ hr ht
    cases hr
    cases ht
  | data _ hopens hrest hne _ =>
    refine ⟨?_,nofun⟩
    intro _ _ hr _
    cases hr
    exact (Inbound.size_lt_of_prepend hrest hne).trans_le hopens.size_le
  | closed _ _ _ _ =>
    refine ⟨nofun,?_⟩
    intro _ _ hr ht
    cases hr
    cases ht
  | failed _ hopens hrest =>
    refine ⟨nofun,?_⟩
    intro _ _ hr _
    cases hr
    exact (Inbound.size_lt_of_fail hrest).trans_le hopens.size_le

/-- A call that returned bytes or failed for the moment has made progress. -/
theorem read_progresses (capacity : ℕ) (body : ResponseBody) :
    (∀ read body', body.read capacity = .ok read body' → read ≠ [] → body'.size < body.size) ∧
    (∀ error body', body.read capacity = .error error body' → error.isTransient = true →
      body'.size < body.size) := by
  obtain ⟨inbound,mode⟩ := body
  by_cases hcap : capacity = 0
  · subst hcap
    refine ⟨?_,nofun⟩
    intro _ _ hr hne
    cases hr
    exact absurd rfl hne
  rw [Inbound.size_wire]
  cases mode with
  | empty =>
    have hread : ResponseBody.read capacity ⟨inbound,.empty⟩ = .ok [] ⟨inbound,.empty⟩ := by
      unfold ResponseBody.read
      rw [if_neg hcap]
    rw [hread]
    refine ⟨?_,nofun⟩
    intro _ _ hr hne
    cases hr
    exact absurd rfl hne
  | eof =>
    have heof := read_eof (show 0 < capacity by omega) inbound
    constructor
    · intro read body' hr hne
      rw [hr] at heof
      cases heof with
      | closed _ _ => exact absurd rfl hne
      | some h _ => exact Inbound.size_lt_of_prepend h hne
    · intro error body' hr _
      rw [hr] at heof
      cases heof with
      | failed h => exact Inbound.size_lt_of_fail h
  | contentLength remaining =>
    have hfixed := read_fixed (show 0 < capacity by omega) inbound remaining
    constructor
    · intro read body' hr hne
      rw [hr] at hfixed
      cases hfixed with
      | complete _ _ => exact absurd rfl hne
      | some _ h hne _ => exact Inbound.size_lt_of_prepend h hne
    · intro error body' hr ht
      rw [hr] at hfixed
      cases hfixed with
      | closed _ _ _ => cases ht
      | failed _ h => exact Inbound.size_lt_of_fail h
  | chunked state =>
    have hreads := readChunked_reads (show 0 < capacity by omega) (Or.inl rfl) ⟨inbound,state⟩ (Or.inl rfl)
    obtain ⟨hok,herror⟩ := hreads.progresses
    constructor
    · intro read body' hr hne
      obtain ⟨inbound',state',hb,rfl⟩ := read_chunked_ok (by omega) hr
      exact hok _ _ hb hne
    · intro error body' hr ht
      obtain ⟨inbound',state',hb,rfl⟩ := read_chunked_error (by omega) hr
      exact herror _ _ hb ht

/-- What a caller that reads to the end has in the end. -/
structure Outcome where
  bytes : Bytes
  ending : Except IoError Unit
  body : ResponseBody

/-- One call of a caller, who has counted the calls and collected the bytes so far. -/
def readAllBody (retry : Bool) (sizes : ℕ → ℕ) (caller : ℕ × Bytes × ResponseBody) :
    Outcome ⊕ ℕ × Bytes × ResponseBody :=
  match ResponseBody.read (sizes caller.1) caller.2.2 with
  | .ok read body =>
    if read = [] then .inl ⟨caller.2.1,.ok (),body⟩ else .inr (caller.1 + 1,caller.2.1 ++ read,body)
  | .error error body =>
    if retry && error.isTransient then .inr (caller.1 + 1,caller.2.1,body)
    else .inl ⟨caller.2.1,.error error,body⟩

theorem readAll_decreases (retry : Bool) (sizes : ℕ → ℕ) :
    Decreases (readAllBody retry sizes) (fun caller => caller.2.2.size) := by
  rintro ⟨k,out,body⟩ ⟨k',out',body'⟩ h
  obtain ⟨hok,herror⟩ := read_progresses (sizes k) body
  unfold readAllBody at h
  split at h
  next hr =>
    split at h
    · cases h
    next hne =>
      cases h
      exact hok _ _ hr hne
  next hr =>
    split at h
    next ht =>
      cases h
      rw [Bool.and_eq_true] at ht
      exact herror _ _ hr ht.2
    · cases h

/-- Reads until a read returns no bytes or fails; with `retry` a transient failure is
answered by the next call. -/
def readAll (retry : Bool) (sizes : ℕ → ℕ) (body : ResponseBody) : Outcome :=
  loop (readAllBody retry sizes) (fun caller => caller.2.2.size) (readAll_decreases retry sizes) (0,[],body)

inductive Calls (retry : Bool) : (ℕ → ℕ) → ResponseBody → Outcome → Prop
  | ended {sizes : ℕ → ℕ} {body body' : ResponseBody} (h : body.read (sizes 0) = .ok [] body') :
      Calls retry sizes body ⟨[],.ok (),body'⟩
  | failed {sizes : ℕ → ℕ} {body body' : ResponseBody} {error : IoError}
      (h : body.read (sizes 0) = .error error body') (hretry : (retry && error.isTransient) = false) :
      Calls retry sizes body ⟨[],.error error,body'⟩
  | more {sizes : ℕ → ℕ} {body body' : ResponseBody} {read : Bytes} {outcome : Outcome}
      (h : body.read (sizes 0) = .ok read body') (hne : read ≠ [])
      (hrest : Calls retry (fun k => sizes (k + 1)) body' outcome) :
      Calls retry sizes body ⟨read ++ outcome.bytes,outcome.ending,outcome.body⟩
  | retried {sizes : ℕ → ℕ} {body body' : ResponseBody} {error : IoError} {outcome : Outcome}
      (h : body.read (sizes 0) = .error error body') (hretry : (retry && error.isTransient) = true)
      (hrest : Calls retry (fun k => sizes (k + 1)) body' outcome) : Calls retry sizes body outcome

theorem readAll_calls (retry : Bool) (sizes : ℕ → ℕ) (body : ResponseBody) :
    Calls retry sizes body (readAll retry sizes body) := by
  have hall : ∃ outcome, Calls retry (fun i => sizes (0 + i)) body outcome ∧
      readAll retry sizes body = ⟨[] ++ outcome.bytes,outcome.ending,outcome.body⟩ := by
    refine loop_induction (readAll_decreases retry sizes) (P := fun caller result => ∃ outcome,
      Calls retry (fun i => sizes (caller.1 + i)) caller.2.2 outcome ∧
        result = ⟨caller.2.1 ++ outcome.bytes,outcome.ending,outcome.body⟩) ?_ ?_ (0,[],body)
    · rintro ⟨k,out,body⟩ result h
      unfold readAllBody at h
      split at h
      next hr =>
        split at h
        next he =>
          cases h
          subst he
          exact ⟨⟨[],.ok (),_⟩,.ended hr,by simp⟩
        next => cases h
      next hr =>
        split at h
        next => cases h
        next ht =>
          cases h
          exact ⟨⟨[],.error _,_⟩,.failed hr (Bool.eq_false_iff.mpr ht),by simp⟩
    · rintro ⟨k,out,body⟩ ⟨k',out',body'⟩ result h ⟨outcome,hrest,rfl⟩
      have hshift : (fun i => sizes (k + 1 + i)) = fun i => sizes (k + (i + 1)) := by
        funext i
        congr 1
        omega
      unfold readAllBody at h
      split at h
      next hr =>
        split at h
        next => cases h
        next hne =>
          cases h
          dsimp only at hrest
          rw [hshift] at hrest
          exact ⟨_,.more hr hne hrest,by simp⟩
      next hr =>
        split at h
        next ht =>
          cases h
          dsimp only at hrest
          rw [hshift] at hrest
          exact ⟨_,.retried hr ht hrest,rfl⟩
        next => cases h
  obtain ⟨outcome,hcalls,heq⟩ := hall
  rw [heq]
  simpa using hcalls

end H12Tiny.Sync
