import H12Tiny.Sync.Wire

/-! # The framing of chunks on the wire

The readers of lines, trailers and everything else between two chunks, on wires, and
that the code simulates them. None of them does more to a wire than take bytes off
its front or meet its first failure.
-/
namespace H12Tiny.Sync

namespace Wire

def line (bound : Option ℕ) : EStateM IoError Wire Bytes := takeUntil bound crlf lineLimit lineClosed id

def trailersBody (bound : Option ℕ) (total : ℕ) : EStateM IoError Wire (Unit ⊕ ℕ) := do
  let line ← line bound
  ofExcept (checkTrailer total line)

theorem line_ok {bound : Option ℕ} {text : Bytes} {wire wire' : Wire} (h : line bound wire = .ok text wire') :
    findCrlf wire.ready = some text.length ∧ wire = wire'.prepend (text ++ crlf) := takeUntil_ok h

theorem trailers_lowers (bound : Option ℕ) :
    Lowers (trailersBody bound) (fun _ wire => wire.ready.length) := by
  intro total wire total' wire' h
  unfold trailersBody at h
  simp only [bind,EStateM.bind] at h
  split at h
  next text wire₁ hline =>
    obtain ⟨_,hwire⟩ := line_ok hline
    rw [(ofExcept_eq_ok h).2,hwire]
    simp only [prepend,List.length_append,crlf_length]
    omega
  next => cases h

def trailers (bound : Option ℕ) : EStateM IoError Wire Unit :=
  loopM (trailersBody bound) _ (trailers_lowers bound) 0

def separator (separatorDue : Bool) : EStateM IoError Wire Unit :=
  if separatorDue then do
    let separator ← exact 2
    ofExcept (checkSeparator separator)
  else return ()

def announced (bound : Option ℕ) (text : Bytes) : EStateM IoError Wire ℕ := do
  let size ← ofExcept (parseChunkSize text)
  if size = 0 then
    trailers bound
    return 0
  else return size

def nextChunk (bound : Option ℕ) (separatorDue : Bool) : EStateM IoError Wire ℕ := do
  separator separatorDue
  let text ← line bound
  announced bound text

end Wire

/-- The errors of the decoder itself. -/
def IoError.isOwn (error : IoError) : Prop :=
  error.kind = .invalidData ∨ error.kind = .unexpectedEof

/-- What a reader can do to a wire: it takes bytes off the front, or it stops with an
error of its own or with the first failure. -/
inductive Tame {α : Type} (wire : Wire) : EStateM.Result IoError Wire α → Prop
  | ok {a : α} {taken : Bytes} {rest : Wire} (h : wire = rest.prepend taken) : Tame wire (.ok a rest)
  | own {error : IoError} {rest : Wire} (hown : error.isOwn) : Tame wire (.error error rest)
  | failed {error : IoError} {more : Bytes} {rest : Wire} (h : wire.later = (error,more) :: rest.later)
      (hlen : rest.ready.length ≤ wire.ready.length + more.length) : Tame wire (.error error rest)

section Tame
variable {α β : Type}

theorem Tame.prepend {wire : Wire} {taken : Bytes} {r : EStateM.Result IoError Wire α} (h : Tame wire r) :
    Tame (wire.prepend taken) r := by
  cases h with
  | ok h =>
    rw [h,Wire.prepend_prepend]
    exact .ok rfl
  | own hown => exact .own hown
  | failed h hlen =>
    refine .failed h ?_
    simp only [Wire.prepend,List.length_append]
    omega

theorem tame_pure (a : α) (wire : Wire) : Tame wire ((pure a : EStateM IoError Wire α) wire) :=
  .ok (Wire.prepend_nil wire).symm

theorem tame_ofExcept {x : Except IoError α} (hx : ∀ error, x = .error error → error.isOwn) (wire : Wire) :
    Tame wire ((ofExcept x : EStateM IoError Wire α) wire) := by
  cases x with
  | ok a => exact tame_pure a wire
  | error error => exact .own (hx error rfl)

theorem tame_bind {m : EStateM IoError Wire α} {f : α → EStateM IoError Wire β}
    (hm : ∀ wire, Tame wire (m wire)) (hf : ∀ a wire, Tame wire (f a wire)) (wire : Wire) :
    Tame wire ((m >>= f) wire) := by
  have h := hm wire
  simp only [bind,EStateM.bind]
  generalize m wire = r at h
  cases h with
  | ok h =>
    rw [h]
    exact (hf _ _).prepend
  | own hown => exact .own hown
  | failed h hlen => exact .failed h hlen

theorem tame_loopM {body : β → EStateM IoError Wire (α ⊕ β)} {measure : β → Wire → ℕ}
    (h : Lowers body measure) (hbody : ∀ b wire, Tame wire (body b wire)) (b : β) (wire : Wire) :
    Tame wire (loopM body measure h b wire) := by
  refine loopM_induction h (P := fun _ wire r => Tame wire r) ?_ ?_ ?_ b wire
  · intro b wire a rest hb
    have hstep := hbody b wire
    rw [hb] at hstep
    cases hstep with
    | ok h => exact .ok h
  · intro b wire error rest hb
    have hstep := hbody b wire
    rw [hb] at hstep
    cases hstep with
    | own hown => exact .own hown
    | failed h hlen => exact .failed h hlen
  · intro b wire b' rest r hb ih
    have hstep := hbody b wire
    rw [hb] at hstep
    cases hstep with
    | ok h =>
      rw [h]
      exact ih.prepend

end Tame

namespace Wire

theorem line_tame (bound : Option ℕ) (wire : Wire) : Tame wire (line bound wire) := by
  cases h : line bound wire with
  | ok text rest => exact .ok (line_ok h).2
  | error error rest =>
    unfold line takeUntil at h
    split at h
    · split at h
      · cases h
        exact .own (Or.inl rfl)
      · cases h
    · split at h
      · cases h
        exact .own (Or.inl rfl)
      · split at h
        · cases h
          exact .own (Or.inr rfl)
        next more later hlater =>
          cases h
          exact .failed hlater (by simp)

theorem exact_tame (length : ℕ) (wire : Wire) : Tame wire (exact length wire) := by
  unfold exact
  split
  · have hsplit : wire = prepend (wire.ready.take length) ⟨wire.ready.drop length,wire.later⟩ := by
      simp [prepend]
    exact .ok hsplit
  · split
    · exact .own (Or.inr rfl)
    next hlater => exact .failed hlater (by simp)

theorem checkTrailer_own {total : ℕ} {text : Bytes} {error : IoError}
    (h : checkTrailer total text = .error error) : error.isOwn := by
  unfold checkTrailer at h
  split at h
  · cases h
    exact Or.inl rfl
  · split at h
    · cases h
    · split at h
      · cases h
        exact Or.inl rfl
      · cases h

theorem parseChunkSize_own {text : Bytes} {error : IoError} (h : parseChunkSize text = .error error) :
    error.isOwn := by
  unfold parseChunkSize at h
  dsimp only at h
  split at h
  · split at h
    · cases h
    · cases h
      exact Or.inl rfl
  · cases h
    exact Or.inl rfl

theorem trailers_tame (bound : Option ℕ) (wire : Wire) : Tame wire (trailers bound wire) := by
  apply tame_loopM
  intro total wire
  apply tame_bind (line_tame bound)
  intro text wire
  exact tame_ofExcept (fun _ h => checkTrailer_own h) wire

theorem nextChunk_tame (bound : Option ℕ) (separatorDue : Bool) (wire : Wire) :
    Tame wire (nextChunk bound separatorDue wire) := by
  apply tame_bind
  · intro wire
    cases separatorDue with
    | false => exact tame_pure () wire
    | true =>
      apply tame_bind (exact_tame 2)
      intro separator wire
      refine tame_ofExcept ?_ wire
      intro error h
      unfold checkSeparator at h
      split at h
      · cases h
        exact Or.inl rfl
      · cases h
  · intro _ wire
    apply tame_bind (line_tame bound)
    intro text wire
    apply tame_bind (tame_ofExcept (fun _ h => parseChunkSize_own h))
    intro size wire
    split
    · apply tame_bind (trailers_tame bound)
      intro _ wire
      exact tame_pure 0 wire
    · exact tame_pure size wire

end Wire

section Chunks
variable {bound : Option ℕ} (hbound : Bounds maxChunkLineBytes bound)
include hbound

theorem consumeTrailers_simulates : Simulates Views (GivesUp lineLimit bound) (Cautious lineLimit bound)
    consumeTrailers (Wire.trailers bound) := by
  apply Simulates.loopM
  intro total
  apply Simulates.bind (takeUntil_simulates crlf maxChunkLineBytes lineLimit lineClosed id hbound)
  intro text
  exact Simulates.ofExcept _

theorem nextChunk_simulates (separatorDue : Bool) :
    Simulates Views (GivesUp lineLimit bound) (Cautious lineLimit bound)
      (nextChunk separatorDue) (Wire.nextChunk bound separatorDue) := by
  have hseparator : Simulates Views (GivesUp lineLimit bound) (Cautious lineLimit bound)
      (readSeparator separatorDue) (Wire.separator separatorDue) := by
    cases separatorDue with
    | false => exact Simulates.pure ()
    | true =>
      apply Simulates.bind (readExact_simulates 2)
      intro separator
      exact Simulates.ofExcept _
  apply Simulates.bind hseparator
  intro _
  apply Simulates.bind (takeUntil_simulates crlf maxChunkLineBytes lineLimit lineClosed id hbound)
  intro text
  apply Simulates.bind (Simulates.ofExcept _)
  intro size
  split
  · apply Simulates.bind (consumeTrailers_simulates hbound)
    intro _
    exact Simulates.pure 0
  · exact Simulates.pure size

end Chunks
end H12Tiny.Sync
