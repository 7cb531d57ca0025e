import H12Tiny.Foundation.Transitions
import H12Tiny.Sync.Response
import H12Tiny.Sync.Timeouts

/-! # How much a peer can make the client buffer

The limits are checked only when the delimiter is not among the buffered bytes, and then at
most 4096 more are read. So a buffer exceeds its limit by less than one read, and when the
delimiter is found behind a read, less than that read is left behind it. The bounds are for
every moment of a response: every start of an iteration of `read_response_head`, in every
round of `read_response`, and of the loops below `read` of a body, in every sequence of calls.
-/
namespace H12Tiny.Sync

def Within (bound : ℕ) (inbound : Inbound) : Prop := inbound.buffered.length ≤ bound

theorem receive_within (bound capacity : ℕ) : Preserves (Within bound) (receive capacity) := by
  rintro ⟨⟨script,timeout⟩,buffered⟩ hinbound
  rcases script with _ | ⟨event,script⟩
  · exact hinbound
  · cases event <;> exact hinbound

theorem drain_within {ε : Type} (bound count : ℕ) :
    Preserves (Within bound) (drain count : EStateM ε Inbound Bytes) := by
  intro inbound hinbound
  have hle : inbound.buffered.length ≤ bound := hinbound
  simp only [drain,finalState,Within,List.length_drop]
  omega

theorem receive_length {capacity : ℕ} {inbound inbound' : Inbound} {read : Bytes}
    (h : receive capacity inbound = .ok read inbound') : read.length ≤ capacity := by
  obtain ⟨⟨script,timeout⟩,buffered⟩ := inbound
  rcases script with _ | ⟨event,script⟩
  · cases h
    exact Nat.zero_le capacity
  · cases event with
    | fail error => cases h
    | data byte rest =>
      cases h
      exact List.length_take_le capacity _

section Until
variable {ε : Type} {needle : Bytes} {maxLen bound : ℕ} {limit closed : ε} {io : IoError → ε}

theorem readUntilBody_within (hbound : maxLen + 4095 ≤ bound) (u : Unit) :
    Preserves (Within bound) (readUntilBody needle maxLen limit closed io u) := by
  intro inbound hinbound
  have hstep := readUntilBody_step needle maxLen limit closed io inbound
  generalize readUntilBody needle maxLen limit closed io u inbound = result at hstep ⊢
  cases hstep with
  | found _ => exact hinbound
  | limit _ _ => exact hinbound
  | failed _ _ hread => exact (receive_within bound 4096).of_eq hread hinbound
  | closed _ _ hread => exact (receive_within bound 4096).of_eq hread hinbound
  | more _ hlen hread _ =>
    have hbuffered := (receive_size hread).1
    have hlength := receive_length hread
    simp only [finalState,Within,List.length_append,hbuffered]
    omega

/-- Behind the first delimiter there are at most this many bytes. -/
def Leftover (needle : Bytes) (bound : ℕ) (inbound : Inbound) : Prop :=
  ∀ stop, findSub needle inbound.buffered = some stop → inbound.buffered.length ≤ stop + needle.length + bound

theorem leftover_visits {inbound : Inbound} {q : Unit × Inbound}
    (h : Visits (readUntilBody needle maxLen limit closed io) ((),inbound) q) (hstart : Within 4095 inbound) :
    Leftover needle 4095 q.2 := by
  refine h.invariant (Q := fun _ inbound => Leftover needle 4095 inbound) ?_ ?_
  · intro _ inbound _ inbound' _ hbody
    have hstep := readUntilBody_step needle maxLen limit closed io inbound
    rw [hbody] at hstep
    cases hstep with
    | more hfind hlen hread hne =>
      intro stop hstop
      have hbuffered := (receive_size hread).1
      have hlength := receive_length hread
      -- the delimiter ends in the bytes that were just read
      have hlate : inbound.buffered.length < stop + needle.length := by
        by_contra hearly
        dsimp only at hstop
        rw [hbuffered] at hstop
        have hfound := findSub_of_append hstop (Nat.le_of_not_lt hearly)
        rw [hfind] at hfound
        cases hfound
      simp only [List.length_append,hbuffered]
      omega
  · intro stop _
    have hle : inbound.buffered.length ≤ 4095 := hstart
    dsimp only
    omega

theorem takeUntil_leftover {text : Bytes} {inbound inbound' : Inbound}
    (h : takeUntil needle maxLen limit closed io inbound = .ok text inbound') (hstart : Within 4095 inbound) :
    Within 4095 inbound' := by
  unfold takeUntil at h
  simp only [bind,EStateM.bind] at h
  split at h
  next stop found hr =>
    obtain ⟨q,hvisits,hstop⟩ := exists_visits_of_loopM _ hr
    have hstep := readUntilBody_step needle maxLen limit closed io q.2
    rw [hstop] at hstep
    cases hstep with
    | found hfind =>
      have hleft := leftover_visits hvisits hstart stop hfind
      cases h
      simp only [Within,List.length_drop]
      omega
  next => cases h

end Until

theorem steady_within : Steady (Within (maxChunkLineBytes + 4095)) where
  receive := receive_within _
  drain := drain_within _
  line := readUntilBody_within le_rfl

/-! ## The head -/

abbrev headBody : Unit → EStateM Error Inbound (ℕ ⊕ Unit) :=
  readUntilBody (crlf ++ crlf) maxResponseHeadBytes headLimit headClosed (Error.fromIo .response)

section Head
variable {Name Value : Type} (http : HeaderTypes Name Value) [DecidableEq Name]

/-- The buffer when an iteration of `read_response_head` starts, in a round of `read_response`
that may follow any number of interim responses. -/
def HeadMoment (headRequest : Bool) (connection : Connection) (now : Inbound) : Prop :=
  ∃ round, Visits (readResponseBody http headRequest) ((),⟨connection,[]⟩) ((),round) ∧
    Visits headBody ((),round) ((),now)

variable {http} {headRequest : Bool} {connection : Connection}

theorem readResponseBody_leftover {inbound inbound' : Inbound} {r : (Head Name Value × BodyMode) ⊕ Unit}
    (h : readResponseBody http headRequest () inbound = .ok r inbound') (hstart : Within 4095 inbound) :
    Within 4095 inbound' := by
  unfold readResponseBody at h
  simp only [bind,EStateM.bind] at h
  split at h
  next head taken hhead =>
    rw [(ofExcept_eq_ok h).2]
    exact takeUntil_leftover hhead hstart
  next => cases h

/-- Every round starts with what the last read left behind the head before. -/
theorem round_within {q : Unit × Inbound}
    (h : Visits (readResponseBody http headRequest) ((),⟨connection,[]⟩) q) : Within 4095 q.2 :=
  h.invariant (Q := fun _ inbound => Within 4095 inbound) (fun hs hb => readResponseBody_leftover hb hs)
    (Nat.zero_le 4095)

theorem HeadMoment.within {now : Inbound} (h : HeadMoment http headRequest connection now) :
    Within (maxResponseHeadBytes + 4095) now := by
  obtain ⟨round,hround,hnow⟩ := h
  have hstart : Within (maxResponseHeadBytes + 4095) round :=
    (round_within hround).trans (Nat.le_add_left 4095 maxResponseHeadBytes)
  exact hnow.preserves (readUntilBody_within le_rfl) hstart

theorem readResponse_leftover {response : Response Name Value}
    (h : readResponse http headRequest connection = .ok response) : Within 4095 response.body.toInbound := by
  unfold readResponse at h
  split at h
  next hloop =>
    obtain ⟨q,hq,hstop⟩ := exists_visits_of_loopM _ hloop
    cases h
    exact readResponseBody_leftover hstop (round_within hq)
  next => cases h

end Head

/-! ## The body -/

/-- The buffer when an iteration of a loop below `read_chunked` starts: of its own loop, of
the separator, of the size line, or of a trailer line. -/
inductive ChunkMoment (capacity : ℕ) (start : ChunkedBody) : Inbound → Prop
  | chunk {body : ChunkedBody} (hchunk : Visits (readChunkedBody capacity) ((),start) ((),body)) :
      ChunkMoment capacity start body.toInbound
  | separator {body : ChunkedBody} {output : Bytes} {now : Inbound}
      (hchunk : Visits (readChunkedBody capacity) ((),start) ((),body))
      (hbetween : body.state.complete = false ∧ body.state.remaining = 0)
      (hdue : body.state.separatorDue = true)
      (hnow : Visits (readExactBody 2) ([],body.toInbound) (output,now)) : ChunkMoment capacity start now
  | sizeLine {body : ChunkedBody} {behind now : Inbound}
      (hchunk : Visits (readChunkedBody capacity) ((),start) ((),body))
      (hbetween : body.state.complete = false ∧ body.state.remaining = 0)
      (hseparator : readSeparator body.state.separatorDue body.toInbound = .ok () behind)
      (hnow : Visits lineBody ((),behind) ((),now)) : ChunkMoment capacity start now
  | trailerLine {body : ChunkedBody} {behind last trailer now : Inbound} {line : Bytes} {total : ℕ}
      (hchunk : Visits (readChunkedBody capacity) ((),start) ((),body))
      (hbetween : body.state.complete = false ∧ body.state.remaining = 0)
      (hseparator : readSeparator body.state.separatorDue body.toInbound = .ok () behind)
      (hline : readLine maxChunkLineBytes behind = .ok line last) (hsize : parseChunkSize line = .ok 0)
      (htrailer : Visits consumeTrailersBody (0,last) (total,trailer))
      (hnow : Visits lineBody ((),trailer) ((),now)) : ChunkMoment capacity start now

/-- The buffer before a call of `read`, behind it, and within it. -/
inductive ReadMoment (capacity : ℕ) (body : ResponseBody) : Inbound → Prop
  | before : ReadMoment capacity body body.toInbound
  | behind : ReadMoment capacity body (finalState (ResponseBody.read capacity body)).toInbound
  | within {state : ChunkState} {now : Inbound} (hmode : body.mode = .chunked state) (hcapacity : capacity ≠ 0)
      (hnow : ChunkMoment capacity ⟨body.toInbound,state⟩ now) : ReadMoment capacity body now

section Body
variable {P : Inbound → Prop} {capacity : ℕ} {now : Inbound}

theorem ChunkMoment.steady {start : ChunkedBody} (h : ChunkMoment capacity start now) (hP : Steady P)
    (hstart : P start.toInbound) : P now := by
  have hchunked : ∀ {body : ChunkedBody}, Visits (readChunkedBody capacity) ((),start) ((),body) →
      P body.toInbound := fun hchunk => hchunk.preserves (hP.readChunkedBody capacity) hstart
  cases h with
  | chunk hchunk => exact hchunked hchunk
  | separator hchunk _ _ hnow => exact hnow.preserves (hP.readExactBody 2) (hchunked hchunk)
  | sizeLine hchunk _ hseparator hnow =>
    have hbehind := (hP.readSeparator _).of_eq hseparator (hchunked hchunk)
    exact hnow.preserves hP.line hbehind
  | trailerLine hchunk _ hseparator hline _ htrailer hnow =>
    have hbehind := (hP.readSeparator _).of_eq hseparator (hchunked hchunk)
    have hlast := hP.readLine.of_eq hline hbehind
    have htotal := htrailer.preserves hP.consumeTrailersBody hlast
    exact hnow.preserves hP.line htotal

theorem ReadMoment.steady {body : ResponseBody} (h : ReadMoment capacity body now) (hP : Steady P)
    (hbody : P body.toInbound) : P now := by
  cases h with
  | before => exact hbody
  | behind => exact hP.read capacity body hbody
  | within _ _ hnow => exact hnow.steady hP hbody

/-- The body after a call, whether it failed or not. -/
def ResponseBody.call (body : ResponseBody) : Call → ResponseBody
  | .setReadTimeout timeout => finalState (body.setReadTimeout timeout)
  | .read capacity => finalState (ResponseBody.read capacity body)

theorem call_within {bound : ℕ} (hP : Steady (Within bound)) {body : ResponseBody}
    (hbody : Within bound body.toInbound) (call : Call) : Within bound (body.call call).toInbound := by
  cases call with
  | read capacity => exact hP.read capacity body hbody
  | setReadTimeout timeout =>
    have hresult := setReadTimeout_result timeout body
    unfold ResponseBody.call
    dsimp only
    generalize body.setReadTimeout timeout = result at hresult ⊢
    cases hresult <;> exact hbody

end Body

/-! ## The trailers -/

/-- The lines that `consume_trailers` accepts from here on, or the first few of them. -/
inductive AcceptsTrailers : ℕ → Inbound → List Bytes → Prop
  | none (total : ℕ) (inbound : Inbound) : AcceptsTrailers total inbound []
  | last {total : ℕ} {inbound inbound' : Inbound} {line : Bytes}
      (hline : readLine maxChunkLineBytes inbound = .ok line inbound')
      (hcheck : checkTrailer total line = .ok (.inl ())) : AcceptsTrailers total inbound [line]
  | more {total total' : ℕ} {inbound inbound' : Inbound} {line : Bytes} {lines : List Bytes}
      (hline : readLine maxChunkLineBytes inbound = .ok line inbound')
      (hcheck : checkTrailer total line = .ok (.inr total')) (hlines : AcceptsTrailers total' inbound' lines) :
      AcceptsTrailers total inbound (line :: lines)

def lineBytes (lines : List Bytes) : ℕ := (lines.map fun line => line.length + 2).sum

theorem AcceptsTrailers.bounded {total : ℕ} {inbound : Inbound} {lines : List Bytes}
    (h : AcceptsTrailers total inbound lines) (htotal : total ≤ maxTrailerBytes) :
    total + lineBytes lines ≤ maxTrailerBytes := by
  induction h with
  | none total inbound => exact htotal
  | last _ hcheck => exact (checkTrailer_ok hcheck).1
  | more _ hcheck _ ih =>
    obtain ⟨hle,⟨_,hlast⟩ | ⟨_,_,hnext⟩⟩ := checkTrailer_ok hcheck
    · cases hlast
    · cases hnext
      have hrest := ih hle
      simp only [lineBytes,List.map_cons,List.sum_cons] at hrest ⊢
      omega

theorem consumeTrailersBody_ok {total : ℕ} {inbound inbound' : Inbound} {r : Unit ⊕ ℕ}
    (h : consumeTrailersBody total inbound = .ok r inbound') :
    ∃ line, readLine maxChunkLineBytes inbound = .ok line inbound' ∧ checkTrailer total line = .ok r := by
  unfold consumeTrailersBody at h
  simp only [bind,EStateM.bind] at h
  split at h
  next line behind hline =>
    obtain ⟨hcheck,rfl⟩ := ofExcept_eq_ok h
    exact ⟨line,hline,hcheck⟩
  next => cases h

theorem consumeTrailers_accepts {total : ℕ} {inbound inbound' : Inbound}
    (h : loopM consumeTrailersBody _ consumeTrailers_lowers total inbound = .ok () inbound') :
    ∃ lines, AcceptsTrailers total inbound lines ∧ inbound.size = lineBytes lines + inbound'.size := by
  have hsize : ∀ {inbound inbound' : Inbound} {line : Bytes},
      readLine maxChunkLineBytes inbound = .ok line inbound' → inbound.size = line.length + 2 + inbound'.size :=
    fun hline => takeUntil_size hline
  refine loopM_induction consumeTrailers_lowers (P := fun total inbound r => r = .ok () inbound' →
    ∃ lines, AcceptsTrailers total inbound lines ∧ inbound.size = lineBytes lines + inbound'.size)
    ?_ ?_ ?_ total inbound h
  · rintro total inbound _ _ hbody hr
    cases hr
    obtain ⟨line,hline,hcheck⟩ := consumeTrailersBody_ok hbody
    exact ⟨[line],.last hline hcheck,hsize hline⟩
  · rintro total inbound error _ hbody hr
    cases hr
  · rintro total inbound total' next r hbody hnext hr
    obtain ⟨line,hline,hcheck⟩ := consumeTrailersBody_ok hbody
    obtain ⟨lines,hlines,hrest⟩ := hnext hr
    refine ⟨line :: lines,.more hline hcheck hlines,?_⟩
    rw [hsize hline,hrest]
    simp only [lineBytes,List.map_cons,List.sum_cons]
    omega

/-! ## The life of a response -/

section Life
variable {Name Value : Type} (http : HeaderTypes Name Value) [DecidableEq Name]

/-- Whatever the peer sends and however it arrives: the buffer of the head is bounded in every
round, less than one read is carried over into the body, the buffer of the body is bounded in
every moment of every sequence of calls, and so are the trailers that are accepted. -/
theorem buffering_bounded (headRequest : Bool) (connection : Connection) :
    (∀ now, HeadMoment http headRequest connection now →
      now.buffered.length ≤ maxResponseHeadBytes + 4095) ∧
    (∀ response, readResponse http headRequest connection = .ok response →
      response.body.buffered.length ≤ 4095 ∧
      ∀ body, Reaches (fun body call => some (ResponseBody.call body call)) (fun _ _ => True) response.body body →
        body.buffered.length ≤ maxChunkLineBytes + 4095 ∧
        ∀ capacity now, ReadMoment capacity body now → now.buffered.length ≤ maxChunkLineBytes + 4095) ∧
    ∀ inbound, (∀ lines, AcceptsTrailers 0 inbound lines → lineBytes lines ≤ maxTrailerBytes) ∧
      ∀ inbound', consumeTrailers inbound = .ok () inbound' → ∃ lines, AcceptsTrailers 0 inbound lines ∧
        inbound.size = lineBytes lines + inbound'.size := by
  refine ⟨fun now hnow => hnow.within,fun response hresponse => ?_,fun inbound => ⟨fun lines hlines => ?_,?_⟩⟩
  · have hcarried := readResponse_leftover hresponse
    refine ⟨hcarried,fun body hbody => ?_⟩
    have hstart : Within (maxChunkLineBytes + 4095) response.body.toInbound :=
      hcarried.trans (Nat.le_add_left 4095 maxChunkLineBytes)
    have hwithin : Within (maxChunkLineBytes + 4095) body.toInbound :=
      Reaches.invariant (I := fun body : ResponseBody => Within (maxChunkLineBytes + 4095) body.toInbound)
        (fun hi _ hstep => by
          cases hstep
          exact call_within steady_within hi _) hstart hbody
    exact ⟨hwithin,fun capacity now hnow => hnow.steady steady_within hwithin⟩
  · have hbounded := hlines.bounded (Nat.zero_le maxTrailerBytes)
    omega
  · exact fun inbound' hreturned => consumeTrailers_accepts hreturned

end Life

end H12Tiny.Sync
