import H12Tiny.Sync.RoundTrip
import H12Tiny.Foundation.Transitions

/-! # When completion is sound

Any sequence of calls on a chunked body, also behind calls that failed. An error in
the framing leaves the mode as it was while bytes are gone: from then on the mode says
nothing about the bytes to come, and a later call may take what it finds for the
framing of the body. As long as this has not happened, and the lines ahead have no sign
before the extension and no bare line end, what has been read is the front of a
well-formed body and what has been delivered is its data.
-/
namespace H12Tiny.Sync

def hasLineEnd (text : Bytes) : Bool := cr ∈ text ∨ lf ∈ text

def strictSize (text : Bytes) : Bool := plus ∉ text.takeWhile (· ≠ semicolon) ∧ hasLineEnd text = false

/-- The trailer lines at the front of these bytes have no bare line end. -/
def strictTrailers : ℕ → Bytes → Bool
  | 0, _ => true
  | fuel + 1, bytes =>
    match findCrlf bytes with
    | none => true
    | some stop =>
      !hasLineEnd (bytes.take stop) && (stop = 0 || strictTrailers fuel (bytes.drop (stop + 2)))

/-- So have the size line and, behind a size of zero, the trailers. -/
def strictFraming (bytes : Bytes) : Bool :=
  match findCrlf bytes with
  | none => true
  | some stop =>
    strictSize (bytes.take stop) &&
      ((parseChunkSize (bytes.take stop)).toOption ≠ some 0 ||
        strictTrailers (bytes.drop (stop + 2)).length (bytes.drop (stop + 2)))

/-- The framing that the next call reads, as far as it has come in. -/
def ResponseBody.strictAhead (body : ResponseBody) : Bool :=
  match body.mode with
  | .chunked state =>
    state.complete || state.remaining ≠ 0 ||
      strictFraming (body.wire.ready.drop (lead state.separatorDue).length)
  | _ => true

theorem hasLineEnd_eq_false {text : Bytes} (h : hasLineEnd text = false) : cr ∉ text ∧ lf ∉ text := by
  rw [hasLineEnd,decide_eq_false_iff_not,not_or] at h
  exact h

section Shape
variable {wire rest : Wire}

theorem Wire.trailersBody_ok {total : ℕ} {result : Unit ⊕ ℕ} (h : Wire.trailersBody none total wire = .ok result rest) :
    ∃ text, findCrlf wire.ready = some text.length ∧ wire = rest.prepend (text ++ crlf) ∧
      checkTrailer total text = .ok result := by
  unfold Wire.trailersBody at h
  simp only [bind,EStateM.bind] at h
  split at h
  next text wire₁ hline =>
    obtain ⟨hfind,hwire⟩ := Wire.line_ok hline
    obtain ⟨hcheck,hrest⟩ := ofExcept_eq_ok h
    subst hrest
    exact ⟨text,hfind,hwire,hcheck⟩
  next => cases h

theorem ready_line {text : Bytes} (hwire : wire = rest.prepend (text ++ crlf)) :
    wire.ready.take text.length = text ∧ wire.ready.drop (text.length + 2) = rest.ready := by
  have hready : wire.ready = text ++ crlf ++ rest.ready := by
    rw [hwire]
    rfl
  constructor
  · rw [hready,List.append_assoc,List.take_left]
  · rw [hready,← crlf_length,← List.length_append,List.drop_left]

theorem strictTrailers_line {fuel : ℕ} {text : Bytes} (hfind : findCrlf wire.ready = some text.length)
    (hwire : wire = rest.prepend (text ++ crlf)) (hfuel : wire.ready.length ≤ fuel)
    (hstrict : strictTrailers fuel wire.ready = true) :
    (cr ∉ text ∧ lf ∉ text) ∧ (text = [] ∨ strictTrailers (fuel - 1) rest.ready = true) ∧
      rest.ready.length ≤ fuel - 1 := by
  obtain ⟨htake,hdrop⟩ := ready_line hwire
  have hlen : wire.ready.length = text.length + 2 + rest.ready.length := by
    rw [hwire,Wire.prepend,List.length_append,List.length_append,crlf_length]
  cases fuel with
  | zero => omega
  | succ fuel =>
    rw [strictTrailers,hfind] at hstrict
    simp only [htake,hdrop,Bool.and_eq_true,Bool.not_eq_true',Bool.or_eq_true,decide_eq_true_eq] at hstrict
    refine ⟨hasLineEnd_eq_false hstrict.1,?_,by omega⟩
    exact hstrict.2.imp_left List.eq_nil_of_length_eq_zero

theorem Wire.trailers_ok (total : ℕ) (wire : Wire) :
    ∀ {rest : Wire} {fuel : ℕ},
      loopM (Wire.trailersBody none) _ (Wire.trailers_lowers none) total wire = .ok () rest →
      wire.ready.length ≤ fuel → strictTrailers fuel wire.ready = true →
      ∃ trailers : List Trailer, wire = rest.prepend (trailerWire (trailers.map Trailer.text)) := by
  refine loopM_induction (Wire.trailers_lowers none) (P := fun _ wire r => ∀ {rest : Wire} {fuel : ℕ},
    r = .ok () rest → wire.ready.length ≤ fuel → strictTrailers fuel wire.ready = true →
      ∃ trailers : List Trailer, wire = rest.prepend (trailerWire (trailers.map Trailer.text))) ?_ ?_ ?_ total wire
  · intro total wire _ _ hb _ _ hr _ _
    cases hr
    obtain ⟨text,_,hwire,hcheck⟩ := Wire.trailersBody_ok hb
    rcases (checkTrailer_ok hcheck).2 with ⟨rfl,_⟩ | ⟨_,_,hresult⟩
    · exact ⟨[],hwire⟩
    · cases hresult
  · intro _ _ _ _ _ _ _ hr
    cases hr
  · intro total wire _ _ _ hb ih rest fuel hr hfuel hstrict
    obtain ⟨text,hfind,hwire,hcheck⟩ := Wire.trailersBody_ok hb
    rcases (checkTrailer_ok hcheck).2 with ⟨_,hresult⟩ | ⟨hne,hcolon,_⟩
    · cases hresult
    · obtain ⟨hclean,hrest,hfuel'⟩ := strictTrailers_line hfind hwire hfuel hstrict
      obtain ⟨trailers,htrailers⟩ := ih hr hfuel' (hrest.resolve_left hne)
      refine ⟨⟨text,hne,hcolon,hclean⟩ :: trailers,?_⟩
      rw [hwire,htrailers,List.map_cons,trailerWire_cons,Wire.prepend_prepend]

theorem Wire.separator_ok {separatorDue : Bool} (h : Wire.separator separatorDue wire = .ok () rest) :
    wire = rest.prepend (lead separatorDue) := by
  cases separatorDue with
  | false =>
    cases h
    rfl
  | true =>
    simp only [Wire.separator,if_true,bind,EStateM.bind,Wire.exact] at h
    split at h
    next hexact =>
      split at hexact
      · cases hexact
        obtain ⟨hcheck,hrest⟩ := ofExcept_eq_ok h
        unfold checkSeparator at hcheck
        split at hcheck
        · cases hcheck
        next hcrlf =>
          rw [hrest]
          have htake : wire.ready.take 2 = crlf := not_not.mp hcrlf
          simp only [Wire.prepend,lead,if_true,← htake,List.take_append_drop]
      · split at hexact
        · cases hexact
        · cases hexact
    next => cases h

theorem Wire.announced_ok {text : Bytes} {size : ℕ} (h : Wire.announced none text wire = .ok size rest) :
    parseChunkSize text = .ok size ∧
      ((size ≠ 0 ∧ rest = wire) ∨ (size = 0 ∧ Wire.trailers none wire = .ok () rest)) := by
  unfold Wire.announced at h
  simp only [bind,EStateM.bind] at h
  split at h
  next n wire₁ hok =>
    obtain ⟨hparse,rfl⟩ := ofExcept_eq_ok hok
    split at h
    next hzero =>
      simp only [EStateM.bind] at h
      split at h
      next htrailers =>
        cases h
        exact ⟨by rw [hparse,hzero],Or.inr ⟨rfl,htrailers⟩⟩
      next => cases h
    next hne =>
      cases h
      exact ⟨hparse,Or.inl ⟨hne,rfl⟩⟩
  next => cases h

theorem strictFraming_line {text : Bytes} (hfind : findCrlf wire.ready = some text.length)
    (hwire : wire = rest.prepend (text ++ crlf)) (hstrict : strictFraming wire.ready = true) :
    strictSize text = true ∧
      (parseChunkSize text = .ok 0 → strictTrailers rest.ready.length rest.ready = true) := by
  obtain ⟨htake,hdrop⟩ := ready_line hwire
  rw [strictFraming,hfind] at hstrict
  simp only [htake,hdrop,Bool.and_eq_true,Bool.or_eq_true,decide_eq_true_eq] at hstrict
  refine ⟨hstrict.1,?_⟩
  intro hparse
  apply hstrict.2.resolve_left
  rw [hparse]
  exact fun hne => hne rfl

/-- Framing that was accepted and is strict is framing of the grammar. -/
theorem Wire.nextChunk_ok {separatorDue : Bool} {size : ℕ}
    (h : Wire.nextChunk none separatorDue wire = .ok size rest)
    (hstrict : strictFraming (wire.ready.drop (lead separatorDue).length) = true) :
    ∃ line : SizeLine, line.value = size ∧
      ((size ≠ 0 ∧ wire = rest.prepend (lead separatorDue ++ (line.text ++ crlf))) ∨
        ∃ trailers : List Trailer, size = 0 ∧ wire = rest.prepend
          (lead separatorDue ++ (line.text ++ crlf ++ trailerWire (trailers.map Trailer.text)))) := by
  unfold Wire.nextChunk at h
  simp only [bind,EStateM.bind] at h
  split at h
  next wire₁ hseparator =>
    have hwire := Wire.separator_ok hseparator
    split at h
    next text wire₂ hline =>
      obtain ⟨hfind,hwire₁⟩ := Wire.line_ok hline
      obtain ⟨hparse,hrest⟩ := Wire.announced_ok h
      have hdrop : wire.ready.drop (lead separatorDue).length = wire₁.ready := by
        rw [hwire]
        exact List.drop_left
      rw [hdrop] at hstrict
      obtain ⟨hsize,htrailers⟩ := strictFraming_line hfind hwire₁ hstrict
      rw [strictSize,decide_eq_true_eq] at hsize
      obtain ⟨hcr,hlf⟩ := hasLineEnd_eq_false hsize.2
      obtain ⟨line,rfl,hvalue⟩ := SizeLine.exists_of_parse hparse hsize.1 hcr hlf
      refine ⟨line,hvalue,?_⟩
      rcases hrest with ⟨hne,rfl⟩ | ⟨hzero,hloop⟩
      · exact Or.inl ⟨hne,by rw [hwire,hwire₁,Wire.prepend_prepend]⟩
      · rw [hzero] at hparse
        obtain ⟨trailers,htexts⟩ := Wire.trailers_ok 0 wire₂ hloop le_rfl (htrailers hparse)
        exact Or.inr ⟨trailers,hzero,by
          rw [hwire,hwire₁,htexts,Wire.prepend_prepend,Wire.prepend_prepend,List.append_assoc (lead separatorDue)]⟩
    next => cases h
  next => cases h

end Shape

def chunksWire (chunks : List Chunk) : Bytes :=
  (chunks.map fun chunk => chunk.size.text ++ crlf ++ chunk.data ++ crlf).flatten

/-- A mode, the bytes to come and the bytes delivered, when all that was taken off the
stream is the front of a well-formed body. -/
inductive Progress (stream : Bytes) : ChunkState → Bytes → Bytes → Prop
  | start : Progress stream ⟨0,false,false⟩ stream []
  | data {chunks : List Chunk} {size : SizeLine} {got unread : Bytes} {remaining : ℕ}
      (hstream : stream = chunksWire chunks ++ (size.text ++ crlf ++ (got ++ unread)))
      (hsize : size.value = got.length + remaining) (hpos : size.value ≠ 0) :
      Progress stream ⟨remaining,remaining = 0,false⟩ unread (messageData chunks ++ got)
  | complete {message : Chunked} {unread : Bytes} (hstream : stream = message.wire ++ unread) :
      Progress stream ⟨0,false,true⟩ unread message.data

/-- The data of whole chunks at the front of the stream and of a part of the next one. -/
inductive FrontData (stream : Bytes) : Bytes → Prop
  | whole {chunks : List Chunk} {unread : Bytes} (hstream : stream = chunksWire chunks ++ unread) :
      FrontData stream (messageData chunks)
  | inside {chunks : List Chunk} {size : SizeLine} {got unread : Bytes}
      (hstream : stream = chunksWire chunks ++ (size.text ++ crlf ++ (got ++ unread)))
      (hsize : got.length ≤ size.value) : FrontData stream (messageData chunks ++ got)

section Progress
variable {stream unread delivered : Bytes} {state : ChunkState}

theorem Progress.frontData (h : Progress stream state unread delivered) : FrontData stream delivered := by
  cases h with
  | start => exact @FrontData.whole stream [] stream rfl
  | data hstream hsize _ => exact .inside hstream (hsize ▸ Nat.le_add_right _ _)
  | @complete message unread hstream =>
    have hwire : message.wire ++ unread = chunksWire message.chunks ++ (message.last.text ++ crlf ++
        (message.trailers.map fun trailer => trailer.text ++ crlf).flatten ++ crlf ++ unread) := by
      simp only [Chunked.wire,chunksWire,List.append_assoc]
    exact .whole (hstream.trans hwire)

theorem Progress.boundary (h : Progress stream state unread delivered) (hcomplete : state.complete = false)
    (hzero : state.remaining = 0) {further : Bytes} (hunread : unread = lead state.separatorDue ++ further) :
    ∃ chunks, stream = chunksWire chunks ++ further ∧ delivered = messageData chunks := by
  cases h with
  | start => exact ⟨[],hunread,rfl⟩
  | @data chunks size got _ remaining hstream hsize hpos =>
    dsimp only at hzero
    subst hzero
    have hne : got ≠ [] := by
      rintro rfl
      exact hpos hsize
    refine ⟨chunks ++ [⟨size,got,hne,hsize⟩],?_,?_⟩
    · rw [hstream,hunread]
      simp [chunksWire,lead]
    · simp [messageData]
  | complete _ => cases hcomplete

theorem Progress.opens (h : Progress stream state unread delivered) (hcomplete : state.complete = false)
    (hzero : state.remaining = 0) {line : SizeLine} {further : Bytes} (hne : line.value ≠ 0)
    (hunread : unread = lead state.separatorDue ++ (line.text ++ crlf) ++ further) :
    Progress stream ⟨line.value,false,false⟩ further delivered := by
  rw [List.append_assoc] at hunread
  obtain ⟨chunks,hstream,hdelivered⟩ := h.boundary hcomplete hzero hunread
  have hdata : Progress stream ⟨line.value,line.value = 0,false⟩ further (messageData chunks ++ []) :=
    .data hstream (Nat.zero_add _).symm hne
  rw [List.append_nil,← hdelivered,decide_eq_false hne] at hdata
  exact hdata

theorem Progress.finishes (h : Progress stream state unread delivered) (hcomplete : state.complete = false)
    (hzero : state.remaining = 0) {line : SizeLine} {trailers : List Trailer} {further : Bytes}
    (hvalue : line.value = 0) (hunread : unread = lead state.separatorDue ++
      (line.text ++ crlf ++ trailerWire (trailers.map Trailer.text)) ++ further) :
    Progress stream ⟨0,false,true⟩ further delivered := by
  rw [List.append_assoc] at hunread
  obtain ⟨chunks,hstream,hdelivered⟩ := h.boundary hcomplete hzero hunread
  have hwire : stream = (Chunked.mk chunks line hvalue trailers).wire ++ further := by
    rw [hstream]
    simp only [Chunked.wire,chunksWire,trailerWire,linesWire,List.map_map,List.append_assoc]
    rfl
  rw [hdelivered]
  exact .complete hwire

theorem Progress.piece (h : Progress stream state unread delivered) (hcomplete : state.complete = false)
    {read further : Bytes} (hpos : state.remaining ≠ 0) (hlen : read.length ≤ state.remaining)
    (hunread : unread = read ++ further) :
    Progress stream ⟨state.remaining - read.length,state.remaining = read.length,false⟩ further
      (delivered ++ read) := by
  cases h with
  | start => exact absurd rfl hpos
  | @data chunks size got _ remaining hstream hsize hpos' =>
    dsimp only at hpos hlen ⊢
    have hdue : decide (remaining = read.length) = decide (remaining - read.length = 0) :=
      decide_eq_decide.mpr (by omega)
    rw [hdue,List.append_assoc]
    refine .data ?_ ?_ hpos'
    · rw [hstream,hunread]
      simp only [List.append_assoc]
    · rw [List.length_append,hsize]
      omega
  | complete _ => cases hcomplete

section Read
variable {wire rest : Wire} {chunk : ChunkState} {capacity : ℕ}

theorem Progress.opened (h : Progress stream state wire.bytes delivered) (hcomplete : state.complete = false)
    (hstrict : state.remaining = 0 → strictFraming (wire.ready.drop (lead state.separatorDue).length) = true)
    (hopens : Opens none state wire chunk rest) :
    Progress stream chunk rest.bytes delivered ∧ chunk.complete = false ∧ chunk.remaining ≠ 0 := by
  cases hopens with
  | within hpos => exact ⟨h,hcomplete,hpos⟩
  | next hzero hnext hsize =>
    obtain ⟨line,rfl,⟨_,hwire⟩ | ⟨_,hz,_⟩⟩ := Wire.nextChunk_ok hnext (hstrict hzero)
    · rw [hwire,Wire.bytes_prepend] at h
      exact ⟨h.opens hcomplete hzero hsize rfl,rfl,hsize⟩
    · exact absurd hz hsize

/-- A call keeps the mode true to the bytes, or fails and leaves the mode as it was. -/
theorem Progress.read {r : EStateM.Result IoError ChunkedBody Bytes}
    (h : Progress stream state wire.bytes delivered)
    (hstrict : state.complete = false → state.remaining = 0 →
      strictFraming (wire.ready.drop (lead state.separatorDue).length) = true)
    (hreads : Reads none capacity state wire r) :
    (∀ read body, r = .ok read body → Progress stream body.state body.wire.bytes (delivered ++ read)) ∧
    (∀ error body, r = .error error body → body.state.complete = false ∧
      (body.state = state ∨ Progress stream body.state body.wire.bytes delivered)) := by
  cases hreads with
  | complete _ hwire =>
    refine ⟨?_,nofun⟩
    intro _ _ hr
    cases hr
    rw [List.append_nil,hwire]
    exact h
  | framing hcomplete _ _ =>
    refine ⟨nofun,?_⟩
    intro _ _ hr
    cases hr
    exact ⟨hcomplete,Or.inl rfl⟩
  | gaveUp hcomplete _ _ =>
    refine ⟨nofun,?_⟩
    intro _ _ hr
    cases hr
    exact ⟨hcomplete,Or.inl rfl⟩
  | finished hcomplete hzero hnext =>
    refine ⟨?_,nofun⟩
    intro _ _ hr
    cases hr
    obtain ⟨line,hvalue,⟨hne,_⟩ | ⟨trailers,_,hwire⟩⟩ := Wire.nextChunk_ok hnext (hstrict hcomplete hzero)
    · exact absurd rfl hne
    · rw [hwire,Wire.bytes_prepend] at h
      rw [List.append_nil]
      exact h.finishes hcomplete hzero hvalue rfl
  | data hcomplete hopens hrest _ hlen =>
    refine ⟨?_,nofun⟩
    intro _ _ hr
    cases hr
    obtain ⟨hopened,hdone,hpos⟩ := h.opened hcomplete (hstrict hcomplete) hopens
    rw [hrest,Wire.bytes_prepend] at hopened
    exact hopened.piece hdone hpos (by omega) rfl
  | closed hcomplete hopens _ hwire =>
    refine ⟨nofun,?_⟩
    intro _ _ hr
    cases hr
    obtain ⟨hopened,hdone,_⟩ := h.opened hcomplete (hstrict hcomplete) hopens
    rw [← hwire] at hopened
    exact ⟨hdone,Or.inr hopened⟩
  | failed hcomplete hopens hrest =>
    refine ⟨nofun,?_⟩
    intro _ _ hr
    cases hr
    obtain ⟨hopened,hdone,_⟩ := h.opened hcomplete (hstrict hcomplete) hopens
    rw [hrest,Wire.bytes_fail] at hopened
    exact ⟨hdone,Or.inr hopened⟩

end Read
end Progress

/-- A body in the hands of a caller: what it has delivered so far, and whether a call has
failed that took bytes off the connection and left the mode as it was. -/
structure Reading where
  body : ResponseBody
  delivered : Bytes
  torn : Bool

def Reading.call (reading : Reading) (capacity : ℕ) : Option Reading :=
  match reading.body.read capacity with
  | .ok read body => some ⟨body,reading.delivered ++ read,reading.torn⟩
  | .error _ body =>
    some ⟨body,reading.delivered,reading.torn ||
      decide (body.mode = reading.body.mode ∧ body.wire.bytes ≠ reading.body.wire.bytes)⟩

/-- No call before has torn the body, and the framing ahead is strict. -/
def Reading.Sound (reading : Reading) (_ : ℕ) : Prop :=
  reading.torn = false ∧ reading.body.strictAhead = true

/-- The mode is true to the bytes, unless the body is torn; then it is not complete, and
nothing was delivered from beyond. -/
def Reading.Consistent (stream : Bytes) (reading : Reading) : Prop :=
  ∃ state, reading.body.mode = .chunked state ∧
    (reading.torn = false → Progress stream state reading.body.wire.bytes reading.delivered) ∧
    (reading.torn = true → state.complete = false) ∧ FrontData stream reading.delivered

theorem Reading.Consistent.call {stream : Bytes} {reading reading' : Reading} {capacity : ℕ}
    (h : reading.Consistent stream) (hsound : reading.Sound capacity)
    (hcall : reading.call capacity = some reading') : reading'.Consistent stream := by
  obtain ⟨⟨inbound,mode⟩,delivered,torn⟩ := reading
  obtain ⟨state,hmode,hprogress,_,hfront⟩ := h
  obtain ⟨htorn,hstrict⟩ := hsound
  dsimp only at hmode hprogress htorn
  subst hmode htorn
  have hprogress := hprogress rfl
  rcases Nat.eq_zero_or_pos capacity with rfl | hcap
  · cases hcall
    dsimp only
    rw [List.append_nil]
    exact ⟨state,rfl,fun _ => hprogress,nofun,hfront⟩
  · have hahead : state.complete = false → state.remaining = 0 →
        strictFraming (inbound.wire.ready.drop (lead state.separatorDue).length) = true := by
      intro hcomplete hzero
      simpa [ResponseBody.strictAhead,hcomplete,hzero] using hstrict
    have hreads := readChunked_reads hcap (Or.inl rfl) ⟨inbound,state⟩ (Or.inl rfl)
    obtain ⟨hok,herror⟩ := hprogress.read hahead hreads
    unfold Reading.call at hcall
    dsimp only at hcall
    split at hcall
    next hread =>
      cases hcall
      obtain ⟨inbound',state',hchunked,rfl⟩ := read_chunked_ok hcap hread
      exact ⟨state',rfl,fun _ => hok _ _ hchunked,nofun,(hok _ _ hchunked).frontData⟩
    next hread =>
      cases hcall
      obtain ⟨inbound',state',hchunked,rfl⟩ := read_chunked_error hcap hread
      obtain ⟨hcomplete,hkept⟩ := herror _ _ hchunked
      refine ⟨state',rfl,?_,fun _ => hcomplete,hfront⟩
      intro hwhole
      dsimp only at hkept ⊢
      rcases hkept with rfl | hprogress'
      · have hbytes : inbound'.wire.bytes = inbound.wire.bytes := by simpa using hwhole
        rw [hbytes]
        exact hprogress
      · exact hprogress'

/-- In a run whose calls are all made on a body that is not torn, with strict framing
ahead, completion means that the bytes taken are exactly one well-formed body and the
bytes delivered its data. In every state the bytes delivered are the data at the well-formed
front of the stream, and a body that an error has torn is not complete. -/
theorem completion_sound (body : ResponseBody) (hmode : body.mode = .chunked ⟨0,false,false⟩) :
    ∀ reading, Reaches Reading.call Reading.Sound ⟨body,[],false⟩ reading →
      (reading.body.isComplete = true →
        ∃ message : Chunked, body.wire.bytes = message.wire ++ reading.body.wire.bytes ∧
          reading.delivered = message.data) ∧
      FrontData body.wire.bytes reading.delivered ∧ (reading.torn = true → reading.body.isComplete = false) := by
  intro reading hreach
  have hstart : Reading.Consistent body.wire.bytes ⟨body,[],false⟩ :=
    ⟨⟨0,false,false⟩,hmode,fun _ => .start,nofun,Progress.start.frontData⟩
  have hconsistent : reading.Consistent body.wire.bytes :=
    hreach.invariant (I := Reading.Consistent body.wire.bytes) (fun h hs hc => h.call hs hc) hstart
  obtain ⟨state,hmode',hprogress,htorn,hfront⟩ := hconsistent
  have hcomplete : reading.body.isComplete = state.complete := by
    unfold ResponseBody.isComplete
    rw [hmode']
  rw [hcomplete]
  refine ⟨?_,hfront,htorn⟩
  intro hdone
  have hwhole : reading.torn = false := by
    refine Bool.eq_false_iff.mpr fun h => ?_
    cases (htorn h).symm.trans hdone
  have hprogress := hprogress hwhole
  generalize reading.body.wire.bytes = unread at hprogress ⊢
  generalize reading.delivered = delivered at hprogress ⊢
  cases hprogress with
  | start => cases hdone
  | data _ _ _ => cases hdone
  | complete hstream => exact ⟨_,hstream,rfl⟩

/-- Two chunks with an extension and a trailer behind them. -/
theorem completion_sound_extended : ∃ reading,
    Reaches Reading.call Reading.Sound ⟨flowing extended.wire,[],false⟩ reading ∧
    reading.body.isComplete = true ∧ ∃ message : Chunked,
      (flowing extended.wire).wire.bytes = message.wire ++ reading.body.wire.bytes ∧
      reading.delivered = message.data := by
  obtain ⟨first,second,third,hfirst,hsecond,hthird,hsound,hsound',hsound'',hcomplete⟩ :
      ∃ first second third : Reading,
      Reading.call ⟨flowing extended.wire,[],false⟩ 7 = some first ∧ first.call 7 = some second ∧
      second.call 7 = some third ∧ Reading.Sound ⟨flowing extended.wire,[],false⟩ 7 ∧ first.Sound 7 ∧
      second.Sound 7 ∧ third.body.isComplete = true :=
    ⟨_,_,_,rfl,rfl,rfl,⟨rfl,rfl⟩,⟨rfl,rfl⟩,⟨rfl,rfl⟩,rfl⟩
  have hreach : Reaches Reading.call Reading.Sound ⟨flowing extended.wire,[],false⟩ third :=
    .step (.step (.step .refl hsound hfirst) hsound' hsecond) hsound'' hthird
  exact ⟨third,hreach,hcomplete,(completion_sound (flowing extended.wire) rfl third hreach).1 hcomplete⟩

theorem Chunked.within_of_length {message : Chunked} (h : message.wire.length ≤ 8 * 1024) :
    message.WithinLimits := by
  have hlen := h
  simp only [Chunked.wire,List.length_append,crlf_length] at hlen
  refine ⟨?_,by omega,?_,?_⟩
  · intro chunk hm
    have hsub := (List.sublist_flatten_of_mem (List.mem_map_of_mem
      (f := fun chunk : Chunk => chunk.size.text ++ crlf ++ chunk.data ++ crlf) hm)).length_le
    simp only [List.length_append,crlf_length] at hsub
    omega
  · intro trailer hm
    have hsub := (List.sublist_flatten_of_mem (List.mem_map_of_mem
      (f := fun trailer : Trailer => trailer.text ++ crlf) hm)).length_le
    simp only [List.length_append,crlf_length] at hsub
    omega
  · have hsum : (message.trailers.map fun trailer => trailer.text.length + 2).sum =
        ((message.trailers.map fun trailer => trailer.text ++ crlf).flatten).length := by
      simp [List.length_flatten,Function.comp_def]
    omega

theorem Chunked.wire_ne {stream : Bytes} (hlen : stream.length ≤ 8 * 1024) {error : IoError}
    (h : (readAll false (fun _ => 1) (flowing stream)).ending = .error error) (message : Chunked) :
    message.wire ≠ stream := by
  rintro rfl
  have hwithin := Chunked.within_of_length hlen
  have hgood : Good (.start message.chunks (message.ending hwithin)) (flowing message.wire).wire [] := by
    refine message.good hwithin ?_ nofun nofun
    simp [flowing,Inbound.wire,Connection.wire,Wire.prepend,Wire.bytes]
  have hcalls := readAll_calls false (fun _ => 1) (flowing message.wire)
  obtain ⟨_,hending,_⟩ := hcalls.of_good (fun _ => Nat.one_pos) rfl hgood (Or.inr rfl)
  rw [h] at hending
  cases hending

theorem Chunked.wire_head {message : Chunked} {byte : UInt8} {rest : Bytes} (h : message.wire = byte :: rest) :
    isHex byte = true ∨ isOws byte = true := by
  obtain ⟨line,rest',hline⟩ : ∃ (line : SizeLine) (rest' : Bytes), message.wire = line.text ++ rest' := by
    unfold Chunked.wire
    cases message.chunks with
    | nil =>
      simp only [List.map_nil,List.flatten_nil,List.nil_append,List.append_assoc]
      exact ⟨_,_,rfl⟩
    | cons chunk chunks =>
      simp only [List.map_cons,List.flatten_cons,List.append_assoc]
      exact ⟨_,_,rfl⟩
  have hne : line.before ++ line.digits ++ line.after ≠ [] := by simp [line.digits_ne]
  obtain ⟨first,size,hsize⟩ := List.exists_cons_of_ne_nil hne
  have hfirst : first = byte := by
    rw [hline,SizeLine.text,hsize] at h
    exact (List.cons.inj h).1
  have hmem : byte ∈ line.before ++ line.digits ++ line.after := by
    rw [hsize,hfirst]
    exact List.mem_cons_self
  by_contra hother
  rw [not_or,Bool.not_eq_true,Bool.not_eq_true] at hother
  exact line.not_mem_size hother.1 hother.2 hmem

/-- The body is complete though no well-formed body was read: behind two wrong bytes in the
place of a separator, and behind a size with a sign. -/
theorem completion_unsound :
    (∃ reading, runActions Reading.call
        ⟨flowing [49,13,10,65,88,88,13,10,48,13,10,13,10],[],false⟩ [1,1,1] = some reading ∧
      reading.body.isComplete = true ∧ ¬ ∃ message : Chunked,
        [49,13,10,65,88,88,13,10,48,13,10,13,10] = message.wire ++ reading.body.wire.bytes ∧
        reading.delivered = message.data) ∧
    ∃ reading, runActions Reading.call
        ⟨flowing [43,49,13,10,65,13,10,48,13,10,13,10],[],false⟩ [1,1] = some reading ∧
      reading.body.isComplete = true ∧ ¬ ∃ message : Chunked,
        [43,49,13,10,65,13,10,48,13,10,13,10] = message.wire ++ reading.body.wire.bytes ∧
        reading.delivered = message.data := by
  constructor
  · refine ⟨_,rfl,rfl,?_⟩
    rintro ⟨message,hwire,_⟩
    have hall : message.wire = [49,13,10,65,88,88,13,10,48,13,10,13,10] :=
      (hwire.trans (List.append_nil message.wire)).symm
    exact message.wire_ne (by decide) (show _ = Except.error
      ⟨.invalidData,"HTTP chunk data was not followed by CRLF"⟩ from rfl) hall
  · refine ⟨_,rfl,rfl,?_⟩
    rintro ⟨message,hwire,_⟩
    have hall : message.wire = [43,49,13,10,65,13,10,48,13,10,13,10] :=
      (hwire.trans (List.append_nil message.wire)).symm
    exact absurd (Chunked.wire_head hall) (by decide)

end H12Tiny.Sync
