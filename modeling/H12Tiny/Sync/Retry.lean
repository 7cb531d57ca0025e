import H12Tiny.Sync.RoundTrip

/-! # Transient failures

A caller that calls again after every transient failure. At safe places failures are
transparent. At every other place a single failure changes what the caller gets,
because the mode still asks for a separator, or for a size line, that has been taken
off the wire already. A body of fixed length has no framing to lose.
-/
namespace H12Tiny.Sync

/-- A wire on which the body stands at a point, with one failure, at an unsafe place. -/
structure Bad (point : Point) (wire : Wire) : Prop where
  short : point.Short
  bytes : wire.bytes = point.stream
  failure : ∃ error more, error.isTransient = true ∧ wire.later = [(error,more)]
  risky : point.safe wire.ready.length = false

/-- No call gives what is still to come: the next one fails for good, or it gives data
where there is none. -/
def Broken (todo : Bytes) (state : ChunkState) (wire : Wire) : Prop :=
  state.complete = false ∧ state.remaining = 0 ∧
  ((∃ error rest, error.isOwn ∧ error ≠ lineLimit ∧
      Wire.nextChunk cautious state.separatorDue wire = .error error rest) ∨
   (todo = [] ∧ ∃ size rest, size ≠ 0 ∧ rest.ready ≠ [] ∧
      Wire.nextChunk cautious state.separatorDue wire = .ok size rest))

section Broken
variable {todo : Bytes} {state : ChunkState} {inbound : Inbound} {capacity : ℕ}

theorem Broken.reads (h : Broken todo state inbound.wire) (hcap : 0 < capacity) :
    Reads cautious capacity state inbound.wire (readChunked capacity ⟨inbound,state⟩) := by
  refine readChunked_reads hcap (Or.inr rfl) ⟨inbound,state⟩ (Or.inr ?_)
  intro _ _ rest he
  rcases h.2.2 with ⟨error,rest',_,hne,herr⟩ | ⟨_,size,rest',_,_,hok⟩
  · rw [herr] at he
    cases he
    exact hne rfl
  · rw [hok] at he
    cases he

theorem Broken.opens {wire rest : Wire} {chunk : ChunkState} (h : Broken todo state wire)
    (hopens : Opens cautious state wire chunk rest) : todo = [] ∧ rest.ready ≠ [] := by
  obtain ⟨-,hzero,hnext⟩ := h
  cases hopens with
  | within hpos => exact absurd hzero hpos
  | next _ hopened _ =>
    rcases hnext with ⟨_,_,_,_,herr⟩ | ⟨htodo,_,_,_,hready,hok⟩
    · rw [herr] at hopened
      cases hopened
    · rw [hok] at hopened
      cases hopened
      exact ⟨htodo,hready⟩

theorem Broken.ok {read : Bytes} {body : ResponseBody} (h : Broken todo state inbound.wire) (hcap : 0 < capacity)
    (hok : ResponseBody.read capacity ⟨inbound,.chunked state⟩ = .ok read body) : todo = [] ∧ read ≠ [] := by
  obtain ⟨inbound',state',hread,rfl⟩ := read_chunked_ok hcap hok
  have hreads := h.reads hcap
  rw [hread] at hreads
  cases hreads with
  | complete htrue _ =>
    rw [h.1] at htrue
    cases htrue
  | finished _ _ hfinished =>
    rcases h.2.2 with ⟨_,_,_,_,herr⟩ | ⟨_,size,_,hsize,_,hnext⟩
    · rw [herr] at hfinished
      cases hfinished
    · rw [hnext] at hfinished
      cases hfinished
      exact absurd rfl hsize
  | data _ hopens _ hne _ => exact ⟨(h.opens hopens).1,hne⟩

theorem Broken.error {error : IoError} {body : ResponseBody} (h : Broken todo state inbound.wire)
    (hcap : 0 < capacity) (herror : ResponseBody.read capacity ⟨inbound,.chunked state⟩ = .error error body) :
    error.isTransient = false := by
  obtain ⟨inbound',state',hread,rfl⟩ := read_chunked_error hcap herror
  have hreads := h.reads hcap
  rw [hread] at hreads
  cases hreads with
  | framing _ _ hframing =>
    rcases h.2.2 with ⟨_,_,hown,_,herr⟩ | ⟨_,_,_,_,_,hok⟩
    · rw [herr] at hframing
      cases hframing
      exact hown.not_transient
    · rw [hok] at hframing
      cases hframing
  | gaveUp _ _ hbound => cases hbound
  | closed _ _ _ _ => rfl
  | failed _ hopens hfail =>
    have hready := (h.opens hopens).2
    rw [hfail] at hready
    exact absurd rfl hready

theorem Broken.outcome {retry : Bool} {sizes : ℕ → ℕ} {outcome : Outcome} (h : Broken todo state inbound.wire)
    (hcalls : Calls retry sizes ⟨inbound,.chunked state⟩ outcome) (hsizes : ∀ k, 0 < sizes k) :
    ¬ (outcome.bytes = todo ∧ outcome.ending = .ok ()) := by
  rintro ⟨hbytes,hending⟩
  cases hcalls with
  | ended hok => exact (h.ok (hsizes 0) hok).2 rfl
  | failed => cases hending
  | more hok hne hrest =>
    rw [(h.ok (hsizes 0) hok).1] at hbytes
    exact hne (List.append_eq_nil_iff.mp hbytes).1
  | retried herror hretry hrest =>
    rw [Bool.and_eq_true,h.error (hsizes 0) herror] at hretry
    cases hretry.2

end Broken

section Bad
variable {point point' : Point} {wire : Wire}

theorem Bad.taken {taken : Bytes} (h : Bad point (wire.prepend taken)) (hshort : point'.Short)
    (hstream : point.stream = taken ++ point'.stream)
    (hsafe : ∀ place, point.safe (taken.length + place) = point'.safe place) : Bad point' wire := by
  refine ⟨hshort,?_,h.failure,?_⟩
  · have hbytes := h.bytes
    rw [Wire.bytes_prepend,hstream] at hbytes
    exact List.append_cancel_left hbytes
  · rw [← hsafe,← List.length_append]
    exact h.risky

theorem Bad.split {ready more : Bytes} {error : IoError} {later : List (IoError × Bytes)}
    (h : Bad point ⟨ready,(error,more) :: later⟩) : later = [] ∧ ready ++ more = point.stream := by
  obtain ⟨_,_,_,hlater⟩ := h.failure
  cases hlater
  refine ⟨rfl,?_⟩
  rw [← h.bytes]
  simp only [Wire.bytes,List.map_cons,List.map_nil,List.flatten_cons,List.flatten_nil,List.append_nil]

end Bad

theorem Broken.refused {todo : Bytes} {chunks : List Chunk} {ending : Ending} {byte next : UInt8}
    {rest : Bytes} {later : List (IoError × Bytes)} (hne : byte ≠ cr) :
    Broken todo (Point.data [] chunks ending).state ⟨byte :: next :: rest,later⟩ := by
  have hpair : [byte,next] ≠ crlf := fun h => hne (List.cons.inj h).1
  have hnext : Wire.nextChunk cautious true ((⟨rest,later⟩ : Wire).prepend [byte,next]) =
      .error ⟨.invalidData,"HTTP chunk data was not followed by CRLF"⟩ ⟨rest,later⟩ :=
    nextChunk_refused rfl hpair
  exact ⟨rfl,rfl,Or.inl ⟨_,_,Or.inl rfl,by decide,hnext⟩⟩

theorem Broken.refused_line {todo text wire rest : Bytes} {chunks : List Chunk} {ending : Ending}
    {later : List (IoError × Bytes)} (hne : text ≠ []) (hclean : cr ∉ text)
    (hwire : wire = text ++ crlf ++ rest) :
    Broken todo (Point.data [] chunks ending).state ⟨wire,later⟩ := by
  obtain ⟨byte,text,rfl⟩ := List.exists_cons_of_ne_nil hne
  have hbyte : byte ≠ cr := by
    rintro rfl
    exact hclean List.mem_cons_self
  subst hwire
  cases text with
  | nil => exact Broken.refused hbyte
  | cons next text => exact Broken.refused hbyte

/-- A failure between the two bytes of a separator leaves its line feed. -/
theorem Broken.refused_lf {todo wire rest : Bytes} {chunks : List Chunk} {ending : Ending}
    {later : List (IoError × Bytes)} (hwire : wire = lf :: rest) (hne : rest ≠ []) :
    Broken todo (Point.data [] chunks ending).state ⟨wire,later⟩ := by
  obtain ⟨next,rest,rfl⟩ := List.exists_cons_of_ne_nil hne
  subst hwire
  exact Broken.refused (by decide)

/-- What the framing brings at a point with an unsafe failure ahead. -/
inductive Troubled (point : Point) : EStateM.Result IoError Wire ℕ → Prop
  | chunk {data : Bytes} {chunks : List Chunk} {ending : Ending} {rest : Wire} (hne : data ≠ [])
      (htodo : point.todo = (Point.data data chunks ending).todo)
      (hbad : Bad (.data data chunks ending) rest) : Troubled point (.ok data.length rest)
  | broken {error : IoError} {rest : Wire} (htransient : error.isTransient = true)
      (hbroken : Broken point.todo point.state rest) : Troubled point (.error error rest)

theorem Ending.last_ne (ending : Ending) : ending.last ≠ [] := by
  intro h
  have hparse := ending.parses
  rw [h] at hparse
  exact absurd hparse (by decide)

section Troubled
variable {chunk : Chunk} {chunks : List Chunk} {ending : Ending} {wire : Wire}

theorem Bad.transient {point : Point} {ready more : Bytes} {error : IoError} {later : List (IoError × Bytes)}
    (h : Bad point ⟨ready,(error,more) :: later⟩) : error.isTransient = true := by
  obtain ⟨_,_,htransient,hlater⟩ := h.failure
  cases hlater
  exact htransient

theorem troubled_start_chunk (hbad : Bad (.start (chunk :: chunks) ending) wire) :
    Troubled (.start (chunk :: chunks) ending) (Wire.nextChunk cautious false wire) := by
  have hshort := hbad.short chunk List.mem_cons_self
  rcases Wire.cut hbad.bytes with ⟨rest,rfl,_⟩ | ⟨post,error,more,later,hcut,hpost,hlater⟩
  · have hnext : Wire.nextChunk cautious false (rest.prepend (chunk.size.text ++ crlf)) =
        .ok chunk.data.length rest :=
      nextChunk_chunk chunk.size.cr_not_mem hshort chunk.parses chunk.length_ne false rest
    have hrest : Bad (.data chunk.data chunks ending) rest :=
      hbad.taken (fun c hc => hbad.short c (List.mem_cons_of_mem _ hc)) rfl Point.safe_start_chunk
    rw [hnext]
    exact .chunk chunk.nonempty rfl hrest
  · have hlen := congrArg List.length hcut
    have hrisky := hbad.risky
    simp only [List.length_append,crlf_length] at hlen
    simp only [Point.safe,decide_eq_false_iff_not] at hrisky
    exact absurd (Or.inl (by omega)) hrisky

/-- A failure that follows the first byte of a separator, or lies in the line behind it. -/
theorem troubled_between {text rest post : Bytes} (hclean : cr ∉ text) (hne : text ≠ [])
    (hshort : text.length + 2 ≤ maxChunkLineBytes) {ready more : Bytes} {error : IoError}
    {later : List (IoError × Bytes)} (hbad : Bad (.data [] chunks ending) ⟨ready,(error,more) :: later⟩)
    (hstream : messageWire chunks ending = text ++ crlf ++ rest)
    (hcut : crlf ++ (text ++ crlf) = ready ++ post) (hpost : post ≠ []) :
    Troubled (.data [] chunks ending) (Wire.nextChunk cautious true ⟨ready,(error,more) :: later⟩) := by
  obtain ⟨rfl,hsplit⟩ := hbad.split
  have hmore : ready ++ more = crlf ++ (text ++ crlf ++ rest) := by
    rw [hsplit,Point.stream,hstream,List.nil_append]
  rcases append_cut hcut with ⟨pre,rfl,hline⟩ | ⟨post',hcrlf,hpost'⟩
  · have hnext : Wire.nextChunk cautious true ⟨crlf ++ pre,[(error,more)]⟩ = .error error ⟨pre ++ more,[]⟩ :=
      nextChunk_line_interrupted hclean hshort hline hpost true
    rw [hnext]
    rw [List.append_assoc] at hmore
    exact .broken hbad.transient (Broken.refused_line hne hclean (List.append_cancel_left hmore))
  · have hlen := congrArg List.length hcrlf
    have hpos := List.length_pos_of_ne_nil hpost'
    simp only [List.length_append,crlf_length] at hlen
    have hready : ready ≠ [] := by
      rintro rfl
      have hrisky := hbad.risky
      cases hrisky
    obtain ⟨byte,ready,rfl⟩ := List.exists_cons_of_ne_nil hready
    rw [List.length_cons] at hlen
    have hnil : ready = [] := List.eq_nil_of_length_eq_zero (by omega)
    subst hnil
    rw [nextChunk_separator_interrupted (by simp)]
    exact .broken hbad.transient (Broken.refused_lf (List.cons.inj hmore).2 (by simp [hne]))

theorem troubled_data_chunk (hbad : Bad (.data [] (chunk :: chunks) ending) wire) :
    Troubled (.data [] (chunk :: chunks) ending) (Wire.nextChunk cautious true wire) := by
  have hshort := hbad.short chunk List.mem_cons_self
  have hbytes : wire.bytes = crlf ++ (chunk.size.text ++ crlf) ++
      (chunk.data ++ (crlf ++ messageWire chunks ending)) := by
    rw [hbad.bytes]
    simp only [Point.stream,messageWire,List.nil_append,List.append_assoc]
  rcases Wire.cut hbytes with ⟨rest,rfl,_⟩ | ⟨post,error,more,later,hcut,hpost,hlater⟩
  · have hnext : Wire.nextChunk cautious true (rest.prepend (crlf ++ (chunk.size.text ++ crlf))) =
        .ok chunk.data.length rest :=
      nextChunk_chunk chunk.size.cr_not_mem hshort chunk.parses chunk.length_ne true rest
    have hrest : Bad (.data chunk.data chunks ending) rest := by
      refine hbad.taken (fun c hc => hbad.short c (List.mem_cons_of_mem _ hc)) ?_ Point.safe_data_chunk
      simp only [Point.stream,messageWire,List.nil_append,List.append_assoc]
    rw [hnext]
    exact .chunk chunk.nonempty rfl hrest
  · obtain ⟨ready,_⟩ := wire
    dsimp only at hlater hcut
    subst hlater
    exact troubled_between chunk.size.cr_not_mem chunk.size.text_ne hshort hbad rfl hcut hpost

theorem Broken.blank {todo : Bytes} :
    Broken todo ⟨0,false,false⟩ ⟨crlf,[]⟩ ∧ Broken todo ⟨0,true,false⟩ ⟨crlf,[]⟩ := by
  have hparse : parseChunkSize [] = .error ⟨.invalidData,"HTTP chunk size was invalid"⟩ := rfl
  have hfirst : Wire.nextChunk cautious false ⟨crlf,[]⟩ =
      .error ⟨.invalidData,"HTTP chunk size was invalid"⟩ ⟨[],[]⟩ :=
    nextChunk_malformed List.not_mem_nil (by decide) hparse false ⟨[],[]⟩
  have hdue : Wire.nextChunk cautious true ⟨crlf,[]⟩ = .error lineClosed ⟨[],[]⟩ := rfl
  exact ⟨⟨rfl,rfl,Or.inl ⟨_,_,Or.inl rfl,by decide,hfirst⟩⟩,⟨rfl,rfl,Or.inl ⟨_,_,Or.inr rfl,by decide,hdue⟩⟩⟩

theorem troubled_data_ending (hbad : Bad (.data [] [] ending) wire) :
    Troubled (.data [] [] ending) (Wire.nextChunk cautious true wire) := by
  have hbytes : wire.bytes = crlf ++ (ending.last ++ crlf) ++ trailerWire ending.trailers := by
    rw [hbad.bytes]
    simp only [Point.stream,messageWire,Ending.wire,List.nil_append,List.append_assoc]
  obtain ⟨error,more,htransient,hlater⟩ := hbad.failure
  obtain ⟨ready,_⟩ := wire
  dsimp only at hlater
  subst hlater
  rcases Wire.cut hbytes with ⟨⟨pre,_⟩,hwire,htrailers⟩ | ⟨post,_,_,_,hcut,hpost,_⟩
  · cases hwire
    have hmore : pre ++ more = trailerWire ending.trailers := by
      simpa [Wire.bytes] using htrailers
    have hne : more ≠ [] := by
      rintro rfl
      have hrisky := hbad.risky
      have hlen := congrArg List.length hmore
      simp only [Point.safe,List.map_nil,safeAfter,List.length_nil,Ending.wire,List.length_append,crlf_length,
        decide_eq_false_iff_not,decide_eq_true_eq] at hrisky hlen
      omega
    obtain ⟨gone,rest,pre',htexts,rfl,_,hnext⟩ :=
      nextChunk_trailers_interrupted ending hmore.symm hne true error more []
    have hrest : pre' ++ more = trailerWire rest := by
      rw [htexts,trailerWire_append,List.append_assoc] at hmore
      exact List.append_cancel_left hmore
    have hnext' : Wire.nextChunk cautious true
        ⟨crlf ++ (ending.last ++ crlf) ++ (linesWire gone ++ pre'),[(error,more)]⟩ =
          .error error ⟨pre' ++ more,[]⟩ := hnext
    rw [hnext']
    refine .broken htransient ?_
    rw [hrest]
    cases rest with
    | nil => exact Broken.blank.2
    | cons text rest =>
      have hok := ending.trailers_ok text (by simp [htexts])
      exact Broken.refused_line hok.1 hok.2.2.1 (trailerWire_cons text rest)
  · exact troubled_between ending.clean ending.last_ne ending.short hbad rfl hcut hpost

theorem parseChunkSize_ne_limit {text : Bytes} {error : IoError} (h : parseChunkSize text = .error error) :
    error ≠ lineLimit := by
  unfold parseChunkSize at h
  dsimp only at h
  split at h
  · split at h
    · cases h
    · cases h
      decide
  · cases h
    decide

theorem troubled_start_ending (hbad : Bad (.start [] ending) wire) :
    Troubled (.start [] ending) (Wire.nextChunk cautious false wire) := by
  obtain ⟨error,more,htransient,hlater⟩ := hbad.failure
  obtain ⟨ready,_⟩ := wire
  dsimp only at hlater
  subst hlater
  rcases Wire.cut hbad.bytes with ⟨⟨pre,_⟩,hwire,htrailers⟩ | ⟨post,_,_,_,hcut,hpost,_⟩
  · cases hwire
    have hmore : pre ++ more = trailerWire ending.trailers := by
      simpa [Wire.bytes] using htrailers
    have hrisky : (Point.start [] ending).safe (ending.last ++ crlf ++ pre).length = false := hbad.risky
    have hne : more ≠ [] := by
      rintro rfl
      have hend := start_trailers_safe (List.append_nil ending.trailers).symm 2
      rw [List.append_nil] at hmore
      rw [hmore,trailerWire,← List.append_assoc,List.length_append,crlf_length,hend] at hrisky
      cases hrisky
    obtain ⟨gone,rest,pre',htexts,rfl,hlt,hnext⟩ :=
      nextChunk_trailers_interrupted ending hmore.symm hne false error more []
    have hrest : pre' ++ more = trailerWire rest := by
      rw [htexts,trailerWire_append,List.append_assoc] at hmore
      exact List.append_cancel_left hmore
    have hnext' : Wire.nextChunk cautious false
        ⟨ending.last ++ crlf ++ (linesWire gone ++ pre'),[(error,more)]⟩ =
          .error error ⟨pre' ++ more,[]⟩ := hnext
    rw [hnext']
    refine .broken htransient ?_
    rw [hrest]
    cases rest with
    | nil => exact Broken.blank.1
    | cons text rest =>
      rw [List.headD_cons] at hlt
      rw [← List.append_assoc,List.length_append,start_trailers_safe htexts,safeTrailers,if_pos hlt,
        decide_eq_false_iff_not] at hrisky
      have hok := ending.trailers_ok text (by simp [htexts])
      refine ⟨rfl,rfl,?_⟩
      cases hparse : parseChunkSize text with
      | error e =>
        have hmalformed : Wire.nextChunk cautious false ⟨trailerWire (text :: rest),[]⟩ =
            .error e ⟨trailerWire rest,[]⟩ := by
          rw [trailerWire_cons]
          exact nextChunk_malformed hok.2.2.1 hok.2.2.2 hparse false ⟨trailerWire rest,[]⟩
        exact Or.inl ⟨e,_,Wire.parseChunkSize_own hparse,parseChunkSize_ne_limit hparse,hmalformed⟩
      | ok size =>
        have hsize : size ≠ 0 := by
          rintro rfl
          rw [hparse] at hrisky
          exact hrisky rfl
        have hchunk : Wire.nextChunk cautious false ⟨trailerWire (text :: rest),[]⟩ =
            .ok size ⟨trailerWire rest,[]⟩ := by
          rw [trailerWire_cons]
          exact nextChunk_chunk hok.2.2.1 hok.2.2.2 hparse hsize false ⟨trailerWire rest,[]⟩
        have hready : trailerWire rest ≠ [] := by simp [trailerWire,crlf]
        exact Or.inr ⟨rfl,size,_,hsize,hready,hchunk⟩
  · have hlen := congrArg List.length hcut
    have hpos := List.length_pos_of_ne_nil hpost
    have hrisky := hbad.risky
    simp only [List.length_append,crlf_length] at hlen
    simp only [Point.safe,decide_eq_false_iff_not] at hrisky
    exact absurd (Or.inl (by omega)) hrisky

theorem troubled {point : Point} (hzero : point.state.remaining = 0) (hbad : Bad point wire) :
    point.state.complete = false ∧
      Troubled point (Wire.nextChunk cautious point.state.separatorDue wire) := by
  cases point with
  | start chunks ending =>
    cases chunks with
    | nil => exact ⟨rfl,troubled_start_ending hbad⟩
    | cons chunk chunks => exact ⟨rfl,troubled_start_chunk hbad⟩
  | data rest chunks ending =>
    have hnil : rest = [] := List.eq_nil_of_length_eq_zero hzero
    subst hnil
    cases chunks with
    | nil => exact ⟨rfl,troubled_data_ending hbad⟩
    | cons chunk chunks => exact ⟨rfl,troubled_data_chunk hbad⟩
  | complete => cases hbad.risky

theorem Troubled.of_ok {point : Point} {size : ℕ} {rest : Wire} (h : Troubled point (.ok size rest)) :
    ∃ data chunks ending, size = data.length ∧ data ≠ [] ∧
      point.todo = (Point.data data chunks ending).todo ∧ Bad (.data data chunks ending) rest := by
  cases h with
  | chunk hne htodo hbad => exact ⟨_,_,_,rfl,hne,htodo,hbad⟩

end Troubled

/-- What a call does at a point with an unsafe failure ahead: it gives a piece of the
data, or it meets the failure and nothing can be had any more. -/
inductive Worsens (point : Point) : EStateM.Result IoError ChunkedBody Bytes → Prop
  | more {read : Bytes} {body : ChunkedBody} {point' : Point} (hne : read ≠ [])
      (htodo : point.todo = read ++ point'.todo) (hstate : body.state = point'.state)
      (hbad : Bad point' body.wire) : Worsens point (.ok read body)
  | broken {error : IoError} {body : ChunkedBody} (hbroken : Broken point.todo body.state body.wire) :
      Worsens point (.error error body)

section Worsens
variable {capacity : ℕ}

theorem Bad.piece {rest read : Bytes} {chunks : List Chunk} {ending : Ending} {wire : Wire}
    (hbad : Bad (.data rest chunks ending) (wire.prepend read)) (hlen : read.length ≤ rest.length) :
    ∃ rest', rest = read ++ rest' ∧ Bad (.data rest' chunks ending) wire := by
  have hbytes := hbad.bytes
  rw [Wire.bytes_prepend] at hbytes
  obtain ⟨rest',rfl⟩ := exists_rest hbytes hlen
  refine ⟨rest',rfl,hbad.taken hbad.short ?_ (Point.safe_data_piece read rest')⟩
  simp only [Point.stream,List.append_assoc]

theorem Bad.ready_ne {rest : Bytes} {chunks : List Chunk} {ending : Ending} {wire : Wire}
    (hbad : Bad (.data rest chunks ending) wire) : wire.ready ≠ [] := by
  intro hnil
  have hrisky := hbad.risky
  rw [hnil] at hrisky
  simp only [Point.safe,decide_eq_false_iff_not] at hrisky
  exact hrisky (Or.inl (Nat.zero_le _))

theorem opens_bad {point : Point} {wire rest : Wire} {chunk : ChunkState} (hbad : Bad point wire)
    (hcomplete : point.state.complete = false) (hopens : Opens cautious point.state wire chunk rest) :
    ∃ data chunks ending, data ≠ [] ∧ point.todo = (Point.data data chunks ending).todo ∧
      Bad (.data data chunks ending) rest ∧ chunk.remaining = data.length := by
  cases hopens with
  | within hpos =>
    cases point with
    | start chunks ending => exact absurd rfl hpos
    | complete => cases hcomplete
    | data data chunks ending =>
      have hne : data ≠ [] := by
        rintro rfl
        exact hpos rfl
      exact ⟨data,chunks,ending,hne,rfl,hbad,rfl⟩
  | next hzero hnext _ =>
    have htroubled := (troubled hzero hbad).2
    rw [hnext] at htroubled
    obtain ⟨data,chunks,ending,hsize,hne,htodo,hbad'⟩ := htroubled.of_ok
    exact ⟨data,chunks,ending,hne,htodo,hbad',hsize⟩

theorem worsens (hcap : 0 < capacity) {point : Point} {inbound : Inbound} (hbad : Bad point inbound.wire) :
    Worsens point (readChunked capacity ⟨inbound,point.state⟩) := by
  have hreads := readChunked_reads hcap (Or.inr rfl) ⟨inbound,point.state⟩ (Or.inr ?_)
  · generalize readChunked capacity ⟨inbound,point.state⟩ = r at hreads
    cases hreads with
    | complete hcomplete _ =>
      cases point with
      | start chunks ending => cases hcomplete
      | data rest chunks ending => cases hcomplete
      | complete => cases hbad.risky
    | @framing error inbound' _ hzero hnext =>
      have htroubled := (troubled hzero hbad).2
      rw [hnext] at htroubled
      generalize hrest : inbound'.wire = rest at htroubled
      cases htroubled with
      | broken _ hbroken => exact .broken (by rw [hrest]; exact hbroken)
    | gaveUp _ _ hbound => cases hbound
    | finished _ hzero hnext =>
      have htroubled := (troubled hzero hbad).2
      rw [hnext] at htroubled
      obtain ⟨data,_,_,hsize,hne,_,_⟩ := htroubled.of_ok
      exact absurd (List.eq_nil_of_length_eq_zero hsize.symm) hne
    | @data read inbound' chunk _ hcomplete hopens hrest hne hlen =>
      obtain ⟨data,chunks,ending,_,htodo,hbad',hsize⟩ := opens_bad hbad hcomplete hopens
      rw [hrest] at hbad'
      obtain ⟨rest',rfl,hpiece⟩ := hbad'.piece (by omega)
      have hstate : (⟨chunk.remaining - read.length,chunk.remaining = read.length,false⟩ : ChunkState) =
          (Point.data rest' chunks ending).state := by
        have hempty : decide ((read ++ rest').length = read.length) = decide (rest' = []) :=
          decide_eq_decide.mpr (by simp)
        rw [hsize,hempty]
        simp only [Point.state,List.length_append,Nat.add_sub_cancel_left]
      refine .more hne ?_ hstate hpiece
      rw [htodo]
      simp only [Point.todo,List.append_assoc]
    | closed hcomplete hopens hrest _ =>
      obtain ⟨_,_,_,_,_,hbad',_⟩ := opens_bad hbad hcomplete hopens
      rw [hrest] at hbad'
      exact absurd rfl hbad'.ready_ne
    | failed hcomplete hopens hrest =>
      obtain ⟨_,_,_,_,_,hbad',_⟩ := opens_bad hbad hcomplete hopens
      rw [hrest] at hbad'
      exact absurd rfl hbad'.ready_ne
  · intro _ hzero rest hnext
    have htroubled := (troubled hzero hbad).2
    rw [hnext] at htroubled
    cases htroubled with
    | broken htransient _ => cases htransient

end Worsens

/-- A single failure at an unsafe place changes what the caller gets. -/
theorem Calls.of_bad {sizes : ℕ → ℕ} {body : ResponseBody} {outcome : Outcome}
    (h : Calls true sizes body outcome) (hsizes : ∀ k, 0 < sizes k) :
    ∀ {point : Point} {inbound : Inbound}, body = ⟨inbound,.chunked point.state⟩ →
      Bad point inbound.wire → ¬ (outcome.bytes = point.todo ∧ outcome.ending = .ok ()) := by
  induction h with
  | ended h =>
    rintro point inbound rfl hbad
    obtain ⟨inbound',state',hread,rfl⟩ := read_chunked_ok (hsizes 0) h
    have hstep := worsens (hsizes 0) hbad
    rw [hread] at hstep
    cases hstep with
    | more hne _ _ _ => exact absurd rfl hne
  | failed h _ =>
    rintro point inbound rfl hbad ⟨_,hending⟩
    cases hending
  | more h _ _ ih =>
    rintro point inbound rfl hbad
    obtain ⟨inbound',state',hread,rfl⟩ := read_chunked_ok (hsizes 0) h
    have hstep := worsens (hsizes 0) hbad
    rw [hread] at hstep
    cases hstep with
    | more _ htodo hstate hbad' =>
      dsimp only at hstate
      subst hstate
      rintro ⟨hbytes,hending⟩
      rw [htodo] at hbytes
      exact ih (fun k => hsizes (k + 1)) rfl hbad' ⟨List.append_cancel_left hbytes,hending⟩
  | retried h _ hrest _ =>
    rintro point inbound rfl hbad
    obtain ⟨inbound',state',hread,rfl⟩ := read_chunked_error (hsizes 0) h
    have hstep := worsens (hsizes 0) hbad
    rw [hread] at hstep
    cases hstep with
    | broken hbroken => exact hbroken.outcome hrest (fun k => hsizes (k + 1))

/-- A caller of a body of fixed length gets its content, whatever fails on the way. -/
theorem Calls.of_fixed {retry : Bool} {sizes : ℕ → ℕ} {body : ResponseBody} {outcome : Outcome}
    (h : Calls retry sizes body outcome) (hsizes : ∀ k, 0 < sizes k) :
    ∀ {content : Bytes} {inbound : Inbound}, body = ⟨inbound,.contentLength content.length⟩ →
      inbound.wire.bytes = content → (∀ failure ∈ inbound.wire.later, failure.1.isTransient = true) →
      (retry = true ∨ inbound.wire.later = []) →
      outcome.bytes = content ∧ outcome.ending = .ok () ∧ outcome.body.mode = .contentLength 0 := by
  induction h with
  | @ended sizes _ _ h =>
    rintro content inbound rfl _ _ _
    have hfixed := read_fixed (hsizes 0) inbound content.length
    rw [h] at hfixed
    cases hfixed with
    | complete hzero _ =>
      refine ⟨(List.eq_nil_of_length_eq_zero hzero).symm,rfl,?_⟩
      rw [hzero]
    | some _ _ hne _ => exact absurd rfl hne
  | failed h hretry =>
    rintro content inbound rfl hbytes htransient hmode
    have hfixed := read_fixed (hsizes 0) inbound content.length
    rw [h] at hfixed
    cases hfixed with
    | closed hpos hempty _ =>
      rw [hempty] at hbytes
      subst hbytes
      exact absurd rfl hpos
    | failed _ hfail =>
      rw [hfail] at htransient hmode
      rcases hmode with rfl | hnil
      · rw [htransient _ List.mem_cons_self] at hretry
        cases hretry
      · cases hnil
  | @more _ _ _ read _ h hne _ ih =>
    rintro content inbound rfl hbytes htransient hmode
    have hfixed := read_fixed (hsizes 0) inbound content.length
    rw [h] at hfixed
    cases hfixed with
    | complete _ _ => exact absurd rfl hne
    | @some _ inbound' _ hprepend _ _ =>
      rw [hprepend] at hbytes htransient hmode
      rw [Wire.bytes_prepend] at hbytes
      subst hbytes
      have hleft : (read ++ inbound'.wire.bytes).length - read.length = inbound'.wire.bytes.length := by
        rw [List.length_append,Nat.add_sub_cancel_left]
      obtain ⟨hcontent,hending,hdone⟩ :=
        ih (fun k => hsizes (k + 1)) (by rw [hleft]) rfl htransient hmode
      exact ⟨by rw [hcontent],hending,hdone⟩
  | retried h hretry _ ih =>
    rintro content inbound rfl hbytes htransient hmode
    have hfixed := read_fixed (hsizes 0) inbound content.length
    rw [h] at hfixed
    cases hfixed with
    | closed _ _ _ =>
      rw [Bool.and_eq_true] at hretry
      cases hretry.2
    | failed _ hfail =>
      rw [hfail] at hbytes htransient
      rw [Bool.and_eq_true] at hretry
      refine ih (fun k => hsizes (k + 1)) rfl ?_ ?_ (Or.inl hretry.1)
      · rw [← hbytes]
        simp only [Wire.bytes,Wire.fail,List.map_cons,List.flatten_cons,List.nil_append]
      · intro failure hm
        exact htransient failure (List.mem_cons_of_mem _ hm)

/-- The places of a body at which a failure does no harm. With chunks these are the first
size line, all places in the data of a chunk and at its ends, and the end of the body;
without any, the size line of value zero, the trailer lines that would pass for one, and
the end. -/
def Chunked.safe (message : Chunked) (place : ℕ) : Bool :=
  match message.chunks with
  | [] =>
    place < message.last.text.length + 2 ∨
      safeTrailers (message.trailers.map Trailer.text) (place - (message.last.text.length + 2)) = true
  | chunk :: rest =>
    place ≤ chunk.size.text.length + 2 + chunk.data.length ∨
      safeAfter (message.last.text ++ crlf ++ trailerWire (message.trailers.map Trailer.text)).length
        (rest.map Chunk.lengths) (place - (chunk.size.text.length + 2 + chunk.data.length)) = true

theorem Chunked.safe_eq (message : Chunked) (h : message.WithinLimits) (place : ℕ) :
    (Point.start message.chunks (message.ending h)).safe place = message.safe place := by
  unfold Chunked.safe
  cases hchunks : message.chunks with
  | nil => rfl
  | cons chunk rest => rfl

/-- What a caller can tell of the outcome. -/
def Outcome.Same (left right : Outcome) : Prop :=
  left.bytes = right.bytes ∧ left.ending = right.ending ∧ left.body.isComplete = right.body.isComplete

/-- The same bytes on two connections, with transient failures on the first and none on
the second. -/
structure Interrupts (bytes : Bytes) (mode : BodyMode) (body clean : ResponseBody) : Prop where
  mode_eq : body.mode = mode
  bytes_eq : body.wire.bytes = bytes
  transient : ∀ failure ∈ body.wire.later, failure.1.isTransient = true
  clean_mode : clean.mode = mode
  clean_wire : clean.wire = ⟨bytes,[]⟩

section Transparency
variable {sizes sizes' : ℕ → ℕ} (hsizes : ∀ k, 0 < sizes k) (hsizes' : ∀ k, 0 < sizes' k)
  {message : Chunked} {body clean : ResponseBody}

section
include hsizes

theorem readAll_good (retry : Bool) (hlimits : message.WithinLimits)
    (hmode : body.mode = .chunked ⟨0,false,false⟩) (hbytes : body.wire.bytes = message.wire)
    (htransient : ∀ failure ∈ body.wire.later, failure.1.isTransient = true)
    (hsafe : ∀ place ∈ body.wire.places, message.safe place = true)
    (hretry : retry = true ∨ body.wire.later = []) :
    (readAll retry sizes body).bytes = message.data ∧ (readAll retry sizes body).ending = .ok () ∧
      (readAll retry sizes body).body.isComplete = true := by
  obtain ⟨inbound,mode⟩ := body
  dsimp only at hmode
  subst hmode
  have hgood : Good (.start message.chunks (message.ending hlimits)) inbound.wire [] := by
    apply message.good hlimits (by rw [hbytes,List.append_nil]) htransient
    intro place hm
    rw [message.safe_eq]
    exact hsafe place hm
  have hcalls := readAll_calls retry sizes ⟨inbound,.chunked ⟨0,false,false⟩⟩
  obtain ⟨hdata,hending,hdone,_⟩ := hcalls.of_good hsizes rfl hgood hretry
  refine ⟨hdata,hending,?_⟩
  unfold ResponseBody.isComplete
  rw [hdone]
  rfl

theorem readAll_bad {place : ℕ} (hlimits : message.WithinLimits)
    (hmode : body.mode = .chunked ⟨0,false,false⟩) (hbytes : body.wire.bytes = message.wire)
    (htransient : ∀ failure ∈ body.wire.later, failure.1.isTransient = true)
    (hplace : body.wire.places = [place]) (hrisky : message.safe place = false) :
    ¬ ((readAll true sizes body).bytes = message.data ∧ (readAll true sizes body).ending = .ok ()) := by
  obtain ⟨inbound,mode⟩ := body
  dsimp only at hmode
  subst hmode
  have hbad : Bad (.start message.chunks (message.ending hlimits)) inbound.wire := by
    unfold Wire.places at hplace
    generalize hwire : inbound.wire = wire at hplace hbytes htransient
    obtain ⟨ready,later⟩ := wire
    cases later with
    | nil => cases hplace
    | cons failure later =>
      cases later with
      | nil =>
        obtain ⟨hready,_⟩ := List.cons.inj hplace
        refine ⟨hlimits.1,?_,⟨failure.1,failure.2,htransient failure List.mem_cons_self,rfl⟩,?_⟩
        · rw [hbytes,Point.stream,message.messageWire_eq]
        · rw [message.safe_eq]
          dsimp only at hready ⊢
          rw [hready]
          exact hrisky
      | cons next later => cases (List.cons.inj hplace).2
  exact (readAll_calls true sizes ⟨inbound,.chunked ⟨0,false,false⟩⟩).of_bad hsizes rfl hbad

end

theorem readAll_fixed (retry : Bool) {content : Bytes} (hmode : body.mode = .contentLength content.length)
    (hsizes : ∀ k, 0 < sizes k) (hbytes : body.wire.bytes = content)
    (htransient : ∀ failure ∈ body.wire.later, failure.1.isTransient = true)
    (hretry : retry = true ∨ body.wire.later = []) :
    (readAll retry sizes body).bytes = content ∧ (readAll retry sizes body).ending = .ok () ∧
      (readAll retry sizes body).body.isComplete = true := by
  obtain ⟨inbound,mode⟩ := body
  dsimp only at hmode
  subst hmode
  have hcalls := readAll_calls retry sizes ⟨inbound,.contentLength content.length⟩
  obtain ⟨hdata,hending,hdone⟩ := hcalls.of_fixed hsizes rfl hbytes htransient hretry
  refine ⟨hdata,hending,?_⟩
  unfold ResponseBody.isComplete
  rw [hdone]
  rfl

theorem Interrupts.clean_bytes {bytes : Bytes} {mode : BodyMode} (h : Interrupts bytes mode body clean) :
    clean.wire.bytes = bytes ∧ clean.wire.later = [] ∧ clean.wire.places = [] := by
  rw [h.clean_wire]
  exact ⟨List.append_nil _,rfl,rfl⟩

include hsizes hsizes'

/-- When transient failures are transparent to a caller that calls again: always in a
body of fixed length, and in a chunked body when all of them are at safe places, which
a single failure also has to be. -/
theorem retry_transparent :
    (∀ (message : Chunked) (body clean : ResponseBody), message.WithinLimits →
      Interrupts message.wire (.chunked ⟨0,false,false⟩) body clean →
      ((∀ place ∈ body.wire.places, message.safe place = true) →
        (readAll true sizes body).Same (readAll false sizes' clean)) ∧
      ∀ place, body.wire.places = [place] →
        ((readAll true sizes body).Same (readAll false sizes' clean) ↔ message.safe place = true)) ∧
    ∀ (content : Bytes) (body clean : ResponseBody),
      Interrupts content (.contentLength content.length) body clean →
      (readAll true sizes body).Same (readAll false sizes' clean) := by
  constructor
  · intro message body clean hlimits h
    obtain ⟨hbytes,hlater,hplaces⟩ := h.clean_bytes
    obtain ⟨hclean,hcleanEnding,hcleanDone⟩ := readAll_good hsizes' false hlimits h.clean_mode hbytes
      (by rw [hlater]; exact nofun) (by rw [hplaces]; exact nofun) (Or.inr hlater)
    have henough : (∀ place ∈ body.wire.places, message.safe place = true) →
        (readAll true sizes body).Same (readAll false sizes' clean) := by
      intro hsafe
      obtain ⟨hdata,hending,hdone⟩ :=
        readAll_good hsizes true hlimits h.mode_eq h.bytes_eq h.transient hsafe (Or.inl rfl)
      exact ⟨by rw [hdata,hclean],by rw [hending,hcleanEnding],by rw [hdone,hcleanDone]⟩
    refine ⟨henough,?_⟩
    intro place hplace
    constructor
    · rintro ⟨hdata,hending,_⟩
      by_contra hrisky
      rw [Bool.not_eq_true] at hrisky
      apply readAll_bad hsizes hlimits h.mode_eq h.bytes_eq h.transient hplace hrisky
      exact ⟨by rw [hdata,hclean],by rw [hending,hcleanEnding]⟩
    · intro hsafe
      apply henough
      rw [hplace]
      intro place' hm
      rw [List.mem_singleton.mp hm]
      exact hsafe
  · intro content body clean h
    obtain ⟨hbytes,hlater,_⟩ := h.clean_bytes
    obtain ⟨hclean,hcleanEnding,hcleanDone⟩ := readAll_fixed false h.clean_mode hsizes' hbytes
      (by rw [hlater]; exact nofun) (Or.inr hlater)
    obtain ⟨hdata,hending,hdone⟩ := readAll_fixed true h.mode_eq hsizes h.bytes_eq h.transient (Or.inl rfl)
    exact ⟨by rw [hdata,hclean],by rw [hending,hcleanEnding],by rw [hdone,hcleanDone]⟩

end Transparency

/-- A chunked body that would block once, behind the first bytes. -/
def blocking (first rest : Bytes) : ResponseBody :=
  ⟨⟨⟨Event.segment first ++ .fail ⟨.wouldBlock,"would block"⟩ :: Event.segment rest,none⟩,[]⟩,
    .chunked ⟨0,false,false⟩⟩

/-- Behind the data of the chunk the caller may be interrupted, inside its separator not. -/
theorem retry_transparent_letter :
    (readAll true (fun _ => 1) (blocking [49,13,10,65] [13,10,48,13,10,13,10])).Same
      (readAll false (fun _ => 2) (flowing letter.wire)) ∧
    ¬ (readAll true (fun _ => 1) (blocking [49,13,10,65,13] [10,48,13,10,13,10])).Same
      (readAll false (fun _ => 2) (flowing letter.wire)) := by
  have hpos : ∀ n : ℕ, ∀ k : ℕ, 0 < (fun _ => n + 1) k := fun n _ => Nat.succ_pos n
  have htransparent := (retry_transparent (hpos 0) (hpos 1)).1 letter
  have hbefore := htransparent (blocking [49,13,10,65] [13,10,48,13,10,13,10]) (flowing letter.wire)
    letter_within ⟨rfl,rfl,by decide,rfl,rfl⟩
  have hinside := htransparent (blocking [49,13,10,65,13] [10,48,13,10,13,10]) (flowing letter.wire)
    letter_within ⟨rfl,rfl,by decide,rfl,rfl⟩
  exact ⟨hbefore.1 (by decide),fun h => absurd ((hinside.2 5 rfl).mp h) (by decide)⟩

/-- Chunks whose contents read as size lines: what is lost in front of them lets each be
taken for the framing of the next. -/
def nested : Chunked where
  chunks := letter.chunks ++
    [⟨.bare [49,48] none rfl,49 :: 49 :: 59 :: List.replicate 13 120,List.cons_ne_nil _ _,rfl⟩,
      ⟨.bare [49,49] (some (List.replicate 13 120 ++ [49])) rfl,49 :: 49 :: 59 :: List.replicate 14 120,
        List.cons_ne_nil _ _,rfl⟩,
      ⟨.bare [49] (some (List.replicate 14 120 ++ [48])) rfl,[48],List.cons_ne_nil _ _,rfl⟩]
  last := .bare [48] (some [58]) rfl
  last_zero := rfl
  trailers := []

/-- Failures at unsafe places can make up for each other: behind the first chunk each of
these four bytes is lost, and the caller still gets the same data. -/
example : ∃ body : ResponseBody,
    Interrupts nested.wire (.chunked ⟨0,false,false⟩) body (flowing nested.wire) ∧
    body.wire.places = [5,6,7,8] ∧ (∀ place ∈ body.wire.places, nested.safe place = false) ∧
    (readAll true (fun _ => 1) body).Same (readAll false (fun _ => 1) (flowing nested.wire)) := by
  refine ⟨⟨⟨⟨Event.segment (nested.wire.take 5) ++ .fail ⟨.timedOut,"timed out"⟩ ::
    (Event.segment [10] ++ .fail ⟨.timedOut,"timed out"⟩ :: (Event.segment [49] ++
      .fail ⟨.timedOut,"timed out"⟩ :: (Event.segment [48] ++ .fail ⟨.timedOut,"timed out"⟩ ::
        Event.segment (nested.wire.drop 8)))),none⟩,[]⟩,.chunked ⟨0,false,false⟩⟩,?_,?_,?_,?_⟩
  · exact ⟨rfl,rfl,by decide,rfl,rfl⟩
  · rfl
  · decide
  · exact ⟨rfl,rfl,rfl⟩

/-- A read that would block between the two bytes of a separator makes the caller lose
the rest of the body. -/
theorem separator_lost : letter.WithinLimits ∧
    Interrupts letter.wire (.chunked ⟨0,false,false⟩)
      (blocking [49,13,10,65,13] [10,48,13,10,13,10]) (flowing letter.wire) ∧
    (readAll true (fun _ => 1) (blocking [49,13,10,65,13] [10,48,13,10,13,10])).ending =
      .error ⟨.invalidData,"HTTP chunk data was not followed by CRLF"⟩ ∧
    (readAll false (fun _ => 1) (flowing letter.wire)).ending = .ok () ∧
    ¬ (readAll true (fun _ => 1) (blocking [49,13,10,65,13] [10,48,13,10,13,10])).Same
      (readAll false (fun _ => 1) (flowing letter.wire)) := by
  have hlost : (readAll true (fun _ => 1) (blocking [49,13,10,65,13] [10,48,13,10,13,10])).ending =
      .error ⟨.invalidData,"HTTP chunk data was not followed by CRLF"⟩ := rfl
  have hwhole : (readAll false (fun _ => 1) (flowing letter.wire)).ending = .ok () := rfl
  refine ⟨letter_within,⟨rfl,rfl,by decide,rfl,rfl⟩,hlost,hwhole,?_⟩
  rintro ⟨_,hending,_⟩
  rw [hlost,hwhole] at hending
  cases hending

end H12Tiny.Sync
