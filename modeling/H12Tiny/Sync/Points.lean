import H12Tiny.Sync.Drain
import H12Tiny.Sync.Message

/-! # Points of a well-formed body

Between two calls a well-formed body is at its start, in the data of a chunk or at
its end; the end of a chunk's data is a point in it. At each point some places of the
bytes to come are safe: a call that is interrupted there leaves the body at a point
with the same data to come. The end of the data and all of it are safe, and so is the
first size line; between two chunks nothing is.
-/
namespace H12Tiny.Sync

def Wire.bytes (wire : Wire) : Bytes := wire.ready ++ (wire.later.map Prod.snd).flatten

/-- The places of the failures among these bytes, `count` bytes before the first. -/
def placesFrom (count : ℕ) : List (IoError × Bytes) → List ℕ
  | [] => []
  | (_,more) :: later => count :: placesFrom (count + more.length) later

def Wire.places (wire : Wire) : List ℕ := placesFrom wire.ready.length wire.later

theorem Wire.bytes_prepend (taken : Bytes) (wire : Wire) : (wire.prepend taken).bytes = taken ++ wire.bytes := by
  simp only [bytes,prepend,List.append_assoc]

theorem Wire.bytes_fail (error : IoError) (wire : Wire) : (wire.fail error).bytes = wire.bytes := rfl

theorem placesFrom_add (count shift : ℕ) (later : List (IoError × Bytes)) :
    placesFrom (shift + count) later = (placesFrom count later).map (shift + ·) := by
  induction later generalizing count with
  | nil => rfl
  | cons failure later ih =>
    simp only [placesFrom,List.map_cons,Nat.add_assoc,ih]

theorem Wire.places_prepend (taken : Bytes) (wire : Wire) :
    (wire.prepend taken).places = wire.places.map (taken.length + ·) := by
  simp only [places,prepend,List.length_append,placesFrom_add]

theorem Wire.met (ready more : Bytes) (error : IoError) (later : List (IoError × Bytes)) :
    (⟨ready,(error,more) :: later⟩ : Wire).bytes = (⟨ready ++ more,later⟩ : Wire).bytes ∧
    (⟨ready,(error,more) :: later⟩ : Wire).places = ready.length :: (⟨ready ++ more,later⟩ : Wire).places := by
  constructor
  · simp only [bytes,List.map_cons,List.flatten_cons,List.append_assoc]
  · simp only [places,placesFrom,List.length_append]

/-- A text at the front of a wire is ready as a whole, or a failure lies inside it. -/
theorem Wire.cut {wire : Wire} {text rest : Bytes} (h : wire.bytes = text ++ rest) :
    (∃ wire' : Wire, wire = wire'.prepend text ∧ wire'.bytes = rest) ∨
    ∃ post error more later, text = wire.ready ++ post ∧ post ≠ [] ∧ wire.later = (error,more) :: later := by
  obtain ⟨ready,later⟩ := wire
  rcases append_cut h.symm with ⟨ready',hready,hrest⟩ | ⟨post,htext,hpost⟩
  · dsimp only at hready
    subst hready
    exact Or.inl ⟨⟨ready',later⟩,rfl,hrest.symm⟩
  · cases later with
    | nil =>
      have hlen := congrArg List.length h
      have hpos := List.length_pos_of_ne_nil hpost
      rw [htext] at hlen
      simp only [bytes,List.map_nil,List.flatten_nil,List.length_append,List.length_nil] at hlen
      omega
    | cons failure later => exact Or.inr ⟨post,failure.1,failure.2,later,htext,hpost,rfl⟩

def messageWire : List Chunk → Ending → Bytes
  | [], ending => ending.wire
  | chunk :: rest, ending => chunk.size.text ++ crlf ++ (chunk.data ++ (crlf ++ messageWire rest ending))

def messageData (chunks : List Chunk) : Bytes := (chunks.map Chunk.data).flatten

inductive Point
  | start (chunks : List Chunk) (ending : Ending)
  | data (rest : Bytes) (chunks : List Chunk) (ending : Ending)
  | complete

/-- Safe places of trailers that no chunk precedes: a line that would itself pass for a
size line of value zero. -/
def safeTrailers : List Bytes → ℕ → Bool
  | [], place => 2 ≤ place
  | text :: rest, place =>
    if place < text.length + 2 then (parseChunkSize text).toOption = some 0
    else safeTrailers rest (place - (text.length + 2))

/-- Safe places behind the data of a chunk, with the lengths of the size lines and the
data of the chunks to come and the length of what follows them. -/
def safeAfter (tail : ℕ) : List (ℕ × ℕ) → ℕ → Bool
  | [], place => place = 0 ∨ tail + 2 ≤ place
  | (line,data) :: rest, place =>
    place = 0 ∨ (line + 4 ≤ place ∧
      (place ≤ line + 4 + data ∨ safeAfter tail rest (place - (line + 4 + data)) = true))

def Chunk.lengths (chunk : Chunk) : ℕ × ℕ := (chunk.size.text.length,chunk.data.length)

namespace Point

def state : Point → ChunkState
  | start _ _ => ⟨0,false,false⟩
  | data rest _ _ => ⟨rest.length,rest = [],false⟩
  | complete => ⟨0,false,true⟩

/-- The bytes of the body that are still to come. -/
def stream : Point → Bytes
  | start chunks ending => messageWire chunks ending
  | data rest chunks ending => rest ++ (crlf ++ messageWire chunks ending)
  | complete => []

def todo : Point → Bytes
  | start chunks _ => messageData chunks
  | data rest chunks _ => rest ++ messageData chunks
  | complete => []

def safe : Point → ℕ → Bool
  | start [] ending, place =>
    place < ending.last.length + 2 ∨ safeTrailers ending.trailers (place - (ending.last.length + 2)) = true
  | start (chunk :: rest) ending, place =>
    place ≤ chunk.size.text.length + 2 + chunk.data.length ∨
      safeAfter ending.wire.length (rest.map Chunk.lengths)
        (place - (chunk.size.text.length + 2 + chunk.data.length)) = true
  | data rest chunks ending, place =>
    place ≤ rest.length ∨
      safeAfter ending.wire.length (chunks.map Chunk.lengths) (place - rest.length) = true
  | complete, _ => true

def Short : Point → Prop
  | start chunks _ => ∀ chunk ∈ chunks, chunk.size.text.length + 2 ≤ maxChunkLineBytes
  | data _ chunks _ => ∀ chunk ∈ chunks, chunk.size.text.length + 2 ≤ maxChunkLineBytes
  | complete => True

end Point

section Safe
variable {chunk : Chunk} {chunks : List Chunk} {ending : Ending}

theorem Point.safe_start_chunk (place : ℕ) :
    (start (chunk :: chunks) ending).safe ((chunk.size.text ++ crlf).length + place) =
      (data chunk.data chunks ending).safe place := by
  have hshift : (chunk.size.text ++ crlf).length + place - (chunk.size.text.length + 2 + chunk.data.length) =
      place - chunk.data.length := by
    simp only [List.length_append,crlf_length]
    omega
  simp only [safe,hshift]
  apply decide_eq_decide.mpr
  simp only [List.length_append,crlf_length]
  constructor
  · exact Or.imp_left (by omega)
  · exact Or.imp_left (by omega)

theorem Point.safe_data_chunk (place : ℕ) :
    (data [] (chunk :: chunks) ending).safe ((crlf ++ (chunk.size.text ++ crlf)).length + place) =
      (data chunk.data chunks ending).safe place := by
  have hshift : (crlf ++ (chunk.size.text ++ crlf)).length + place - ([] : Bytes).length -
      (chunk.size.text.length + 4 + chunk.data.length) = place - chunk.data.length := by
    simp only [List.length_append,crlf_length,List.length_nil]
    omega
  simp only [safe,List.map_cons,Chunk.lengths,safeAfter,hshift]
  apply decide_eq_decide.mpr
  simp only [List.length_append,crlf_length,List.length_nil,decide_eq_true_eq]
  constructor
  · rintro (hzero | hzero | ⟨_,hle | hafter⟩)
    · omega
    · omega
    · exact Or.inl (by omega)
    · exact Or.inr hafter
  · rintro (hle | hafter)
    · exact Or.inr (Or.inr ⟨by omega,Or.inl (by omega)⟩)
    · exact Or.inr (Or.inr ⟨by omega,Or.inr hafter⟩)

theorem Point.safe_data_piece (read rest : Bytes) (place : ℕ) :
    (data (read ++ rest) chunks ending).safe (read.length + place) = (data rest chunks ending).safe place := by
  have hshift : read.length + place - (read ++ rest).length = place - rest.length := by
    simp only [List.length_append]
    omega
  simp only [safe,hshift]
  apply decide_eq_decide.mpr
  simp only [List.length_append]
  constructor
  · exact Or.imp_left (by omega)
  · exact Or.imp_left (by omega)

end Safe

/-- A wire on which the body stands at a point, other bytes behind it, with transient
failures at safe places only. -/
structure Good (point : Point) (wire : Wire) (further : Bytes) : Prop where
  short : point.Short
  bytes : wire.bytes = point.stream ++ further
  transient : ∀ failure ∈ wire.later, failure.1.isTransient = true
  safe : ∀ place ∈ wire.places, point.safe place = true

section Good
variable {point : Point} {further : Bytes}

theorem Good.met {ready more : Bytes} {error : IoError} {later : List (IoError × Bytes)}
    (h : Good point ⟨ready,(error,more) :: later⟩ further) : Good point ⟨ready ++ more,later⟩ further := by
  obtain ⟨hbytes,hplaces⟩ := Wire.met ready more error later
  refine ⟨h.short,hbytes.symm.trans h.bytes,?_,?_⟩
  · intro failure hm
    exact h.transient failure (List.mem_cons_of_mem _ hm)
  · intro place hm
    apply h.safe
    rw [hplaces]
    exact List.mem_cons_of_mem _ hm

theorem Good.first {ready more : Bytes} {error : IoError} {later : List (IoError × Bytes)}
    (h : Good point ⟨ready,(error,more) :: later⟩ further) : point.safe ready.length = true := by
  apply h.safe
  rw [(Wire.met ready more error later).2]
  exact List.mem_cons_self

theorem Good.taken {point' : Point} {taken : Bytes} {wire : Wire} (h : Good point (wire.prepend taken) further)
    (hshort : point'.Short) (hstream : point.stream = taken ++ point'.stream)
    (hsafe : ∀ place, point.safe (taken.length + place) = point'.safe place) :
    Good point' wire further := by
  refine ⟨hshort,?_,h.transient,?_⟩
  · have hbytes := h.bytes
    rw [Wire.bytes_prepend,hstream,List.append_assoc] at hbytes
    exact List.append_cancel_left hbytes
  · intro place hm
    rw [← hsafe]
    apply h.safe
    rw [Wire.places_prepend]
    exact List.mem_map_of_mem hm

end Good

/-- What the framing at a point can bring. -/
inductive Framed (point : Point) (wire : Wire) (further : Bytes) : EStateM.Result IoError Wire ℕ → Prop
  | last {rest : Wire} (hlater : rest.later = wire.later) (htodo : point.todo = [])
      (hbytes : rest.bytes = further) : Framed point wire further (.ok 0 rest)
  | chunk {data : Bytes} {chunks : List Chunk} {ending : Ending} {rest : Wire}
      (hlater : rest.later = wire.later) (hne : data ≠ [])
      (htodo : point.todo = (Point.data data chunks ending).todo)
      (hgood : Good (.data data chunks ending) rest further) :
      Framed point wire further (.ok data.length rest)
  | again {error : IoError} {more : Bytes} {rest : Wire} {point' : Point}
      (hlater : wire.later = (error,more) :: rest.later) (hstate : point'.state = point.state)
      (htodo : point'.todo = point.todo) (hgood : Good point' rest further) :
      Framed point wire further (.error error rest)

theorem Framed.of_ok {point : Point} {wire rest : Wire} {further : Bytes} {size : ℕ}
    (h : Framed point wire further (.ok size rest)) :
    rest.later = wire.later ∧ ((size = 0 ∧ point.todo = [] ∧ rest.bytes = further) ∨
    ∃ data chunks ending, size = data.length ∧ data ≠ [] ∧
      point.todo = (Point.data data chunks ending).todo ∧ Good (.data data chunks ending) rest further) := by
  cases h with
  | last hlater htodo hbytes => exact ⟨hlater,Or.inl ⟨rfl,htodo,hbytes⟩⟩
  | chunk hlater hne htodo hgood => exact ⟨hlater,Or.inr ⟨_,_,_,rfl,hne,htodo,hgood⟩⟩

theorem Framed.of_error {point : Point} {wire rest : Wire} {further : Bytes} {error : IoError}
    (h : Framed point wire further (.error error rest)) :
    (∃ more, wire.later = (error,more) :: rest.later) ∧ ∃ point' : Point,
      point'.state = point.state ∧ point'.todo = point.todo ∧ Good point' rest further := by
  cases h with
  | again hlater hstate htodo hgood => exact ⟨⟨_,hlater⟩,_,hstate,htodo,hgood⟩

section Framed
variable {chunk : Chunk} {chunks : List Chunk} {ending : Ending} {wire : Wire} {further : Bytes}

theorem Chunk.parses (chunk : Chunk) : parseChunkSize chunk.size.text = .ok chunk.data.length := by
  rw [chunk.size.parseChunkSize_text,chunk.size_eq]

theorem Chunk.length_ne (chunk : Chunk) : chunk.data.length ≠ 0 := by
  intro h
  exact chunk.nonempty (List.eq_nil_of_length_eq_zero h)

/-- A failure inside the first size line leaves everything to the next call. -/
theorem framed_first {point : Point} {line ready post more : Bytes} {error : IoError}
    {later : List (IoError × Bytes)} (hgood : Good point ⟨ready,(error,more) :: later⟩ further)
    (hclean : cr ∉ line) (hshort : line.length + 2 ≤ maxChunkLineBytes)
    (hcut : line ++ crlf = ready ++ post) (hpost : post ≠ []) :
    Framed point ⟨ready,(error,more) :: later⟩ further
      (Wire.nextChunk cautious false ⟨ready,(error,more) :: later⟩) := by
  have hnext : Wire.nextChunk cautious false ⟨ready,(error,more) :: later⟩ =
      .error error ⟨ready ++ more,later⟩ := nextChunk_line_interrupted hclean hshort hcut hpost false
  rw [hnext]
  exact .again rfl rfl rfl hgood.met

theorem framed_separator {point : Point} {more : Bytes} {error : IoError}
    {later : List (IoError × Bytes)} (hgood : Good point ⟨[],(error,more) :: later⟩ further) :
    Framed point ⟨[],(error,more) :: later⟩ further
      (Wire.nextChunk cautious true ⟨[],(error,more) :: later⟩) := by
  rw [nextChunk_separator_interrupted (by decide)]
  exact .again rfl rfl rfl hgood.met

theorem framed_start_chunk (hgood : Good (.start (chunk :: chunks) ending) wire further) :
    Framed (.start (chunk :: chunks) ending) wire further (Wire.nextChunk cautious false wire) := by
  have hshort := hgood.short chunk List.mem_cons_self
  have hbytes := hgood.bytes
  simp only [Point.stream,messageWire,List.append_assoc (chunk.size.text ++ crlf)] at hbytes
  rcases Wire.cut hbytes with ⟨rest,rfl,_⟩ | ⟨post,error,more,later,hcut,hpost,hlater⟩
  · have hnext : Wire.nextChunk cautious false (rest.prepend (chunk.size.text ++ crlf)) =
        .ok chunk.data.length rest :=
      nextChunk_chunk chunk.size.cr_not_mem hshort chunk.parses chunk.length_ne false rest
    have hrest : Good (.data chunk.data chunks ending) rest further :=
      hgood.taken (fun c hc => hgood.short c (List.mem_cons_of_mem _ hc)) rfl Point.safe_start_chunk
    rw [hnext]
    exact .chunk rfl chunk.nonempty rfl hrest
  · obtain ⟨ready,_⟩ := wire
    dsimp only at hlater hcut
    subst hlater
    exact framed_first hgood chunk.size.cr_not_mem hshort hcut hpost

/-- At the end of a chunk's data only the first place is safe, up to the next data. -/
theorem framed_data_chunk (hgood : Good (.data [] (chunk :: chunks) ending) wire further) :
    Framed (.data [] (chunk :: chunks) ending) wire further (Wire.nextChunk cautious true wire) := by
  have hshort := hgood.short chunk List.mem_cons_self
  have hbytes : wire.bytes = crlf ++ (chunk.size.text ++ crlf) ++
      (chunk.data ++ (crlf ++ messageWire chunks ending) ++ further) := by
    rw [hgood.bytes]
    simp only [Point.stream,messageWire,List.nil_append,List.append_assoc]
  rcases Wire.cut hbytes with ⟨rest,rfl,_⟩ | ⟨post,error,more,later,hcut,hpost,hlater⟩
  · have hnext : Wire.nextChunk cautious true (rest.prepend (crlf ++ (chunk.size.text ++ crlf))) =
        .ok chunk.data.length rest :=
      nextChunk_chunk chunk.size.cr_not_mem hshort chunk.parses chunk.length_ne true rest
    have hrest : Good (.data chunk.data chunks ending) rest further := by
      refine hgood.taken (fun c hc => hgood.short c (List.mem_cons_of_mem _ hc)) ?_ Point.safe_data_chunk
      simp only [Point.stream,messageWire,List.nil_append,List.append_assoc]
    rw [hnext]
    exact .chunk rfl chunk.nonempty rfl hrest
  · obtain ⟨ready,_⟩ := wire
    dsimp only at hlater hcut
    subst hlater
    have hlen := congrArg List.length hcut
    have hpos := List.length_pos_of_ne_nil hpost
    have hfirst := hgood.first
    simp only [Point.safe,decide_eq_true_eq,List.length_nil,List.map_cons,Chunk.lengths,safeAfter,
      List.length_append,crlf_length] at hfirst hlen
    have hnil : ready = [] := List.eq_nil_of_length_eq_zero (by omega)
    subst hnil
    exact framed_separator hgood

theorem framed_data_ending (hgood : Good (.data [] [] ending) wire further) :
    Framed (.data [] [] ending) wire further (Wire.nextChunk cautious true wire) := by
  have hbytes : wire.bytes = crlf ++ ending.wire ++ further := by
    rw [hgood.bytes]
    simp only [Point.stream,messageWire,List.nil_append]
  rcases Wire.cut hbytes with ⟨rest,rfl,hfurther⟩ | ⟨post,error,more,later,hcut,hpost,hlater⟩
  · have hnext : Wire.nextChunk cautious true (rest.prepend (crlf ++ ending.wire)) = .ok 0 rest :=
      nextChunk_ending ending true rest
    rw [hnext]
    exact .last rfl rfl hfurther
  · obtain ⟨ready,_⟩ := wire
    dsimp only at hlater hcut
    subst hlater
    have hlen := congrArg List.length hcut
    have hpos := List.length_pos_of_ne_nil hpost
    have hfirst := hgood.first
    simp only [Point.safe,decide_eq_true_eq,List.length_nil,List.map_nil,safeAfter,List.length_append,
      crlf_length] at hfirst hlen
    have hnil : ready = [] := List.eq_nil_of_length_eq_zero (by omega)
    subst hnil
    exact framed_separator hgood

theorem safeTrailers_gone (gone rest : List Bytes) (place : ℕ) :
    safeTrailers (gone ++ rest) ((linesWire gone).length + place) = safeTrailers rest place := by
  induction gone with
  | nil => simp [linesWire]
  | cons text gone ih =>
    have hlen : (linesWire (text :: gone)).length = text.length + 2 + (linesWire gone).length := by
      simp only [linesWire,List.map_cons,List.flatten_cons,List.length_append,crlf_length]
    rw [List.cons_append,safeTrailers,if_neg (by omega),← ih]
    congr 1
    omega

theorem start_trailers_safe {gone rest : List Bytes} (h : ending.trailers = gone ++ rest) (place : ℕ) :
    (Point.start [] ending).safe ((ending.last ++ crlf ++ linesWire gone).length + place) =
      safeTrailers rest place := by
  have hlen : (ending.last ++ crlf ++ linesWire gone).length + place - (ending.last.length + 2) =
      (linesWire gone).length + place := by
    simp only [List.length_append,crlf_length]
    omega
  have hge : ¬ (ending.last ++ crlf ++ linesWire gone).length + place < ending.last.length + 2 := by
    simp only [List.length_append,crlf_length]
    omega
  simp only [Point.safe,hge,hlen,h,safeTrailers_gone,false_or,Bool.decide_eq_true]

theorem Ending.split {gone rest : List Bytes} {text : Bytes} (h : ending.trailers = gone ++ text :: rest) :
    TrailerOk text ∧ (∀ t ∈ rest, TrailerOk t) ∧ trailerTotal rest ≤ maxTrailerBytes := by
  have hok := ending.trailers_ok
  have htotal := ending.total
  rw [h] at hok htotal
  refine ⟨hok text (by simp),fun t ht => hok t (by simp [ht]),?_⟩
  simp only [trailerTotal,List.map_append,List.map_cons,List.sum_append,List.sum_cons] at htotal ⊢
  omega

/-- The ending that a trailer line of value zero begins. -/
def Ending.shift (ending : Ending) {gone rest : List Bytes} {text : Bytes}
    (h : ending.trailers = gone ++ text :: rest) (hparse : parseChunkSize text = .ok 0) : Ending where
  last := text
  trailers := rest
  parses := hparse
  clean := (Ending.split h).1.2.2.1
  short := (Ending.split h).1.2.2.2
  trailers_ok := (Ending.split h).2.1
  total := (Ending.split h).2.2

theorem toOption_eq_some {α : Type} {x : Except IoError α} {a : α} (h : x.toOption = some a) : x = .ok a := by
  cases x with
  | ok b =>
    cases h
    rfl
  | error e => cases h

theorem Ending.shift_safe {gone rest : List Bytes} {text : Bytes} (h : ending.trailers = gone ++ text :: rest)
    (hparse : parseChunkSize text = .ok 0) (place : ℕ) :
    (Point.start [] ending).safe ((ending.last ++ crlf ++ linesWire gone).length + place) =
      (Point.start [] (ending.shift h hparse)).safe place := by
  rw [start_trailers_safe h,safeTrailers]
  simp only [Point.safe,Ending.shift]
  split
  next hin =>
    have hzero : (parseChunkSize text).toOption = some 0 := by
      rw [hparse]
      rfl
    simp [hin,hzero]
  next hout => simp [hout]

theorem Good.shift {gone rest : List Bytes} {text ready more : Bytes} {error : IoError}
    {later : List (IoError × Bytes)}
    (hgood : Good (.start [] ending) ⟨ending.last ++ crlf ++ (linesWire gone ++ ready),(error,more) :: later⟩ further)
    (h : ending.trailers = gone ++ text :: rest) (hparse : parseChunkSize text = .ok 0) :
    Good (.start [] (ending.shift h hparse)) ⟨ready ++ more,later⟩ further := by
  have hmet : Good (.start [] ending)
      ((⟨ready ++ more,later⟩ : Wire).prepend (ending.last ++ crlf ++ linesWire gone)) further := by
    have hmet := hgood.met
    simp only [← List.append_assoc] at hmet
    simp only [Wire.prepend,← List.append_assoc]
    exact hmet
  refine hmet.taken (List.forall_mem_nil _) ?_ (Ending.shift_safe h hparse)
  simp only [Point.stream,messageWire,Ending.wire,h,trailerWire_append,trailerWire_cons,Ending.shift,
    List.append_assoc]

theorem framed_start_ending (hgood : Good (.start [] ending) wire further) :
    Framed (.start [] ending) wire further (Wire.nextChunk cautious false wire) := by
  rcases Wire.cut hgood.bytes with ⟨rest,rfl,hfurther⟩ | ⟨post,error,more,later,hcut,hpost,hlater⟩
  · have hnext : Wire.nextChunk cautious false (rest.prepend ending.wire) = .ok 0 rest :=
      nextChunk_ending ending false rest
    rw [Point.stream,messageWire,hnext]
    exact .last rfl rfl hfurther
  · obtain ⟨ready,_⟩ := wire
    dsimp only at hlater hcut
    subst hlater
    rcases append_cut hcut with ⟨pre,rfl,htrailers⟩ | ⟨post',hline,hpost'⟩
    · obtain ⟨gone,rest,pre',htexts,rfl,hlt,hnext⟩ :=
        nextChunk_trailers_interrupted ending htrailers hpost false error more later
      have hfirst := hgood.first
      rw [← List.append_assoc,List.length_append,start_trailers_safe htexts] at hfirst
      cases rest with
      | nil =>
        simp only [safeTrailers,decide_eq_true_eq,List.headD_nil,List.length_nil] at hfirst hlt
        omega
      | cons text rest =>
        rw [List.headD_cons] at hlt
        rw [safeTrailers,if_pos hlt,decide_eq_true_eq] at hfirst
        have hshift := hgood.shift htexts (toOption_eq_some hfirst)
        have hnext' : Wire.nextChunk cautious false
            ⟨ending.last ++ crlf ++ (linesWire gone ++ pre'),(error,more) :: later⟩ =
              .error error ⟨pre' ++ more,later⟩ := hnext
        rw [hnext']
        refine .again rfl ?_ ?_ hshift
        · rfl
        · rfl
    · exact framed_first hgood ending.clean ending.short hline hpost'

theorem framed {point : Point} (hzero : point.state.remaining = 0) (hcomplete : point.state.complete = false)
    (hgood : Good point wire further) :
    Framed point wire further (Wire.nextChunk cautious point.state.separatorDue wire) := by
  cases point with
  | start chunks ending =>
    cases chunks with
    | nil => exact framed_start_ending hgood
    | cons chunk chunks => exact framed_start_chunk hgood
  | data rest chunks ending =>
    have hnil : rest = [] := List.eq_nil_of_length_eq_zero hzero
    subst hnil
    cases chunks with
    | nil => exact framed_data_ending hgood
    | cons chunk chunks => exact framed_data_chunk hgood
  | complete => cases hcomplete

end Framed

/-- What a call at a point can bring: data and another point, the end of the body, or
the first failure and a point with the same data to come. -/
inductive Advance (point : Point) (wire : Wire) (further : Bytes) :
    EStateM.Result IoError ChunkedBody Bytes → Prop
  | more {read : Bytes} {body : ChunkedBody} {point' : Point} (hlater : body.wire.later = wire.later)
      (hne : read ≠ []) (htodo : point.todo = read ++ point'.todo) (hstate : body.state = point'.state)
      (hgood : Good point' body.wire further) : Advance point wire further (.ok read body)
  | done {body : ChunkedBody} (hlater : body.wire.later = wire.later) (htodo : point.todo = [])
      (hstate : body.state = Point.complete.state) (hbytes : body.wire.bytes = further) :
      Advance point wire further (.ok [] body)
  | again {error : IoError} {more : Bytes} {body : ChunkedBody} {point' : Point}
      (hlater : wire.later = (error,more) :: body.wire.later) (htodo : point'.todo = point.todo)
      (hstate : body.state = point'.state) (hgood : Good point' body.wire further) :
      Advance point wire further (.error error body)

section Advance
variable {further : Bytes} {capacity : ℕ}

theorem exists_rest {rest read bytes behind : Bytes} (h : read ++ bytes = rest ++ behind)
    (hlen : read.length ≤ rest.length) : ∃ rest', rest = read ++ rest' := by
  have hread : read <+: rest ++ behind := ⟨bytes,h⟩
  obtain ⟨rest',hrest⟩ := List.prefix_of_prefix_length_le hread (List.prefix_append _ _) hlen
  exact ⟨rest',hrest.symm⟩

theorem Good.piece {rest read : Bytes} {chunks : List Chunk} {ending : Ending} {wire : Wire}
    (hgood : Good (.data rest chunks ending) (wire.prepend read) further) (hlen : read.length ≤ rest.length) :
    ∃ rest', rest = read ++ rest' ∧ Good (.data rest' chunks ending) wire further := by
  have hbytes := hgood.bytes
  rw [Wire.bytes_prepend,Point.stream,List.append_assoc] at hbytes
  obtain ⟨rest',rfl⟩ := exists_rest hbytes hlen
  refine ⟨rest',rfl,hgood.taken hgood.short ?_ (Point.safe_data_piece read rest')⟩
  simp only [Point.stream,List.append_assoc]

theorem advance_data {point : Point} {rest : Bytes} {chunks : List Chunk} {ending : Ending}
    {wire₀ wire : Wire} (hlater : wire.later = wire₀.later) (hne : rest ≠ [])
    (htodo : point.todo = (Point.data rest chunks ending).todo)
    (hgood : Good (.data rest chunks ending) wire further) :
    wire ≠ ⟨[],[]⟩ ∧
    (∀ read inbound, wire = (Inbound.wire inbound).prepend read → read ≠ [] → read.length ≤ rest.length →
      Advance point wire₀ further (.ok read
        ⟨inbound,rest.length - read.length,rest.length = read.length,false⟩)) ∧
    (∀ error inbound, wire = (Inbound.wire inbound).fail error →
      Advance point wire₀ further (.error error ⟨inbound,rest.length,false,false⟩)) := by
  have hpos := List.length_pos_of_ne_nil hne
  refine ⟨?_,?_,?_⟩
  · rintro rfl
    have hlen := congrArg List.length hgood.bytes
    simp only [Wire.bytes,Point.stream,List.map_nil,List.flatten_nil,List.append_nil,List.length_nil,
      List.length_append,crlf_length] at hlen
    omega
  · rintro read inbound rfl hread hlen
    obtain ⟨rest',rfl,hpiece⟩ := hgood.piece hlen
    have hstate : (⟨(read ++ rest').length - read.length,(read ++ rest').length = read.length,false⟩ : ChunkState) =
        (Point.data rest' chunks ending).state := by
      have hempty : decide ((read ++ rest').length = read.length) = decide (rest' = []) :=
        decide_eq_decide.mpr (by simp)
      rw [hempty]
      simp only [Point.state,List.length_append,Nat.add_sub_cancel_left]
    refine .more hlater hread ?_ hstate hpiece
    rw [htodo]
    simp only [Point.todo,List.append_assoc]
  · rintro error inbound rfl
    have hstate : (⟨rest.length,false,false⟩ : ChunkState) = (Point.data rest chunks ending).state := by
      simp only [Point.state,hne,decide_false]
    exact .again hlater.symm htodo.symm hstate hgood.met

theorem opens_data {point : Point} {wire rest : Wire} {chunk : ChunkState}
    (hcomplete : point.state.complete = false) (hgood : Good point wire further)
    (hopens : Opens cautious point.state wire chunk rest) :
    rest.later = wire.later ∧ ∃ data chunks ending, data ≠ [] ∧
      point.todo = (Point.data data chunks ending).todo ∧
      Good (.data data chunks ending) rest further ∧ chunk = ⟨data.length,false,false⟩ := by
  cases hopens with
  | within hpos =>
    cases point with
    | start chunks ending => exact absurd rfl hpos
    | complete => cases hcomplete
    | data data chunks ending =>
      have hne : data ≠ [] := by
        rintro rfl
        exact hpos rfl
      refine ⟨rfl,data,chunks,ending,hne,rfl,hgood,?_⟩
      simp only [Point.state,hne,decide_false]
  | next hzero hnext hsize =>
    have hframed := framed hzero hcomplete hgood
    rw [hnext] at hframed
    obtain ⟨hlater,⟨hz,_⟩ | ⟨data,chunks,ending,rfl,hne,htodo,hdata⟩⟩ := hframed.of_ok
    · exact absurd hz hsize
    · exact ⟨hlater,data,chunks,ending,hne,htodo,hdata,rfl⟩

theorem advance (hcap : 0 < capacity) {point : Point} {inbound : Inbound}
    (hgood : Good point inbound.wire further) :
    Advance point inbound.wire further (readChunked capacity ⟨inbound,point.state⟩) := by
  have hreads := readChunked_reads hcap (Or.inr rfl) ⟨inbound,point.state⟩ (Or.inr ?_)
  · generalize readChunked capacity ⟨inbound,point.state⟩ = r at hreads
    cases hreads with
    | complete hcomplete hwire =>
      cases point with
      | start chunks ending => cases hcomplete
      | data rest chunks ending => cases hcomplete
      | complete =>
        refine .done (by rw [hwire]) rfl rfl ?_
        rw [hwire]
        exact hgood.bytes
    | framing hcomplete hzero hnext =>
      have hframed := framed hzero hcomplete hgood
      rw [hnext] at hframed
      obtain ⟨⟨more,hlater⟩,point',hstate,htodo,hgood'⟩ := hframed.of_error
      exact .again hlater htodo hstate.symm hgood'
    | gaveUp _ _ hbound => cases hbound
    | finished hcomplete hzero hnext =>
      have hframed := framed hzero hcomplete hgood
      rw [hnext] at hframed
      obtain ⟨hlater,⟨_,htodo,hbytes⟩ | ⟨data,_,_,hz,hne,_⟩⟩ := hframed.of_ok
      · exact .done hlater htodo rfl hbytes
      · exact absurd (List.eq_nil_of_length_eq_zero hz.symm) hne
    | data hcomplete hopens hrest hne hlen =>
      obtain ⟨hlater,data,chunks,ending,hdata,htodo,hgood',rfl⟩ := opens_data hcomplete hgood hopens
      exact (advance_data hlater hdata htodo hgood').2.1 _ _ hrest hne (by simp only at hlen; omega)
    | closed hcomplete hopens hrest hwire =>
      obtain ⟨hlater,data,chunks,ending,hdata,htodo,hgood',rfl⟩ := opens_data hcomplete hgood hopens
      exact absurd hrest (advance_data hlater hdata htodo hgood').1
    | failed hcomplete hopens hrest =>
      obtain ⟨hlater,data,chunks,ending,hdata,htodo,hgood',rfl⟩ := opens_data hcomplete hgood hopens
      exact (advance_data hlater hdata htodo hgood').2.2 _ _ hrest
  · intro hcomplete hzero rest hnext
    have hframed := framed hzero hcomplete hgood
    rw [hnext] at hframed
    obtain ⟨⟨more,hlater⟩,_⟩ := hframed.of_error
    have htransient := hgood.transient (lineLimit,more) (by rw [hlater]; exact List.mem_cons_self)
    cases htransient

end Advance

end H12Tiny.Sync
