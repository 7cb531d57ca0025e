import H12Tiny.Sync.Points

/-! # Chunked decoding undoes chunked encoding

A caller that reads a well-formed body to its end gets its data, however the bytes are
cut into the buffered ones and reads of the connection, and whatever the sizes of its
buffers. Behind the body nothing is touched.
-/
namespace H12Tiny.Sync

def Chunked.ending (body : Chunked) (h : body.WithinLimits) : Ending where
  last := body.last.text
  trailers := body.trailers.map Trailer.text
  parses := by rw [body.last.parseChunkSize_text,body.last_zero]
  clean := body.last.cr_not_mem
  short := h.2.1
  trailers_ok := by
    intro text ht
    obtain ⟨trailer,hm,rfl⟩ := List.mem_map.mp ht
    exact ⟨trailer.nonempty,trailer.has_colon,trailer.clean.1,h.2.2.1 trailer hm⟩
  total := by
    rw [trailerTotal,List.map_map]
    exact h.2.2.2

theorem Chunked.messageWire_eq (body : Chunked) (h : body.WithinLimits) :
    messageWire body.chunks (body.ending h) = body.wire := by
  have hchunks : ∀ (chunks : List Chunk) (ending : Ending), messageWire chunks ending =
      (chunks.map fun chunk => chunk.size.text ++ crlf ++ chunk.data ++ crlf).flatten ++ ending.wire := by
    intro chunks ending
    induction chunks with
    | nil => rfl
    | cons chunk chunks ih => simp only [messageWire,ih,List.map_cons,List.flatten_cons,List.append_assoc]
  rw [hchunks]
  simp only [Chunked.wire,Ending.wire,Chunked.ending,trailerWire,linesWire,List.map_map,List.append_assoc]
  rfl

/-- The start of a body is a point, when failures are at its safe places only. -/
theorem Chunked.good {body : Chunked} (h : body.WithinLimits) {wire : Wire} {further : Bytes}
    (hbytes : wire.bytes = body.wire ++ further)
    (htransient : ∀ failure ∈ wire.later, failure.1.isTransient = true)
    (hsafe : ∀ place ∈ wire.places, (Point.start body.chunks (body.ending h)).safe place = true) :
    Good (.start body.chunks (body.ending h)) wire further :=
  ⟨h.1,by rw [hbytes,Point.stream,body.messageWire_eq],htransient,hsafe⟩

/-- A caller who starts at a point gets the data to come and ends behind the body. -/
theorem Calls.of_good {retry : Bool} {sizes : ℕ → ℕ} {body : ResponseBody} {outcome : Outcome}
    {further : Bytes} (h : Calls retry sizes body outcome) (hsizes : ∀ k, 0 < sizes k) :
    ∀ {point : Point} {inbound : Inbound}, body = ⟨inbound,.chunked point.state⟩ →
      Good point inbound.wire further → (retry = true ∨ inbound.wire.later = []) →
      outcome.bytes = point.todo ∧ outcome.ending = .ok () ∧
        outcome.body.mode = .chunked Point.complete.state ∧ outcome.body.wire.bytes = further ∧
        outcome.body.wire.later <:+ inbound.wire.later := by
  induction h with
  | ended h =>
    rintro point inbound rfl hgood _
    obtain ⟨inbound',state',hread,rfl⟩ := read_chunked_ok (hsizes 0) h
    have hadvance := advance (hsizes 0) hgood
    rw [hread] at hadvance
    cases hadvance with
    | more _ hne _ _ _ => exact absurd rfl hne
    | done hlater htodo hstate hbytes =>
      dsimp only at hstate hlater hbytes
      exact ⟨htodo.symm,rfl,by rw [hstate],hbytes,by rw [hlater]⟩
  | failed h hretry =>
    rintro point inbound rfl hgood hmode
    obtain ⟨inbound',state',hread,rfl⟩ := read_chunked_error (hsizes 0) h
    have hadvance := advance (hsizes 0) hgood
    rw [hread] at hadvance
    cases hadvance with
    | again hlater _ _ _ =>
      have htransient := hgood.transient _ (by rw [hlater]; exact List.mem_cons_self)
      rcases hmode with rfl | hnil
      · rw [htransient] at hretry
        cases hretry
      · rw [hnil] at hlater
        cases hlater
  | more h hne _ ih =>
    rintro point inbound rfl hgood hmode
    obtain ⟨inbound',state',hread,rfl⟩ := read_chunked_ok (hsizes 0) h
    have hadvance := advance (hsizes 0) hgood
    rw [hread] at hadvance
    cases hadvance with
    | more hlater _ htodo hstate hgood' =>
      dsimp only at hstate hlater
      subst hstate
      obtain ⟨hbytes,hending,hdone,hfurther,hsuffix⟩ :=
        ih (fun k => hsizes (k + 1)) rfl hgood' (hmode.imp_right hlater.trans)
      exact ⟨by rw [hbytes,htodo],hending,hdone,hfurther,hlater ▸ hsuffix⟩
    | done _ _ _ _ => exact absurd rfl hne
  | retried h hretry _ ih =>
    rintro point inbound rfl hgood hmode
    obtain ⟨inbound',state',hread,rfl⟩ := read_chunked_error (hsizes 0) h
    have hadvance := advance (hsizes 0) hgood
    rw [hread] at hadvance
    cases hadvance with
    | again hlater htodo hstate hgood' =>
      dsimp only at hstate hlater
      subst hstate
      rw [Bool.and_eq_true] at hretry
      obtain ⟨hbytes,hending,hdone,hfurther,hsuffix⟩ :=
        ih (fun k => hsizes (k + 1)) rfl hgood' (Or.inl hretry.1)
      refine ⟨by rw [hbytes,htodo],hending,hdone,hfurther,?_⟩
      rw [hlater]
      exact hsuffix.trans (List.suffix_cons _ _)

/-- Decoding undoes encoding: the reads of a caller with buffers that are not empty
return the data of the body and then nothing, on every later call, and the bytes that
are left are exactly those behind the body. -/
theorem chunked_round_trip (message : Chunked) (hlimits : message.WithinLimits) (further : Bytes)
    (body : ResponseBody) (hmode : body.mode = .chunked ⟨0,false,false⟩)
    (hwire : body.wire = ⟨message.wire ++ further,[]⟩) (sizes : ℕ → ℕ) (hsizes : ∀ k, 0 < sizes k) :
    (readAll false sizes body).bytes = message.data ∧
    (readAll false sizes body).ending = .ok () ∧
    (readAll false sizes body).body.isComplete = true ∧
    (readAll false sizes body).body.wire = ⟨further,[]⟩ ∧
    ∀ capacity, (readAll false sizes body).body.read capacity = .ok [] (readAll false sizes body).body := by
  obtain ⟨inbound,mode⟩ := body
  dsimp only at hmode hwire
  subst hmode
  have hgood : Good (.start message.chunks (message.ending hlimits)) inbound.wire further := by
    apply message.good
    · rw [hwire]
      exact List.append_nil _
    · rw [hwire]
      exact nofun
    · rw [hwire]
      exact nofun
  have hcalls := readAll_calls false sizes ⟨inbound,.chunked ⟨0,false,false⟩⟩
  generalize readAll false sizes ⟨inbound,.chunked ⟨0,false,false⟩⟩ = outcome at hcalls
  obtain ⟨hbytes,hending,hdone,hfurther,hsuffix⟩ :=
    hcalls.of_good hsizes rfl hgood (Or.inr (by rw [hwire]))
  have hcomplete : outcome.body.isComplete = true := by
    unfold ResponseBody.isComplete
    rw [hdone]
    rfl
  have hlater : outcome.body.wire.later = [] := by
    rw [hwire] at hsuffix
    exact List.suffix_nil.mp hsuffix
  have hrest : outcome.body.wire = ⟨further,[]⟩ := by
    generalize outcome.body.wire = rest at hfurther hlater
    obtain ⟨ready,later⟩ := rest
    dsimp only at hlater
    subst hlater
    rw [← hfurther]
    simp [Wire.bytes]
  exact ⟨hbytes,hending,hcomplete,hrest,fun capacity => read_complete hcomplete capacity⟩

/-- One chunk with the letter A. -/
def letter : Chunked :=
  ⟨[⟨.bare [49] none rfl,[65],List.cons_ne_nil _ _,rfl⟩],.bare [48] none rfl,rfl,[]⟩

theorem letter_within : letter.WithinLimits := by
  simp [Chunked.WithinLimits,letter,SizeLine.text,SizeLine.bare]

/-- A chunked body whose bytes have all come in. -/
def flowing (bytes : Bytes) : ResponseBody := ⟨⟨⟨[],none⟩,bytes⟩,.chunked ⟨0,false,false⟩⟩

/-- Two chunks, the first with an extension and with a line end across its end, and a
trailer. -/
def extended : Chunked :=
  ⟨[⟨.bare [48,50] (some [120]) rfl,[65,13],List.cons_ne_nil _ _,rfl⟩,
      ⟨.bare [49] none rfl,[10],List.cons_ne_nil _ _,rfl⟩],
    .bare [48,48] (some [121,59]) rfl,rfl,[⟨[116,58,117],List.cons_ne_nil _ _,by decide,by decide⟩]⟩

theorem extended_within : extended.WithinLimits := by
  simp [Chunked.WithinLimits,extended,SizeLine.text,SizeLine.bare]

/-- The segments cut a size, a separator and a trailer, the caller reads one byte at a time,
and there is a byte behind the body. -/
theorem chunked_round_trip_extended : ∃ body : ResponseBody,
    extended.WithinLimits ∧ body.buffered = [48] ∧
    body.connection.script = [.data 50 [59,120,13,10,65],.data 13 [13],.data 10 [49,13,10,10,13,10,48],
      .data 48 [59,121,59,13,10,116,58],.data 117 [13,10,13,10,7]] ∧
    extended.data = [65,13,10] ∧ (readAll false (fun _ => 1) body).bytes = extended.data ∧
    (readAll false (fun _ => 1) body).body.wire = ⟨[7],[]⟩ := by
  obtain ⟨body,hmode,hbuffered,hscript,hbody⟩ : ∃ body : ResponseBody,
      body.mode = .chunked ⟨0,false,false⟩ ∧ body.buffered = [48] ∧
      body.connection.script = [.data 50 [59,120,13,10,65],.data 13 [13],.data 10 [49,13,10,10,13,10,48],
        .data 48 [59,121,59,13,10,116,58],.data 117 [13,10,13,10,7]] ∧
      body.wire = ⟨extended.wire ++ [7],[]⟩ :=
    ⟨⟨⟨⟨[.data 50 [59,120,13,10,65],.data 13 [13],.data 10 [49,13,10,10,13,10,48],
      .data 48 [59,121,59,13,10,116,58],.data 117 [13,10,13,10,7]],none⟩,[48]⟩,.chunked ⟨0,false,false⟩⟩,
      rfl,rfl,rfl,rfl⟩
  have htrip := chunked_round_trip extended extended_within [7] body hmode hbody (fun _ => 1) fun _ => Nat.one_pos
  exact ⟨body,extended_within,hbuffered,hscript,rfl,htrip.1,htrip.2.2.2.1⟩

end H12Tiny.Sync
