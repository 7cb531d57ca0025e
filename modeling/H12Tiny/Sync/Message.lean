import H12Tiny.Sync.Framing
import H12Tiny.Sync.Grammar

/-! # The readers on well-formed framing

What each reader of a wire does when a well-formed body is on it, for every place at
which the bytes that have come in may stop. The reader is the cautious one: within
the limits it never stops for them.
-/
namespace H12Tiny.Sync

abbrev cautious : Option ℕ := some maxChunkLineBytes

/-- The separator that is due before a chunk, but not before the first. -/
def lead (separatorDue : Bool) : Bytes := if separatorDue then crlf else []

def TrailerOk (text : Bytes) : Prop :=
  text ≠ [] ∧ colon ∈ text ∧ cr ∉ text ∧ text.length + 2 ≤ maxChunkLineBytes

/-- Lines with their line ends, and a blank line behind them. -/
def linesWire (texts : List Bytes) : Bytes := (texts.map (· ++ crlf)).flatten
def trailerWire (texts : List Bytes) : Bytes := linesWire texts ++ crlf

def trailerTotal (texts : List Bytes) : ℕ := (texts.map fun text => text.length + 2).sum + 2

/-- What follows the last chunk: a line the decoder takes for a size line of value
zero, and the trailers. -/
structure Ending where
  last : Bytes
  trailers : List Bytes
  parses : parseChunkSize last = .ok 0
  clean : cr ∉ last
  short : last.length + 2 ≤ maxChunkLineBytes
  trailers_ok : ∀ text ∈ trailers, TrailerOk text
  total : trailerTotal trailers ≤ maxTrailerBytes

def Ending.wire (ending : Ending) : Bytes := ending.last ++ crlf ++ trailerWire ending.trailers

section Lines
variable {text : Bytes} (hclean : cr ∉ text) (hshort : text.length + 2 ≤ maxChunkLineBytes)
include hclean hshort

theorem line_taken (wire : Wire) : Wire.line cautious (wire.prepend (text ++ crlf)) = .ok text wire := by
  have hfind : findSub crlf (wire.prepend (text ++ crlf)).ready = some text.length :=
    findSub_of_not_mem hclean
  have hany : cautious.any (· < text.length + crlf.length) = false :=
    decide_eq_false (by rw [crlf_length]; omega)
  have hdrop : (text ++ crlf ++ wire.ready).drop (text.length + crlf.length) = wire.ready := by
    rw [← List.length_append,List.drop_left]
  unfold Wire.line Wire.takeUntil
  rw [hfind]
  dsimp only
  rw [hany]
  simp only [Wire.prepend]
  rw [hdrop,List.append_assoc,List.take_left]
  rfl

theorem line_interrupted {pre post more : Bytes} {error : IoError} {later : List (IoError × Bytes)}
    (hline : text ++ crlf = pre ++ post) (hpost : post ≠ []) :
    Wire.line cautious ⟨pre,(error,more) :: later⟩ = .error error ⟨pre ++ more,later⟩ := by
  have hlen : pre.length + post.length = text.length + 2 := by
    have := congrArg List.length hline
    simpa using this.symm
  have hpos := List.length_pos_of_ne_nil hpost
  have hwhole : findSub crlf (pre ++ post) = some text.length := by
    rw [← hline,← List.append_nil (text ++ crlf)]
    exact findSub_of_not_mem hclean
  have hfind : findSub crlf pre = none :=
    findSub_prefix_none hwhole (by rw [crlf_length]; omega)
  have hany : cautious.any (· ≤ pre.length) = false := decide_eq_false (by omega)
  unfold Wire.line Wire.takeUntil
  dsimp only
  rw [hfind]
  dsimp only
  rw [hany]
  rfl

end Lines

theorem append_cut {first second pre post : Bytes} (h : first ++ second = pre ++ post) :
    (∃ pre', pre = first ++ pre' ∧ second = pre' ++ post) ∨ ∃ post', first = pre ++ post' ∧ post' ≠ [] := by
  rcases List.append_eq_append_iff.mp h with ⟨pre',hpre,hsecond⟩ | ⟨post',hfirst,hpost⟩
  · exact Or.inl ⟨pre',hpre,hsecond⟩
  · by_cases hnil : post' = []
    · subst hnil
      rw [List.append_nil] at hfirst
      rw [List.nil_append] at hpost
      exact Or.inl ⟨[],by rw [List.append_nil,hfirst],hpost.symm⟩
    · exact Or.inr ⟨post',hfirst,hnil⟩

theorem separator_taken (separatorDue : Bool) (wire : Wire) :
    Wire.separator separatorDue (wire.prepend (lead separatorDue)) = .ok () wire := by
  cases separatorDue with
  | false => rfl
  | true => rfl

theorem separator_interrupted {pre more : Bytes} {error : IoError} {later : List (IoError × Bytes)}
    (hlen : pre.length < 2) :
    Wire.separator true ⟨pre,(error,more) :: later⟩ = .error error ⟨more,later⟩ := by
  have hexact : Wire.exact 2 ⟨pre,(error,more) :: later⟩ = .error error ⟨more,later⟩ := by
    unfold Wire.exact
    dsimp only
    rw [if_neg (by omega)]
  simp only [Wire.separator,if_true,bind,EStateM.bind,hexact]

theorem separator_refused {bytes : Bytes} {wire : Wire} (hlen : bytes.length = 2) (hne : bytes ≠ crlf) :
    Wire.separator true (wire.prepend bytes) =
      .error ⟨.invalidData,"HTTP chunk data was not followed by CRLF"⟩ wire := by
  have hexact : Wire.exact 2 (wire.prepend bytes) = .ok bytes wire := by
    unfold Wire.exact
    rw [if_pos (by simp [Wire.prepend,hlen])]
    simp only [Wire.prepend]
    rw [← hlen,List.take_left,List.drop_left]
  simp only [Wire.separator,if_true,bind,EStateM.bind,hexact,checkSeparator,ne_eq,hne,not_false_eq_true]
  rfl

theorem trailerTotal_cons (text : Bytes) (rest : List Bytes) :
    trailerTotal (text :: rest) = text.length + 2 + trailerTotal rest := by
  simp only [trailerTotal,List.map_cons,List.sum_cons]
  omega

theorem checkTrailer_blank {total : ℕ} (h : total + 2 ≤ maxTrailerBytes) :
    checkTrailer total [] = .ok (.inl ()) := by
  unfold checkTrailer
  rw [if_neg (by simp only [List.length_nil]; omega),if_pos rfl]

theorem checkTrailer_text {total : ℕ} {text : Bytes} (hok : TrailerOk text)
    (h : total + (text.length + 2) ≤ maxTrailerBytes) :
    checkTrailer total text = .ok (.inr (total + (text.length + 2))) := by
  unfold checkTrailer
  rw [if_neg (by omega),if_neg hok.1,if_neg (by simpa using hok.2.1)]

theorem trailerWire_cons (text : Bytes) (rest : List Bytes) :
    trailerWire (text :: rest) = text ++ crlf ++ trailerWire rest := by
  simp only [trailerWire,linesWire,List.map_cons,List.flatten_cons,List.append_assoc]

theorem trailerWire_append (gone rest : List Bytes) :
    trailerWire (gone ++ rest) = linesWire gone ++ trailerWire rest := by
  simp only [trailerWire,linesWire,List.map_append,List.flatten_append,List.append_assoc]

theorem trailers_taken {texts : List Bytes} (hok : ∀ text ∈ texts, TrailerOk text) {total : ℕ}
    (htotal : total + trailerTotal texts ≤ maxTrailerBytes) (wire : Wire) :
    loopM (Wire.trailersBody cautious) _ (Wire.trailers_lowers cautious) total
      (wire.prepend (trailerWire texts)) = .ok () wire := by
  induction texts generalizing total with
  | nil =>
    have hline : Wire.line cautious (wire.prepend crlf) = .ok [] wire :=
      line_taken List.not_mem_nil (by decide) wire
    have hnil : trailerWire [] = crlf := rfl
    apply loopM_of_stop
    simp only [Wire.trailersBody,bind,EStateM.bind,hnil,hline,checkTrailer_blank htotal]
    rfl
  | cons text rest ih =>
    have htext := hok text List.mem_cons_self
    rw [trailerTotal_cons] at htotal
    have hline := line_taken htext.2.2.1 htext.2.2.2 (wire.prepend (trailerWire rest))
    rw [Wire.prepend_prepend] at hline
    have hcheck := checkTrailer_text htext (show total + (text.length + 2) ≤ maxTrailerBytes by omega)
    have hbody : Wire.trailersBody cautious total (wire.prepend (trailerWire (text :: rest))) =
        .ok (.inr (total + (text.length + 2))) (wire.prepend (trailerWire rest)) := by
      simp only [Wire.trailersBody,bind,EStateM.bind,trailerWire_cons,hline,hcheck]
      rfl
    rw [loopM_of_next _ hbody]
    exact ih (fun t ht => hok t (List.mem_cons_of_mem _ ht)) (by omega)

theorem trailers_interrupted {texts : List Bytes} (hok : ∀ text ∈ texts, TrailerOk text) {total : ℕ}
    (htotal : total + trailerTotal texts ≤ maxTrailerBytes)
    {pre post more : Bytes} {error : IoError} {later : List (IoError × Bytes)}
    (hwire : trailerWire texts = pre ++ post) (hpost : post ≠ []) :
    ∃ gone rest pre', texts = gone ++ rest ∧ pre = linesWire gone ++ pre' ∧
      pre'.length < (rest.headD []).length + 2 ∧
      loopM (Wire.trailersBody cautious) _ (Wire.trailers_lowers cautious) total
        ⟨pre,(error,more) :: later⟩ = .error error ⟨pre' ++ more,later⟩ := by
  induction texts generalizing total pre with
  | nil =>
    refine ⟨[],[],pre,rfl,rfl,?_,?_⟩
    · have hlen := congrArg List.length hwire
      have hpos := List.length_pos_of_ne_nil hpost
      simp only [trailerWire,linesWire,List.map_nil,List.flatten_nil,List.nil_append,List.length_append,
        crlf_length] at hlen
      simp only [List.headD_nil,List.length_nil]
      omega
    · have hline : Wire.line cautious ⟨pre,(error,more) :: later⟩ = .error error ⟨pre ++ more,later⟩ :=
        line_interrupted List.not_mem_nil (by decide) hwire hpost
      apply loopM_of_error
      simp only [Wire.trailersBody,bind,EStateM.bind,hline]
  | cons text rest ih =>
    have htext := hok text List.mem_cons_self
    rw [trailerTotal_cons] at htotal
    rw [trailerWire_cons] at hwire
    rcases append_cut hwire with ⟨pre₁,rfl,hrest⟩ | ⟨post₁,hcut,hpost₁⟩
    · have hline : Wire.line cautious ⟨text ++ crlf ++ pre₁,(error,more) :: later⟩ =
          .ok text ⟨pre₁,(error,more) :: later⟩ :=
        line_taken htext.2.2.1 htext.2.2.2 ⟨pre₁,(error,more) :: later⟩
      have hcheck := checkTrailer_text htext (show total + (text.length + 2) ≤ maxTrailerBytes by omega)
      have hbody : Wire.trailersBody cautious total ⟨text ++ crlf ++ pre₁,(error,more) :: later⟩ =
          .ok (.inr (total + (text.length + 2))) ⟨pre₁,(error,more) :: later⟩ := by
        simp only [Wire.trailersBody,bind,EStateM.bind,hline,hcheck]
        rfl
      obtain ⟨gone,rest',pre',htexts,hpre,hlt,hresult⟩ :=
        ih (fun t ht => hok t (List.mem_cons_of_mem _ ht))
          (show total + (text.length + 2) + trailerTotal rest ≤ maxTrailerBytes by omega) hrest
      refine ⟨text :: gone,rest',pre',by rw [htexts,List.cons_append],?_,hlt,?_⟩
      · rw [hpre]
        simp only [linesWire,List.map_cons,List.flatten_cons,List.append_assoc]
      · rw [loopM_of_next _ hbody]
        exact hresult
    · refine ⟨[],text :: rest,pre,rfl,rfl,?_,?_⟩
      · have hlen := congrArg List.length hcut
        have hpos := List.length_pos_of_ne_nil hpost₁
        simp only [List.length_append,crlf_length] at hlen
        simp only [List.headD_cons]
        omega
      · have hline : Wire.line cautious ⟨pre,(error,more) :: later⟩ = .error error ⟨pre ++ more,later⟩ :=
          line_interrupted htext.2.2.1 htext.2.2.2 hcut hpost₁
        apply loopM_of_error
        simp only [Wire.trailersBody,bind,EStateM.bind,hline]

section NextChunk
variable {line : Bytes} (hclean : cr ∉ line) (hshort : line.length + 2 ≤ maxChunkLineBytes)
include hclean hshort

theorem nextChunk_line (separatorDue : Bool) (wire : Wire) :
    Wire.nextChunk cautious separatorDue (wire.prepend (lead separatorDue ++ (line ++ crlf))) =
      Wire.announced cautious line wire := by
  have hseparator := separator_taken separatorDue (wire.prepend (line ++ crlf))
  rw [Wire.prepend_prepend] at hseparator
  simp only [Wire.nextChunk,bind,EStateM.bind,hseparator,line_taken hclean hshort]

theorem nextChunk_chunk {size : ℕ} (hparse : parseChunkSize line = .ok size) (hsize : size ≠ 0)
    (separatorDue : Bool) (wire : Wire) :
    Wire.nextChunk cautious separatorDue (wire.prepend (lead separatorDue ++ (line ++ crlf))) =
      .ok size wire := by
  rw [nextChunk_line hclean hshort,Wire.announced,hparse]
  simp only [bind,EStateM.bind,ofExcept,pure,EStateM.pure,hsize,if_false]

theorem nextChunk_malformed {error : IoError} (hparse : parseChunkSize line = .error error)
    (separatorDue : Bool) (wire : Wire) :
    Wire.nextChunk cautious separatorDue (wire.prepend (lead separatorDue ++ (line ++ crlf))) =
      .error error wire := by
  rw [nextChunk_line hclean hshort,Wire.announced,hparse]
  rfl

/-- A size line that has not come in is kept, but the separator before it is lost. -/
theorem nextChunk_line_interrupted {pre post more : Bytes} {error : IoError}
    {later : List (IoError × Bytes)} (hcut : line ++ crlf = pre ++ post) (hpost : post ≠ [])
    (separatorDue : Bool) :
    Wire.nextChunk cautious separatorDue ⟨lead separatorDue ++ pre,(error,more) :: later⟩ =
      .error error ⟨pre ++ more,later⟩ := by
  have hseparator := separator_taken separatorDue ⟨pre,(error,more) :: later⟩
  simp only [Wire.prepend] at hseparator
  simp only [Wire.nextChunk,bind,EStateM.bind,hseparator,line_interrupted hclean hshort hcut hpost]

end NextChunk

theorem nextChunk_separator_interrupted {pre more : Bytes} {error : IoError}
    {later : List (IoError × Bytes)} (hlen : pre.length < 2) :
    Wire.nextChunk cautious true ⟨pre,(error,more) :: later⟩ = .error error ⟨more,later⟩ := by
  simp only [Wire.nextChunk,bind,EStateM.bind,separator_interrupted hlen]

theorem nextChunk_refused {bytes : Bytes} {wire : Wire} (hlen : bytes.length = 2) (hne : bytes ≠ crlf) :
    Wire.nextChunk cautious true (wire.prepend bytes) =
      .error ⟨.invalidData,"HTTP chunk data was not followed by CRLF"⟩ wire := by
  simp only [Wire.nextChunk,bind,EStateM.bind,separator_refused hlen hne]

theorem nextChunk_ending (ending : Ending) (separatorDue : Bool) (wire : Wire) :
    Wire.nextChunk cautious separatorDue (wire.prepend (lead separatorDue ++ ending.wire)) = .ok 0 wire := by
  have htrailers : Wire.trailers cautious (wire.prepend (trailerWire ending.trailers)) = .ok () wire :=
    trailers_taken ending.trailers_ok (by rw [Nat.zero_add]; exact ending.total) wire
  have hsplit : wire.prepend (lead separatorDue ++ ending.wire) =
      (wire.prepend (trailerWire ending.trailers)).prepend (lead separatorDue ++ (ending.last ++ crlf)) := by
    rw [Wire.prepend_prepend,Ending.wire,List.append_assoc (lead separatorDue)]
  rw [hsplit,nextChunk_line ending.clean ending.short,Wire.announced,ending.parses]
  simp only [bind,EStateM.bind,ofExcept,pure,EStateM.pure,if_true,htrailers]

/-- Trailers that have not come in: the size line of value zero is gone with the lines
before the one that is missing. -/
theorem nextChunk_trailers_interrupted (ending : Ending) {pre post : Bytes}
    (hcut : trailerWire ending.trailers = pre ++ post) (hpost : post ≠ []) (separatorDue : Bool)
    (error : IoError) (more : Bytes) (later : List (IoError × Bytes)) :
    ∃ gone rest pre', ending.trailers = gone ++ rest ∧ pre = linesWire gone ++ pre' ∧
      pre'.length < (rest.headD []).length + 2 ∧
      Wire.nextChunk cautious separatorDue
        ⟨lead separatorDue ++ (ending.last ++ crlf) ++ pre,(error,more) :: later⟩ =
          .error error ⟨pre' ++ more,later⟩ := by
  obtain ⟨gone,rest,pre',htexts,hpre,hlt,hresult⟩ :=
    trailers_interrupted ending.trailers_ok (by rw [Nat.zero_add]; exact ending.total) hcut hpost
  refine ⟨gone,rest,pre',htexts,hpre,hlt,?_⟩
  have htrailers : Wire.trailers cautious ⟨pre,(error,more) :: later⟩ = .error error ⟨pre' ++ more,later⟩ :=
    hresult
  have hnext := nextChunk_line ending.clean ending.short separatorDue ⟨pre,(error,more) :: later⟩
  rw [Wire.announced,ending.parses] at hnext
  simp only [bind,EStateM.bind,ofExcept,pure,EStateM.pure,if_true,htrailers] at hnext
  exact hnext

end H12Tiny.Sync
