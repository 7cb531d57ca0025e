import H12Tiny.Sync.Head
import H12Tiny.Sync.View

/-! # Interim responses

The heads of a response that the server sends one behind the other. Each one is taken off
the wire with its empty line and nothing else, however the bytes arrive, so the interim
ones leave the wire as it is in front of the final head, and the final one leaves the body.
-/
namespace H12Tiny.Sync
variable {Name Value : Type} [DecidableEq Name] {http : HeaderTypes Name Value} (hlaw : http.Lawful)

section Heads
variable {headRequest : Bool} {sent : SentHead http} {inbound : Inbound} {rest : Bytes}
  {later : List (IoError × Bytes)}
include hlaw

omit [DecidableEq Name] in
theorem takeResponseHead_sent (hlen : sent.bytes.length ≤ maxResponseHeadBytes)
    (hwire : inbound.wire = ⟨sent.bytes ++ rest,later⟩) :
    ∃ inbound', takeResponseHead inbound = .ok sent.text inbound' ∧ inbound'.wire = ⟨rest,later⟩ := by
  have hlength : sent.bytes.length = sent.text.length + (crlf ++ crlf).length := by
    rw [sent.bytes_eq,List.length_append]
  have hfits : ¬ (some maxResponseHeadBytes).any (· < sent.text.length + (crlf ++ crlf).length) = true := by
    rw [Option.any_some,decide_eq_true_eq,← hlength]
    exact Nat.not_lt.mpr hlen
  have htext : (sent.bytes ++ rest).take sent.text.length = sent.text := by
    rw [sent.bytes_eq,List.append_assoc,List.take_left]
  have hrest : (sent.bytes ++ rest).drop (sent.text.length + (crlf ++ crlf).length) = rest := by
    rw [← hlength,List.drop_left]
  have htake : Wire.takeUntil (some maxResponseHeadBytes) (crlf ++ crlf) headLimit headClosed
      (Error.fromIo .response) ⟨sent.bytes ++ rest,later⟩ = .ok sent.text ⟨rest,later⟩ := by
    have hfind : findSub (crlf ++ crlf) (sent.bytes ++ rest) = _ := findHeadEnd_sent hlaw sent rest
    unfold Wire.takeUntil
    simp only [hfind,if_neg hfits,htext,hrest]
  -- even the reader that is cautious about the limit takes the head, so the code does
  have hagree := takeUntil_simulates (crlf ++ crlf) maxResponseHeadBytes headLimit headClosed
    (Error.fromIo .response) (Or.inr rfl) inbound _ hwire
  rw [htake] at hagree
  unfold takeResponseHead
  generalize takeUntil (crlf ++ crlf) maxResponseHeadBytes headLimit headClosed (Error.fromIo .response)
    inbound = result at hagree
  cases hagree with
  | ok h => exact ⟨_,rfl,h⟩
  | left h => exact absurd h.1 (Option.some_ne_none _)

/-- One iteration of `read_response`: the head is decided on, and the bytes behind it stay. -/
theorem readResponseBody_sent (headRequest : Bool) (hlen : sent.bytes.length ≤ maxResponseHeadBytes)
    (hwire : inbound.wire = ⟨sent.bytes ++ rest,later⟩) :
    ∃ inbound' : Inbound, inbound'.wire = ⟨rest,later⟩ ∧ readResponseBody http headRequest () inbound =
      (ofExcept (acceptHead http headRequest sent.text) : EStateM Error Inbound _) inbound' := by
  obtain ⟨inbound',htake,hrest⟩ := takeResponseHead_sent hlaw hlen hwire
  refine ⟨inbound',hrest,?_⟩
  simp only [readResponseBody,bind,EStateM.bind,htake]

theorem acceptHead_interim (hinterim : sent.status.isInformational = true)
    (hupgrade : sent.status ≠ .switchingProtocols) :
    acceptHead http headRequest sent.text = .ok (.inr ()) := by
  unfold acceptHead
  rw [parseResponseHead_text hlaw sent]
  exact if_pos ⟨hinterim,hupgrade⟩

theorem acceptHead_upgrade (hupgrade : sent.status = .switchingProtocols) :
    acceptHead http headRequest sent.text = .error (.new .unsupportedUpgrade) := by
  unfold acceptHead
  rw [parseResponseHead_text hlaw sent]
  exact (if_neg fun h => h.2 hupgrade).trans (if_pos hupgrade)

theorem acceptHead_final (hfinal : 200 ≤ sent.status.code) {mode : BodyMode}
    (hmode : responseBodyMode http sent.toHead.headers sent.status headRequest = .ok mode) :
    acceptHead http headRequest sent.text = .ok (.inl (sent.toHead,mode)) := by
  have hinterim : ¬ sent.status.isInformational = true := by
    rw [StatusCode.isInformational,decide_eq_true_eq]
    exact Nat.not_lt.mpr hfinal
  have hupgrade : sent.status ≠ .switchingProtocols := by
    intro h
    rw [h] at hfinal
    exact absurd hfinal (by decide)
  unfold acceptHead
  rw [parseResponseHead_text hlaw sent]
  refine (if_neg fun h => hinterim h.1).trans ((if_neg hupgrade).trans ?_)
  change (responseBodyMode http sent.toHead.headers sent.status headRequest).bind _ = _
  rw [hmode]
  rfl

end Heads

def responseLoop (http : HeaderTypes Name Value) (headRequest : Bool) :
    EStateM Error Inbound (Head Name Value × BodyMode) :=
  loopM (readResponseBody http headRequest) _ (readResponse_lowers http headRequest) ()

section Run
variable (headRequest : Bool) {rest : Bytes} {later : List (IoError × Bytes)} {inbound : Inbound}
include hlaw

theorem responseLoop_next {sent : SentHead http} (hstatus : sent.status.isInformational = true)
    (hupgrade : sent.status ≠ .switchingProtocols) (hlen : sent.bytes.length ≤ maxResponseHeadBytes)
    (hwire : inbound.wire = ⟨sent.bytes ++ rest,later⟩) :
    ∃ inbound' : Inbound, inbound'.wire = ⟨rest,later⟩ ∧
      responseLoop http headRequest inbound = responseLoop http headRequest inbound' := by
  obtain ⟨inbound',hwire',hbody⟩ := readResponseBody_sent hlaw headRequest hlen hwire
  rw [acceptHead_interim hlaw hstatus hupgrade] at hbody
  exact ⟨inbound',hwire',loopM_of_next (readResponse_lowers http headRequest) hbody⟩

theorem responseLoop_final {final : SentHead http} (hfinal : 200 ≤ final.status.code) {mode : BodyMode}
    (hmode : responseBodyMode http final.toHead.headers final.status headRequest = .ok mode)
    (hlen : final.bytes.length ≤ maxResponseHeadBytes) (hwire : inbound.wire = ⟨final.bytes ++ rest,later⟩) :
    ∃ inbound' : Inbound, inbound'.wire = ⟨rest,later⟩ ∧
      responseLoop http headRequest inbound = .ok (final.toHead,mode) inbound' := by
  obtain ⟨inbound',hwire',hbody⟩ := readResponseBody_sent hlaw headRequest hlen hwire
  rw [acceptHead_final hlaw hfinal hmode] at hbody
  exact ⟨inbound',hwire',loopM_of_stop (readResponse_lowers http headRequest) hbody⟩

theorem responseLoop_upgrade {sent : SentHead http} (hupgrade : sent.status = .switchingProtocols)
    (hlen : sent.bytes.length ≤ maxResponseHeadBytes) (hwire : inbound.wire = ⟨sent.bytes ++ rest,later⟩) :
    ∃ inbound', responseLoop http headRequest inbound = .error (.new .unsupportedUpgrade) inbound' := by
  obtain ⟨inbound',-,hbody⟩ := readResponseBody_sent hlaw headRequest hlen hwire
  rw [acceptHead_upgrade hlaw hupgrade] at hbody
  exact ⟨inbound',loopM_of_error (readResponse_lowers http headRequest) hbody⟩

section Interim
variable {interim : List (SentHead http)}
  (hinterim : ∀ sent ∈ interim, sent.status.isInformational = true)
  (hlen : ∀ sent ∈ interim, sent.bytes.length ≤ maxResponseHeadBytes)
  (hwire : inbound.wire = ⟨interim.flatMap SentHead.bytes ++ rest,later⟩)
include hinterim hlen hwire

theorem responseLoop_skips (hupgrade : ∀ sent ∈ interim, sent.status ≠ .switchingProtocols) :
    ∃ inbound' : Inbound, inbound'.wire = ⟨rest,later⟩ ∧
      responseLoop http headRequest inbound = responseLoop http headRequest inbound' := by
  induction interim generalizing inbound with
  | nil => exact ⟨inbound,hwire,rfl⟩
  | cons sent interim ih =>
    rw [List.forall_mem_cons] at hinterim hlen hupgrade
    rw [List.flatMap_cons,List.append_assoc] at hwire
    obtain ⟨inbound₁,hwire₁,hnext⟩ :=
      responseLoop_next hlaw headRequest hinterim.1 hupgrade.1 hlen.1 hwire
    obtain ⟨inbound',hwire',hloop⟩ := ih hinterim.2 hlen.2 hwire₁ hupgrade.2
    exact ⟨inbound',hwire',hnext.trans hloop⟩

theorem responseLoop_refuses (hupgrade : ∃ sent ∈ interim, sent.status = .switchingProtocols) :
    ∃ inbound', responseLoop http headRequest inbound = .error (.new .unsupportedUpgrade) inbound' := by
  induction interim generalizing inbound with
  | nil =>
    obtain ⟨sent,hsent,-⟩ := hupgrade
    cases hsent
  | cons sent interim ih =>
    rw [List.forall_mem_cons] at hinterim hlen
    rw [List.flatMap_cons,List.append_assoc] at hwire
    by_cases hhere : sent.status = .switchingProtocols
    · exact responseLoop_upgrade hlaw headRequest hhere hlen.1 hwire
    · obtain ⟨inbound₁,hwire₁,hnext⟩ := responseLoop_next hlaw headRequest hinterim.1 hhere hlen.1 hwire
      obtain ⟨switch,hmem,hswitch⟩ := hupgrade
      have hlater : switch ∈ interim := (List.mem_cons.mp hmem).resolve_left fun e => hhere (e ▸ hswitch)
      rw [hnext]
      exact ih hinterim.2 hlen.2 hwire₁ ⟨switch,hlater,hswitch⟩

end Interim
end Run

section Sent
variable (http)

theorem readResponse_ok {headRequest : Bool} {connection : Connection} {head : Head Name Value} {mode : BodyMode}
    {inbound : Inbound} (h : responseLoop http headRequest ⟨connection,[]⟩ = .ok (head,mode) inbound) :
    readResponse http headRequest connection = .ok ⟨head,⟨inbound,mode⟩⟩ := by
  rw [responseLoop] at h
  delta readResponse
  rw [h]

theorem readResponse_error {headRequest : Bool} {connection : Connection} {error : Error} {inbound : Inbound}
    (h : responseLoop http headRequest ⟨connection,[]⟩ = .error error inbound) :
    readResponse http headRequest connection = .error error := by
  rw [responseLoop] at h
  delta readResponse
  rw [h]

end Sent

/-- For interim heads and a final one with a body behind it, however the bytes arrive:
without a change of protocols the response has the final head, and the bytes that are
buffered and those still unread are the body. With one it is refused. -/
theorem readResponse_skips_interim (hlaw : http.Lawful) (headRequest : Bool) (interim : List (SentHead http))
    (final : SentHead http) (mode : BodyMode) (body : Bytes) (later : List (IoError × Bytes))
    (connection : Connection) (hinterim : ∀ sent ∈ interim, sent.status.isInformational = true)
    (hfinal : 200 ≤ final.status.code)
    (hmode : responseBodyMode http final.toHead.headers final.status headRequest = .ok mode)
    (hlen : ∀ sent ∈ interim ++ [final], sent.bytes.length ≤ maxResponseHeadBytes)
    (hwire : Connection.wire connection.script =
      ⟨interim.flatMap SentHead.bytes ++ (final.bytes ++ body),later⟩) :
    ((∀ sent ∈ interim, sent.status ≠ .switchingProtocols) →
      ∃ response, readResponse http headRequest connection = .ok response ∧ response.toHead = final.toHead ∧
        response.body.mode = mode ∧ response.body.toInbound.wire = ⟨body,later⟩) ∧
    ((∃ sent ∈ interim, sent.status = .switchingProtocols) →
      readResponse http headRequest connection = .error (.new .unsupportedUpgrade)) := by
  have hstart : Inbound.wire ⟨connection,[]⟩ =
      ⟨interim.flatMap SentHead.bytes ++ (final.bytes ++ body),later⟩ := hwire
  have hbefore : ∀ sent ∈ interim, sent.bytes.length ≤ maxResponseHeadBytes := fun sent hsent =>
    hlen sent (List.mem_append_left _ hsent)
  constructor
  · intro hupgrade
    obtain ⟨inbound,hinbound,hskip⟩ := responseLoop_skips hlaw headRequest hinterim hbefore hstart hupgrade
    obtain ⟨inbound',hwire',hstop⟩ := responseLoop_final hlaw headRequest hfinal hmode
      (hlen final (List.mem_append_right _ List.mem_cons_self)) hinbound
    exact ⟨_,readResponse_ok http (hskip.trans hstop),rfl,rfl,hwire'⟩
  · intro hupgrade
    obtain ⟨inbound',hstop⟩ := responseLoop_refuses hlaw headRequest hinterim hbefore hstart hupgrade
    exact readResponse_error http hstop

section Sample

theorem byteHeaders_lawful : byteHeaders.Lawful where
  name h := (Option.ite_none_right_eq_some.mp h).1
  value h := (Option.ite_none_right_eq_some.mp h).1

/-- `100 Continue`. -/
def sampleInterim : SentHead byteHeaders where
  status := ⟨100,by decide⟩
  version := .http11
  reason := [67,111,110,116,105,110,117,101]
  fields := []
  utf8 := by decide
  oneLine := by decide

/-- `404` with a reason that is not ASCII and a length of one. -/
def sampleFinal : SentHead byteHeaders where
  status := .notFound
  version := .http10
  reason := [195,164]
  fields := [⟨(byteHeaders.contentLength,[49]),(byteHeaders.contentLength,[49]),rfl,rfl,rfl⟩]
  utf8 := by decide
  oneLine := by decide

/-- The heads and the body in two segments, the first of which ends in an empty line. -/
def sampleConnection : Connection :=
  ⟨Event.segment ((sampleInterim.bytes ++ (sampleFinal.bytes ++ [65])).take 24) ++
    Event.segment ((sampleInterim.bytes ++ (sampleFinal.bytes ++ [65])).drop 24),none⟩

theorem readResponse_skips_interim_continue :
    responseBodyMode byteHeaders sampleFinal.toHead.headers sampleFinal.status false = .ok (.contentLength 1) ∧
    ∃ response, readResponse byteHeaders false sampleConnection = .ok response ∧
      response.toHead = sampleFinal.toHead ∧ response.body.mode = .contentLength 1 ∧
      response.body.toInbound.wire = ⟨[65],[]⟩ := by
  have hmode : responseBodyMode byteHeaders sampleFinal.toHead.headers sampleFinal.status false =
      .ok (.contentLength 1) := rfl
  have hlen : ∀ sent ∈ [sampleInterim] ++ [sampleFinal], sent.bytes.length ≤ maxResponseHeadBytes :=
    List.forall_mem_cons.mpr ⟨by decide,List.forall_mem_singleton.mpr (by decide)⟩
  have hskips := readResponse_skips_interim byteHeaders_lawful false [sampleInterim] sampleFinal
    (.contentLength 1) [65] [] sampleConnection (List.forall_mem_singleton.mpr rfl) (by decide) hmode hlen rfl
  exact ⟨hmode,hskips.1 (List.forall_mem_singleton.mpr (by decide))⟩

end Sample
end H12Tiny.Sync
