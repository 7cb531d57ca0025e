import H12Tiny.Client.Request
import H12Tiny.Normalize.Request

/-! # What a retried request sends

`send_request` gives one request to connection after connection, as long as each of them
returns it undispatched. An HTTP/1 connection gets the normalized form, which is written
into the request itself; only the URI is put back before the next attempt. A synthesized
host therefore stays, which the next HTTP/1 connection cannot tell but an HTTP/2 one can.
-/
namespace H12Tiny.Client
open Normalize (Origin Version hostName withHost)

variable {B : Type}

def isConnect (request : Normalize.Request B) : Bool := request.method = .connect

def extractPoolKey (request : Normalize.Request B) :
    Option (Except ErrorKind (Normalize.Request B × Origin)) :=
  (Normalize.extractOrigin request.uri (isConnect request)).map fun result =>
    match result.1 with
    | .ok origin => .ok ({ request with uri := result.2 },origin)
    | .error _ => .error .absoluteUriRequired

def accept (request : Normalize.Request B) : Option (Except ErrorKind (Normalize.Request B × Origin)) :=
  match request.version with
  | .http11 => extractPoolKey request
  | .http2 => extractPoolKey request
  | .http10 => if isConnect request then some (.error .unsupportedMethod) else extractPoolKey request
  | _ => some (.error .unsupportedVersion)

inductive Stop
  | final (kind : ErrorKind)
  | panic
  deriving DecidableEq

def prepare (setHost : Bool) (request : Normalize.Request B) (protocol : ConnectionProtocol) :
    Except Stop (Normalize.Request B) :=
  match protocol with
  | .http1 =>
    if request.version = .http2 then .error (.final .unsupportedVersion)
    else
      match Normalize.normalizeHttp1Request request setHost with
      | some message => .ok message
      | none => .error .panic
  | .http2 => .ok request

/-- The messages of `send_request` for connections that all return them undispatched. -/
def messages (setHost : Bool) (absoluteUri : Uri) (request : Normalize.Request B) :
    List ConnectionProtocol → List (Except Stop (Normalize.Request B))
  | [] => []
  | protocol :: later =>
    match prepare setHost request protocol with
    | .error stop => [.error stop]
    | .ok message => .ok message :: messages setHost absoluteUri { message with uri := absoluteUri } later

theorem accept_ok {request accepted : Normalize.Request B} {origin : Origin}
    (h : accept request = some (.ok (accepted,origin))) :
    accepted.uri.scheme = some origin.scheme ∧ accepted.uri.authority = some origin.authority := by
  have hkey : extractPoolKey request = some (.ok (accepted,origin)) := by
    unfold accept at h
    split at h
    · exact h
    · exact h
    · split at h
      · cases h
      · exact h
    · cases h
  obtain ⟨result,hextract,hresult⟩ := Option.map_eq_some_iff.mp hkey
  obtain ⟨located,uri⟩ := result
  cases located with
  | error error => cases hresult
  | ok found =>
    cases hresult
    exact Normalize.extractOrigin_ok hextract

section Attempts
variable {setHost : Bool} {uri : Uri} {request : Normalize.Request B}

theorem messages_unchanged (hkeep : ∀ protocol message, prepare setHost request protocol = .ok message →
      { message with uri } = request) (protocols : List ConnectionProtocol) :
    messages setHost uri request protocols <+: protocols.map (prepare setHost request) := by
  induction protocols with
  | nil => exact List.prefix_rfl
  | cons protocol later ih =>
    rw [messages,List.map_cons]
    cases hprepare : prepare setHost request protocol with
    | error stop => exact ⟨_,rfl⟩
    | ok message =>
      simp only [hkeep protocol message hprepare]
      exact (List.prefix_cons_inj _).mpr ih

/-- After an attempt over HTTP/1 the request is `kept`: its next message over HTTP/1 is the
same again, the one over HTTP/2 is not. -/
theorem messages_kept {kept : Normalize.Request B} {target : Uri} (hne : kept ≠ request)
    (huri : { kept with uri } = kept)
    (hkept : prepare setHost kept .http1 = .ok { kept with uri := target })
    (hfirst : prepare setHost request .http1 = .ok { kept with uri := target })
    (protocols : List ConnectionProtocol) :
    messages setHost uri kept protocols <+: protocols.map (prepare setHost request) ↔
      .http2 ∉ protocols := by
  induction protocols with
  | nil => simp [messages]
  | cons protocol later ih =>
    cases protocol with
    | http1 =>
      rw [messages,hkept,List.map_cons,hfirst]
      simp only
      rw [List.prefix_cons_inj,huri,ih]
      simp
    | http2 =>
      refine iff_of_false (fun hprefix => hne ?_) (fun h => h List.mem_cons_self)
      rw [messages,List.map_cons] at hprefix
      exact Except.ok.inj (List.cons_prefix_cons.mp hprefix).1

def Mixes (protocols : List ConnectionProtocol) : Prop :=
  ∃ before after, protocols = before ++ .http1 :: after ∧ .http2 ∈ after

theorem mixes_http1 (later : List ConnectionProtocol) : Mixes (.http1 :: later) ↔ .http2 ∈ later := by
  constructor
  · rintro ⟨before,after,hsplit,hmem⟩
    cases before with
    | nil =>
      cases hsplit
      exact hmem
    | cons protocol before =>
      cases hsplit
      exact List.mem_append_right _ (List.mem_cons_of_mem _ hmem)
  · exact fun hmem => ⟨[],later,rfl,hmem⟩

theorem mixes_http2 (later : List ConnectionProtocol) : Mixes (.http2 :: later) ↔ Mixes later := by
  constructor
  · rintro ⟨before,after,hsplit,hmem⟩
    cases before with
    | nil => cases hsplit
    | cons protocol before =>
      cases hsplit
      exact ⟨before,after,rfl,hmem⟩
  · rintro ⟨before,after,rfl,hmem⟩
    exact ⟨.http2 :: before,after,rfl,hmem⟩

theorem messages_mixed {kept : Normalize.Request B} {target : Uri} (hne : kept ≠ request)
    (hrequest : { request with uri } = request) (huri : { kept with uri } = kept)
    (hkept : prepare setHost kept .http1 = .ok { kept with uri := target })
    (hfirst : prepare setHost request .http1 = .ok { kept with uri := target })
    (protocols : List ConnectionProtocol) :
    messages setHost uri request protocols <+: protocols.map (prepare setHost request) ↔
      ¬ Mixes protocols := by
  induction protocols with
  | nil =>
    refine iff_of_true List.prefix_rfl ?_
    rintro ⟨before,after,hsplit,-⟩
    exact absurd hsplit (by simp)
  | cons protocol later ih =>
    rw [messages,List.map_cons]
    cases protocol with
    | http1 =>
      rw [hfirst,mixes_http1,← messages_kept hne huri hkept hfirst later]
      simp only
      rw [List.prefix_cons_inj,huri]
    | http2 =>
      rw [mixes_http2,← ih]
      simp only [prepare]
      rw [List.prefix_cons_inj,hrequest]

end Attempts

/-- An attempt over HTTP/1 adds this host, if one is to be added, and has this target. -/
def Normalizes (accepted : Normalize.Request B) (value : HeaderValue) (target : Uri) : Prop :=
  ∀ (kept : Normalize.Request B) (setHost : Bool), kept.uri = accepted.uri → kept.method = accepted.method →
    Normalize.normalizeHttp1Request kept setHost = some { kept with
      headers := if setHost then withHost value kept.headers else kept.headers
      uri := target }

section Accepted
variable {accepted : Normalize.Request B} {value : HeaderValue} {target : Uri}

theorem messages_version (setHost : Bool) (hversion : accepted.version = .http2) (protocols : List ConnectionProtocol) :
    messages setHost accepted.uri accepted protocols <+: protocols.map (prepare setHost accepted) := by
  apply messages_unchanged
  intro protocol message hprepare
  cases protocol with
  | http1 =>
    rw [prepare,if_pos hversion] at hprepare
    cases hprepare
  | http2 =>
    cases hprepare
    rfl

variable (hnormal : Normalizes accepted value target) (hversion : accepted.version ≠ .http2)
include hnormal hversion

theorem prepare_http1 (setHost : Bool) {kept : Normalize.Request B} (huri : kept.uri = accepted.uri)
    (hmethod : kept.method = accepted.method) (hkept : kept.version = accepted.version) :
    prepare setHost kept .http1 = .ok { kept with
      headers := if setHost then withHost value kept.headers else kept.headers
      uri := target } := by
  rw [prepare,if_neg (hkept ▸ hversion),hnormal kept setHost huri hmethod]

/-- A synthesized host is in every later message, which shows on HTTP/2 only. -/
theorem messages_synthesized (hmissing : accepted.headers.containsKey hostName = false)
    (protocols : List ConnectionProtocol) :
    messages true accepted.uri accepted protocols <+: protocols.map (prepare true accepted) ↔
      ¬ Mixes protocols := by
  -- the request as it is after an attempt over HTTP/1
  have hkey := Normalize.withHost_containsKey value accepted.headers
  have hsame : withHost value (withHost value accepted.headers) = withHost value accepted.headers := if_pos hkey
  have hkept := @prepare_http1 B accepted value target hnormal hversion true
    { accepted with headers := withHost value accepted.headers } rfl rfl rfl
  simp only [if_true,hsame] at hkept
  have hne : { accepted with headers := withHost value accepted.headers } ≠ accepted := by
    intro heq
    have hheaders := congrArg (fun request => request.headers.containsKey hostName) heq
    simp only [hkey,hmissing] at hheaders
    cases hheaders
  exact @messages_mixed B true accepted.uri accepted _ target hne rfl rfl hkept
    (prepare_http1 hnormal hversion true rfl rfl rfl) protocols

theorem messages_hosted {setHost : Bool} (hhost : ¬ (setHost = true ∧ accepted.headers.containsKey hostName = false))
    (protocols : List ConnectionProtocol) :
    messages setHost accepted.uri accepted protocols <+: protocols.map (prepare setHost accepted) := by
  have hheaders : (if setHost then withHost value accepted.headers else accepted.headers) =
      accepted.headers := by
    split
    next hset => exact if_pos (Bool.not_eq_false _ ▸ fun hmissing => hhost ⟨hset,hmissing⟩)
    next => rfl
  apply messages_unchanged
  intro protocol message hmessage
  cases protocol with
  | http2 =>
    cases hmessage
    rfl
  | http1 =>
    rw [prepare_http1 hnormal hversion setHost rfl rfl rfl,hheaders] at hmessage
    cases hmessage
    rfl

end Accepted

/-- Every attempt of an accepted request hands over the message that a first attempt on the same
connection would have, exactly if no host is synthesized for an HTTP/1 connection before an
HTTP/2 connection gets the request. -/
theorem retried_as_first_iff {request accepted : Normalize.Request B} {origin : Origin}
    (haccept : accept request = some (.ok (accepted,origin))) (setHost : Bool)
    (protocols : List ConnectionProtocol) :
    messages setHost accepted.uri accepted protocols <+: protocols.map (prepare setHost accepted) ↔
      ¬ (setHost = true ∧ accepted.headers.containsKey hostName = false ∧ accepted.version ≠ .http2 ∧
        Mixes protocols) := by
  obtain ⟨hscheme,hauthority⟩ := accept_ok haccept
  obtain ⟨value,target,-,-,hnormal⟩ :=
    Normalize.normalize_of_origin (B := B) accepted.method (by rw [hscheme]; rfl) hauthority
  by_cases hversion : accepted.version = .http2
  · exact iff_of_true (messages_version setHost hversion protocols) fun h => h.2.2.1 hversion
  by_cases hhost : setHost = true ∧ accepted.headers.containsKey hostName = false
  · obtain ⟨rfl,hmissing⟩ := hhost
    rw [messages_synthesized hnormal hversion hmissing protocols]
    simp [hmissing,hversion]
  · exact iff_of_true (messages_hosted hnormal hversion hhost protocols) fun h => hhost ⟨h.1,h.2.1⟩

section Sample

/-- A `GET` request for `http://a/`. -/
def sampleRequest : Normalize.Request Unit := ⟨.get,.sample,.http11,[],()⟩

def sampleOrigin : Origin := ⟨.http,Uri.sampleAuthority⟩

theorem retried_as_first_iff_sample :
    accept sampleRequest = some (.ok (sampleRequest,sampleOrigin)) ∧
    (messages true sampleRequest.uri sampleRequest [.http1,.http1] <+:
        [.http1,.http1].map (prepare true sampleRequest) ↔
      ¬ (true = true ∧ sampleRequest.headers.containsKey hostName = false ∧ sampleRequest.version ≠ .http2 ∧
        Mixes [.http1,.http1])) :=
  ⟨rfl,@retried_as_first_iff Unit sampleRequest sampleRequest sampleOrigin rfl true [.http1,.http1]⟩

/-- The second connection gets a host that a first attempt would not have sent to it. -/
theorem synthesized_host_leaks :
    accept sampleRequest = some (.ok (sampleRequest,sampleOrigin)) ∧
    ¬ messages true sampleRequest.uri sampleRequest [.http1,.http2] <+:
        [.http1,.http2].map (prepare true sampleRequest) := by
  refine ⟨rfl,?_⟩
  decide

end Sample

end H12Tiny.Client
