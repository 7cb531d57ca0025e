import H12Tiny.Sync.Client
import H12Tiny.Sync.Lengths

/-! # A blocking request and its server

The blocking client against a server that reads a request by the grammar and answers it with
interim heads, a final head and a body in the framing that the head announces. The server is
an arbitrary function from requests to replies, and the bytes of a reply may arrive in any
segments. What the caller gets is the reply to the request as it was normalized, and reading
the body to its end gives the data.
-/
namespace H12Tiny.Sync
variable {Name Value : Type} [DecidableEq Name] {http : HeaderTypes Name Value}

/-- A body in its framing. -/
inductive Content
  | empty
  | length (data : Bytes)
  | chunked (message : Chunked) (within : message.WithinLimits)
  | closing (data : Bytes)

namespace Content

def wire : Content → Bytes
  | empty => []
  | length data => data
  | chunked message _ => message.wire
  | closing data => data

def data : Content → Bytes
  | empty => []
  | length data => data
  | chunked message _ => message.data
  | closing data => data

def mode : Content → BodyMode
  | empty => .empty
  | length data => .contentLength data.length
  | chunked _ _ => .chunked ⟨0,false,false⟩
  | closing _ => .eof

/-- A body that is read to its end gives the data of the framing it came in. -/
theorem delivered (content : Content) {body : ResponseBody} (hmode : body.mode = content.mode)
    (hwire : body.wire = ⟨content.wire,[]⟩) {sizes : ℕ → ℕ} (hsizes : ∀ k, 0 < sizes k) :
    (readAll false sizes body).bytes = content.data ∧ (readAll false sizes body).ending = .ok () := by
  obtain ⟨inbound,mode⟩ := body
  dsimp only at hmode
  subst hmode
  have hcalls := readAll_calls false sizes ⟨inbound,content.mode⟩
  generalize readAll false sizes ⟨inbound,content.mode⟩ = outcome at hcalls
  cases content with
  | empty =>
    have hread : ResponseBody.read (sizes 0) ⟨inbound,.empty⟩ = .ok [] ⟨inbound,.empty⟩ := read_complete rfl _
    cases hcalls with
    | ended _ => exact ⟨rfl,rfl⟩
    | failed h _ => cases hread.symm.trans h
    | more h hne _ =>
      cases hread.symm.trans h
      exact absurd rfl hne
    | retried _ hretry _ => cases hretry
  | length data =>
    obtain ⟨hbytes,hending⟩ := hcalls.delivers_fixed hsizes rfl hwire
    exact ⟨hbytes.trans List.take_length,hending.trans (if_pos (Nat.le_refl _))⟩
  | chunked message within =>
    have hgood : Good (.start message.chunks (message.ending within)) inbound.wire [] := by
      have hwire' : inbound.wire = ⟨message.wire,[]⟩ := hwire
      apply message.good
      · rw [hwire']
        rfl
      · rw [hwire']
        exact List.forall_mem_nil _
      · rw [hwire']
        exact List.forall_mem_nil _
    obtain ⟨hbytes,hending,_⟩ := hcalls.of_good hsizes rfl hgood (.inr (congrArg Wire.later hwire))
    exact ⟨hbytes,hending⟩
  | closing data => exact hcalls.delivers_eof hsizes rfl hwire

end Content

/-- Interim heads, a final head and a body, each head within the limit. -/
structure Reply (http : HeaderTypes Name Value) where
  interim : List (SentHead http)
  final : SentHead http
  content : Content
  interim_status : ∀ sent ∈ interim, sent.status.isInformational = true ∧ sent.status ≠ .switchingProtocols
  final_status : 200 ≤ final.status.code
  short : ∀ sent ∈ interim ++ [final], sent.bytes.length ≤ maxResponseHeadBytes

namespace Reply

def bytes (reply : Reply http) : Bytes :=
  reply.interim.flatMap SentHead.bytes ++ (reply.final.bytes ++ reply.content.wire)

/-- The reply has no body, whatever its fields. -/
def Bodiless (reply : Reply http) (headRequest : Bool) : Prop :=
  headRequest = true ∨ reply.final.status = .noContent ∨ reply.final.status = .notModified

/-- The fields of the final head announce the framing of the body, where there can be one. -/
def Announces (reply : Reply http) (headRequest : Bool) : Prop :=
  (reply.Bodiless headRequest → reply.content.mode = .empty) ∧
    (¬ reply.Bodiless headRequest → Announced http reply.final.toHead.headers reply.content.mode)

theorem Announces.mode {reply : Reply http} {headRequest : Bool} (h : reply.Announces headRequest) :
    responseBodyMode http reply.final.toHead.headers reply.final.status headRequest = .ok reply.content.mode := by
  have hinfo : reply.final.status.isInformational = false :=
    decide_eq_false (Nat.not_lt.mpr reply.final_status)
  by_cases hbodiless : reply.Bodiless headRequest
  · have hguard : headRequest = true ∨ reply.final.status.isInformational = true ∨
        reply.final.status = .noContent ∨ reply.final.status = .notModified := by
      rcases hbodiless with h | h
      · exact .inl h
      · exact .inr (.inr h)
    rw [responseBodyMode,if_pos hguard,h.1 hbodiless]
  · have hannounced := h.2 hbodiless
    simp only [Bodiless,not_or,Bool.not_eq_true] at hbodiless
    obtain ⟨rfl,hno,hnot⟩ := hbodiless
    exact hannounced.accepted http _ hinfo hno hnot

/-- The reply is read, however it arrives: the final head, and behind it the body. -/
theorem read (hlaw : http.Lawful) (reply : Reply http) {headRequest : Bool} (hmode : reply.Announces headRequest)
    (connection : Connection) (hwire : Connection.wire connection.script = ⟨reply.bytes,[]⟩) :
    ∃ response, readResponse http headRequest connection = .ok response ∧
      response.toHead = reply.final.toHead ∧ response.body.mode = reply.content.mode ∧
      response.body.wire = ⟨reply.content.wire,[]⟩ := by
  have hstart : Inbound.wire ⟨connection,[]⟩ = ⟨reply.bytes,[]⟩ := hwire
  obtain ⟨inbound,hinbound,hskip⟩ := responseLoop_skips hlaw headRequest
    (fun sent hsent => (reply.interim_status sent hsent).1)
    (fun sent hsent => reply.short sent (List.mem_append_left _ hsent)) hstart
    (fun sent hsent => (reply.interim_status sent hsent).2)
  obtain ⟨inbound',hwire',hstop⟩ := responseLoop_final hlaw headRequest reply.final_status hmode.mode
    (reply.short reply.final (List.mem_append_right _ List.mem_cons_self)) hinbound
  exact ⟨_,readResponse_ok http (hskip.trans hstop),rfl,rfl,hwire'⟩

end Reply

/-- The socket takes every write, and behind a request it has the reply of the server. -/
def Serves (server : RequestGrammar.Message → Reply http) (socket : Socket) : Prop :=
  socket.faults = [] ∧ ∀ text message, RequestGrammar.parseRequest text = some (message,[]) →
    Connection.wire (socket.answers text) = ⟨(server message).bytes,[]⟩

/-- The request is accepted by the client, and the dial is the one for its origin. -/
structure Dials (tls : Bool) (request : Normalize.Request Bytes) (uri : Uri) (dial : Dialling.Dial) : Prop where
  version : request.version = .http10 ∨ request.version = .http11
  origin : ∃ origin, Normalize.extractOrigin request.uri (request.method = .connect) = some (.ok origin,uri) ∧
    Dialling.connect tls origin = some (.ok dial)

section Request
variable {A T : Type} {client : Client} {network : Network A T} {tls : Bool} {request : Normalize.Request Bytes}
  {timeout : Option ℕ} {uri : Uri} {dial : Dialling.Dial}

theorem requestWithTimeout_eq (http : HeaderTypes Name Value) (htimeout : timeout ≠ some 0)
    (hdials : Dials tls request uri dial) {normalized : Normalize.Request Bytes}
    (hnormal : Normalize.normalizeHttp1Request { request with uri } client.setHost = some normalized) :
    client.requestWithTimeout network http tls request timeout =
      some (client.exchange network http dial timeout normalized) := by
  obtain ⟨origin,hextract,hconnect⟩ := hdials.origin
  have hversion : ¬ (request.version ≠ .http10 ∧ request.version ≠ .http11) := fun h =>
    hdials.version.elim h.1 h.2
  unfold Client.requestWithTimeout
  rw [if_neg htimeout,if_neg hversion,hextract]
  simp only [Option.bind_some]
  rw [hnormal]
  simp only [Option.bind_some]
  rw [hconnect]
  rfl

/-- The exchange over a connection that takes every write ends with what the response reader
makes of the answer. -/
theorem exchange_eq (http : HeaderTypes Name Value) (htimeout : timeout ≠ some 0) {stream : Stream}
    {acts : List (Act A)} (hopen : client.establish network dial [] = .ok stream acts)
    (hfaults : stream.socket.faults = []) {response : Response Name Value}
    (hread : readResponse http (request.method = .head)
      ⟨stream.socket.answers (requestText request),timeout⟩ = .ok response) :
    client.exchange network http dial timeout request [] =
      .ok response (acts ++ (requestText request).map .write) := by
  have hwrite : writeRequest request ⟨[],stream.socket.faults⟩ = .ok () ⟨requestText request,[]⟩ :=
    (writes_writeRequest request).runs ⟨[],stream.socket.faults⟩ hfaults
  have hset := @Client.setTimeouts_ok timeout stream htimeout
  unfold Client.exchange
  simp only [bind,EStateM.bind,hopen]
  rw [hset]
  simp only [Except.mapError,ofExcept,pure,EStateM.pure,Stream.send,hwrite,hread]

theorem normalized_recovered (hdials : Dials tls request uri dial) (setHost : Bool)
    (hlength : request.headers.containsKey contentLengthName = false)
    (hcoding : request.headers.containsKey transferEncodingName = false) :
    ∃ normalized message, Normalize.normalizeHttp1Request { request with uri } setHost = some normalized ∧
      normalized.method = request.method ∧ normalized.body = request.body ∧
      RequestGrammar.parseRequest (requestText normalized) = some (message,[]) ∧ Recovers normalized message := by
  obtain ⟨origin,hextract,-⟩ := hdials.origin
  obtain ⟨hscheme,hauthority⟩ := Normalize.extractOrigin_ok hextract
  obtain ⟨value,target,-,hdisplay,hnormal⟩ :=
    Normalize.normalize_of_origin (B := Bytes) request.method (by rw [hscheme]; rfl) hauthority
  have hframing : ∀ name, name ≠ Normalize.hostName → request.headers.containsKey name = false →
      HeaderMap.containsKey (if setHost then Normalize.withHost value request.headers else request.headers) name =
        false := by
    intro name hname hnone
    rw [HeaderMap.containsKey_eq_false] at hnone ⊢
    split
    · rw [Normalize.withHost_other value request.headers hname,hnone]
    · exact hnone
  obtain ⟨htarget,hplain⟩ := Normalize.targetText_valid request.method origin.authority uri.parts
  rw [← hdisplay] at htarget hplain
  obtain ⟨message,hparse,hrecovers⟩ := requestText_recovered
    { request with
      headers := if setHost then Normalize.withHost value request.headers else request.headers
      uri := target }
    ⟨htarget,List.all_eq_true.mpr hplain⟩ (hframing contentLengthName (by decide) hlength)
    (hframing transferEncodingName (by decide) hcoding)
  exact ⟨_,message,hnormal { request with uri } setHost rfl rfl,rfl,rfl,hparse,hrecovers⟩

end Request

/-- One address, which answers whatever is written. -/
def sampleNetwork : Network Unit Empty where
  toSocketAddrs _ _ := .ok [()]
  connect _ _ := .ok ⟨[],fun _ => sampleConnection.script⟩
  isServerName _ := false
  newSession _ := .ok ()
  completeIo _ socket := .ok (none,socket)

def sampleReply : Reply byteHeaders where
  interim := [sampleInterim]
  final := sampleFinal
  content := .length [65]
  interim_status := List.forall_mem_singleton.mpr ⟨rfl,by decide⟩
  final_status := by decide
  short := List.forall_mem_cons.mpr ⟨by decide,List.forall_mem_singleton.mpr (by decide)⟩

end H12Tiny.Sync
