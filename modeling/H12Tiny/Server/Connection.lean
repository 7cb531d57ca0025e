import H12Tiny.Foundation.Transitions
import H12Tiny.Server.Detect

/-! # A connection of the automatic server

`serve_connection` and `serve_tls_connection` with the future they return. It detects the
protocol unless the builder or the handshake has fixed it, gives the rewound transport to
the connection of the selected protocol, and from then on polls that. Hyper's connections
are a parameter: a poll makes some reads on the transport it owns, and its answer and its
next state are arbitrary. The bytes those reads gave are kept for the statements.

A protocol left out at compile time is a flag of the builder that is off.
-/
namespace H12Tiny.Server
open Sync (Bytes IoError)

inductive ConnectionError (ε : Type)
  | io (error : IoError)
  | unsupported (message : String)
  | hyper (error : ε)

structure Hyper (S C ε : Type) where
  serve : Version → S → C
  poll : C → Rewind → List ℕ × C × Poll (Except ε Unit)
  gracefulShutdown : C → C

/-- A connection of Hyper with the transport it owns and what it has read so far. -/
structure HyperConnection (C : Type) where
  conn : C
  io : Rewind
  given : Bytes

structure Builder where
  http1 : Bool
  http2 : Bool
  version : Option Version

inductive ConnState (S C ε : Type)
  | readVersion (readVersion : ReadVersion) (builder : Builder) (service : Option S)
  | h1 (conn : HyperConnection C)
  | h2 (conn : HyperConnection C)
  | unsupported (error : Option (ConnectionError ε))

/-- The outcome of a poll; `panicked` is a failed `expect`. -/
inductive ConnPolled (S C ε : Type)
  | pending (next : ConnState S C ε)
  | ready (result : Except (ConnectionError ε) Unit)
  | panicked

variable {S C ε : Type}

def Version.unsupported : Version → ConnectionError ε
  | .h1 => .unsupported "HTTP/1 is not supported"
  | .h2 => .unsupported "HTTP/2 is not supported"

namespace Builder

def new (http1 http2 : Bool) : Builder := ⟨http1,http2,none⟩

/-- `http1_only` and `http2_only`, whose assertion fails on a restricted builder. -/
def only (builder : Builder) (version : Version) : Option Builder :=
  if builder.version.isNone then some { builder with version := some version } else none

def supports (builder : Builder) : Version → Bool
  | .h1 => builder.http1
  | .h2 => builder.http2

def isHttp1Available (builder : Builder) : Bool :=
  match builder.version with
  | some .h1 => builder.http1
  | some .h2 => false
  | none => builder.http1

def isHttp2Available (builder : Builder) : Bool :=
  match builder.version with
  | some .h1 => false
  | some .h2 => builder.http2
  | none => builder.http2

def establish (builder : Builder) (hyper : Hyper S C ε) (version : Version) (io : Rewind) (service : S) :
    ConnState S C ε :=
  if builder.supports version then
    match version with
    | .h1 => .h1 ⟨hyper.serve .h1 service,io,[]⟩
    | .h2 => .h2 ⟨hyper.serve .h2 service,io,[]⟩
  else .unsupported (some version.unsupported)

def serveConnection (builder : Builder) (hyper : Hyper S C ε) (io : Transport) (uninit : Bytes) (service : S) :
    ConnState S C ε :=
  match builder.version with
  | some version => builder.establish hyper version (Rewind.newBuffered io []) service
  | none => .readVersion (Server.readVersion io uninit) builder (some service)

def alpnH2 : Bytes := [104,50]
def alpnHttp11 : Bytes := [104,116,116,112,47,49,46,49]

/-- The bytes as `{:?}` prints them. -/
def debugBytes (bytes : Bytes) : String :=
  "[" ++ ", ".intercalate (bytes.map fun byte => toString byte.toNat) ++ "]"

/-- A restriction to the negotiated protocol; `none` is the failed assertion. -/
def serveNegotiated (builder : Builder) (hyper : Hyper S C ε) (version : Version) (io : Transport)
    (uninit : Bytes) (service : S) : Option (Except (ConnectionError ε) (ConnState S C ε)) :=
  if builder.supports version then
    (builder.only version).map fun restricted => .ok (restricted.serveConnection hyper io uninit service)
  else some (.error version.unsupported)

def serveTlsConnection (builder : Builder) (hyper : Hyper S C ε) (alpnProtocol : Option Bytes) (io : Transport)
    (uninit : Bytes) (service : S) : Option (Except (ConnectionError ε) (ConnState S C ε)) :=
  match alpnProtocol with
  | none => builder.serveNegotiated hyper .h1 io uninit service
  | some protocol =>
    if protocol = alpnH2 then builder.serveNegotiated hyper .h2 io uninit service
    else if protocol = alpnHttp11 then builder.serveNegotiated hyper .h1 io uninit service
    else some (.error (.io ⟨.invalidData,"unexpected TLS ALPN protocol " ++ debugBytes protocol⟩))

/-- What the builder makes of a cleartext stream. -/
def selects (builder : Builder) (stream : Bytes) : Version :=
  builder.version.getD (if h2Preface <+: stream then .h2 else .h1)

end Builder

def HyperConnection.poll (hyper : Hyper S C ε) (connection : HyperConnection C) :
    Poll (Except ε Unit) × HyperConnection C :=
  let turn := hyper.poll connection.conn connection.io
  let read := connection.io.reads turn.1
  (turn.2.2,⟨turn.2.1,read.2,connection.given ++ received read.1⟩)

def HyperConnection.gracefulShutdown (hyper : Hyper S C ε) (connection : HyperConnection C) :
    HyperConnection C :=
  { connection with conn := hyper.gracefulShutdown connection.conn }

namespace ConnState

def gracefulShutdown (hyper : Hyper S C ε) : ConnState S C ε → ConnState S C ε
  | .readVersion detector builder service => .readVersion detector.cancel builder service
  | .h1 conn => .h1 (conn.gracefulShutdown hyper)
  | .h2 conn => .h2 (conn.gracefulShutdown hyper)
  | .unsupported error => .unsupported error

def answered (state : HyperConnection C → ConnState S C ε) (polled : Poll (Except ε Unit) × HyperConnection C) :
    ConnPolled S C ε :=
  match polled.1 with
  | .pending => .pending (state polled.2)
  | .ready (.ok ()) => .ready (.ok ())
  | .ready (.error error) => .ready (.error (.hyper error))

/-- One iteration of the loop of `poll`. -/
def iterate (hyper : Hyper S C ε) : ConnState S C ε → ConnPolled S C ε ⊕ ConnState S C ε
  | .readVersion detector builder service =>
    match detector.poll with
    | .pending next => .inl (.pending (.readVersion next builder service))
    | .ready (.error error) => .inl (.ready (.error (.io error)))
    | .ready (.ok (version,io)) =>
      match service with
      | some service => .inr (builder.establish hyper version io service)
      | none => .inl .panicked
  | .h1 conn => .inl (answered .h1 (conn.poll hyper))
  | .h2 conn => .inl (answered .h2 (conn.poll hyper))
  | .unsupported (some error) => .inl (.ready (.error error))
  | .unsupported none => .inl .panicked

def detecting : ConnState S C ε → ℕ
  | .readVersion _ _ _ => 1
  | _ => 0

theorem establish_detecting (builder : Builder) (hyper : Hyper S C ε) (version : Version) (io : Rewind)
    (service : S) : (builder.establish hyper version io service).detecting = 0 := by
  unfold Builder.establish
  split
  · cases version <;> rfl
  · rfl

theorem iterate_decreases (hyper : Hyper S C ε) : Decreases (iterate hyper) detecting := by
  intro state next h
  cases state with
  | readVersion detector builder service =>
    simp only [iterate] at h
    split at h
    · cases h
    · cases h
    · split at h
      · cases h
        rw [establish_detecting]
        exact Nat.one_pos
      · cases h
  | h1 | h2 => cases h
  | unsupported error => cases error <;> cases h

def poll (hyper : Hyper S C ε) (state : ConnState S C ε) : ConnPolled S C ε :=
  loop (iterate hyper) detecting (iterate_decreases hyper) state

end ConnState

/-- The future between its polls, with the requests for a graceful shutdown it may get. -/
inductive Connection (S C ε : Type)
  | running (state : ConnState S C ε)
  | finished (result : Except (ConnectionError ε) Unit)
  | panicked

inductive Connection.Action
  | poll
  | gracefulShutdown

def ConnPolled.connection : ConnPolled S C ε → Connection S C ε
  | .pending next => .running next
  | .ready result => .finished result
  | .panicked => .panicked

def Connection.step (hyper : Hyper S C ε) : Connection S C ε → Connection.Action → Option (Connection S C ε)
  | .running state, .poll => some (state.poll hyper).connection
  | .running state, .gracefulShutdown => some (.running (state.gracefulShutdown hyper))
  | _, _ => none

def Connection.Runs (hyper : Hyper S C ε) : Connection S C ε → Connection S C ε → Prop :=
  Reaches (Connection.step hyper) fun _ _ => True

/-- The connection of the selected protocol has read a beginning of the stream and has the
rest before it. -/
structure Carries (builder : Builder) (stream : Bytes) (version : Version) (connection : HyperConnection C) :
    Prop where
  selected : builder.selects stream = version
  supported : builder.supports version = true
  splits : connection.given ++ connection.io.rest = stream

def ConnState.Serves (builder : Builder) (stream : Bytes) : ConnState S C ε → Prop
  | .readVersion detector b service => b = builder ∧ service.isSome = true ∧ builder.version = none ∧
      (detector.cancelled = true ∨ Tracks stream detector)
  | .h1 conn => Carries builder stream .h1 conn
  | .h2 conn => Carries builder stream .h2 conn
  | .unsupported error => error = some (builder.selects stream).unsupported ∧
      builder.supports (builder.selects stream) = false

def ConnPolled.Serves (builder : Builder) (stream : Bytes) : ConnPolled S C ε → Prop
  | .pending next => next.Serves builder stream
  | .ready _ => True
  | .panicked => False

section Serves
variable {hyper : Hyper S C ε} {builder : Builder} {stream : Bytes}

theorem establish_serves {version : Version} {io : Rewind} (hversion : builder.selects stream = version)
    (hrest : io.rest = stream) (service : S) :
    (builder.establish hyper version io service).Serves builder stream := by
  unfold Builder.establish
  split
  next hsupported => cases version <;> exact ⟨hversion,hsupported,hrest⟩
  next hsupported =>
    subst hversion
    exact ⟨rfl,Bool.not_eq_true _ ▸ hsupported⟩

theorem serveConnection_fixed {version : Version} (hversion : builder.version = some version)
    (turns : ℕ → Turn) (uninit : Bytes) (service : S) :
    (builder.serveConnection hyper ⟨stream,turns,[]⟩ uninit service).Serves builder stream := by
  unfold Builder.serveConnection
  rw [hversion]
  apply establish_serves _ rfl
  rw [Builder.selects,hversion]
  rfl

theorem serveConnection_serves (turns : ℕ → Turn) {uninit : Bytes} (hmemory : uninit.length = h2Preface.length)
    (service : S) :
    (builder.serveConnection hyper ⟨stream,turns,[]⟩ uninit service).Serves builder stream := by
  cases hversion : builder.version with
  | some version => exact serveConnection_fixed hversion turns uninit service
  | none =>
    unfold Builder.serveConnection
    rw [hversion]
    exact ⟨rfl,rfl,hversion,.inr (readVersion_tracks stream turns hmemory)⟩

theorem Carries.poll {version : Version} {connection : HyperConnection C} (hyper : Hyper S C ε)
    (h : Carries builder stream version connection) :
    Carries builder stream version (connection.poll hyper).2 := by
  refine ⟨h.selected,h.supported,?_⟩
  have hreads := connection.io.reads_splits (hyper.poll connection.conn connection.io).1
  simp only [HyperConnection.poll]
  rw [List.append_assoc,hreads]
  exact h.splits

theorem answered_serves (state : HyperConnection C → ConnState S C ε)
    {polled : Poll (Except ε Unit) × HyperConnection C} (h : (state polled.2).Serves builder stream) :
    (ConnState.answered state polled).Serves builder stream := by
  unfold ConnState.answered
  split
  · exact h
  · trivial
  · trivial

theorem detected_selects {version : Version} {io : Rewind} (hauto : builder.version = none)
    (h : Detected stream version io) : builder.selects stream = version := by
  rw [Builder.selects,hauto]
  change (if h2Preface <+: stream then Version.h2 else .h1) = version
  by_cases hp : h2Preface <+: stream
  · rw [if_pos hp,h.exact.mpr hp]
  · rw [if_neg hp]
    cases version with
    | h1 => rfl
    | h2 => exact absurd (h.exact.mp rfl) hp

theorem iterate_serves {state : ConnState S C ε} (h : state.Serves builder stream) :
    (∀ r, state.iterate hyper = .inl r → r.Serves builder stream) ∧
    ∀ next, state.iterate hyper = .inr next → next.Serves builder stream := by
  cases state with
  | readVersion detector b service =>
    obtain ⟨rfl,hservice,hauto,htracks⟩ := h
    obtain ⟨service,rfl⟩ := Option.isSome_iff_exists.mp hservice
    rcases htracks with hcancelled | htracks
    · have hpoll : detector.poll = .ready (.error ReadVersion.cancelError) := if_pos hcancelled
      simp only [ConnState.iterate,hpoll]
      refine ⟨?_,nofun⟩
      intro r hr
      cases hr
      trivial
    · have hsound := ReadVersion.poll_sound htracks
      simp only [ConnState.iterate]
      cases hpoll : detector.poll with
      | pending next =>
        rw [hpoll] at hsound
        refine ⟨?_,nofun⟩
        intro r hr
        cases hr
        exact ⟨rfl,rfl,hauto,.inr hsound⟩
      | ready result =>
        rw [hpoll] at hsound
        cases result with
        | error error =>
          refine ⟨?_,nofun⟩
          intro r hr
          cases hr
          trivial
        | ok found =>
          refine ⟨nofun,?_⟩
          intro next hnext
          cases hnext
          exact establish_serves (detected_selects hauto hsound) hsound.rest service
  | h1 conn =>
    refine ⟨?_,nofun⟩
    intro r hr
    cases hr
    exact answered_serves .h1 (h.poll hyper)
  | h2 conn =>
    refine ⟨?_,nofun⟩
    intro r hr
    cases hr
    exact answered_serves .h2 (h.poll hyper)
  | unsupported error =>
    obtain ⟨rfl,_⟩ := h
    refine ⟨?_,nofun⟩
    intro r hr
    cases hr
    trivial

theorem poll_serves (hyper : Hyper S C ε) {state : ConnState S C ε} (h : state.Serves builder stream) :
    (state.poll hyper).Serves builder stream := by
  refine loop_induction (ConnState.iterate_decreases hyper)
    (P := fun state r => state.Serves builder stream → r.Serves builder stream) ?_ ?_ state h
  · intro state r hr h
    exact (iterate_serves h).1 r hr
  · intro state next r hr ih h
    exact ih ((iterate_serves h).2 next hr)

theorem gracefulShutdown_serves (hyper : Hyper S C ε) {state : ConnState S C ε} (h : state.Serves builder stream) :
    (state.gracefulShutdown hyper).Serves builder stream := by
  cases state with
  | readVersion detector b service =>
    obtain ⟨hb,hservice,hauto,_⟩ := h
    exact ⟨hb,hservice,hauto,.inl rfl⟩
  | h1 conn | h2 conn => exact ⟨h.selected,h.supported,h.splits⟩
  | unsupported error => exact h

end Serves

section Runs
variable {hyper : Hyper S C ε} {builder : Builder} {stream : Bytes} {connection : Connection S C ε}

def Connection.Serves (builder : Builder) (stream : Bytes) : Connection S C ε → Prop
  | .running state => state.Serves builder stream
  | .finished _ => True
  | .panicked => False

theorem runs_serves {state : ConnState S C ε} (hstate : state.Serves builder stream)
    (h : Connection.Runs hyper (.running state) connection) : connection.Serves builder stream := by
  have hinit : (Connection.running state).Serves builder stream := hstate
  refine Reaches.invariant (I := Connection.Serves builder stream) ?_ hinit h
  intro c c' action hc _ hs
  cases c with
  | running state =>
    cases action with
    | poll =>
      cases hs
      have hpoll := poll_serves hyper hc
      cases hp : state.poll hyper with
      | pending next =>
        rw [hp] at hpoll
        exact hpoll
      | ready result => trivial
      | panicked =>
        rw [hp] at hpoll
        exact hpoll
    | gracefulShutdown =>
      cases hs
      exact gracefulShutdown_serves hyper hc
  | finished | panicked => cases hs

theorem poll_cancelled {detector : ReadVersion} (b : Builder) (service : Option S)
    (h : detector.cancelled = true) : (ConnState.readVersion detector b service).poll hyper =
      .ready (.error (.io ReadVersion.cancelError)) := by
  have hpoll : detector.poll = .ready (.error ReadVersion.cancelError) := if_pos h
  rw [ConnState.poll,loop_eq]
  simp only [ConnState.iterate,hpoll]

/-- A detector that was told to stop starts no connection, and its next poll is the last. -/
theorem cancelled_runs {detector : ReadVersion} {b : Builder} {service : Option S}
    (hcancelled : detector.cancelled = true)
    (h : Connection.Runs hyper (.running (.readVersion detector b service)) connection) :
    (∃ detector, connection = .running (.readVersion detector b service) ∧
        (ConnState.readVersion detector b service).poll hyper = .ready (.error (.io ReadVersion.cancelError))) ∨
      connection = .finished (.error (.io ReadVersion.cancelError)) := by
  have hinv := Reaches.invariant (I := fun c : Connection S C ε =>
    (∃ detector, detector.cancelled = true ∧ c = .running (.readVersion detector b service)) ∨
      c = .finished (.error (.io ReadVersion.cancelError))) ?_ (.inl ⟨detector,hcancelled,rfl⟩) h
  · rcases hinv with ⟨detector,hc,he⟩ | he
    · exact .inl ⟨detector,he,poll_cancelled b service hc⟩
    · exact .inr he
  · rintro c c' action (⟨detector,hc,rfl⟩ | rfl) _ hs
    · cases action with
      | poll =>
        simp only [Connection.step,poll_cancelled b service hc] at hs
        exact .inr (Option.some.inj hs).symm
      | gracefulShutdown =>
        cases hs
        exact .inl ⟨detector.cancel,rfl,rfl⟩
    · cases hs

/-- Under any schedule of polls and shutdown requests the future does not panic. A
connection of Hyper is of the protocol the builder selects for the stream, and together
with what it has read, its transport holds the stream. After a shutdown request before that
protocol is known there is no connection any more: the next poll ends the future with the
error. -/
theorem connection_serves (builder : Builder) (stream : Bytes) (turns : ℕ → Turn) {uninit : Bytes}
    (hmemory : uninit.length = h2Preface.length) (service : S)
    (h : Connection.Runs hyper
      (.running (builder.serveConnection hyper ⟨stream,turns,[]⟩ uninit service)) connection) :
    connection ≠ .panicked ∧
    (∀ conn, connection = .running (.h1 conn) → builder.selects stream = .h1 ∧
      builder.isHttp1Available = true ∧ conn.given ++ conn.io.rest = stream) ∧
    (∀ conn, connection = .running (.h2 conn) → builder.selects stream = .h2 ∧
      builder.isHttp2Available = true ∧ conn.given ++ conn.io.rest = stream) ∧
    ∀ detector b service, connection = .running (.readVersion detector b service) →
      builder.version = none ∧ ∀ later, Connection.Runs hyper
        (.running ((ConnState.readVersion detector b service).gracefulShutdown hyper)) later →
        (∃ detector, later = .running (.readVersion detector b service) ∧
            (ConnState.readVersion detector b service).poll hyper =
              .ready (.error (.io ReadVersion.cancelError))) ∨
          later = .finished (.error (.io ReadVersion.cancelError)) := by
  have hserves := runs_serves (serveConnection_serves turns hmemory service) h
  refine ⟨?_,?_,?_,?_⟩
  · rintro rfl
    exact hserves
  · rintro conn rfl
    refine ⟨hserves.selected,?_,hserves.splits⟩
    have hselected := hserves.selected
    have hsupported : builder.http1 = true := hserves.supported
    unfold Builder.selects at hselected
    unfold Builder.isHttp1Available
    cases hversion : builder.version with
    | none => exact hsupported
    | some version =>
      rw [hversion] at hselected
      cases hselected
      exact hsupported
  · rintro conn rfl
    refine ⟨hserves.selected,?_,hserves.splits⟩
    have hselected := hserves.selected
    have hsupported : builder.http2 = true := hserves.supported
    unfold Builder.selects at hselected
    unfold Builder.isHttp2Available
    cases hversion : builder.version with
    | none => exact hsupported
    | some version =>
      rw [hversion] at hselected
      cases hselected
      exact hsupported
  · rintro detector b service rfl
    exact ⟨hserves.2.2.1,fun later hlater => cancelled_runs rfl hlater⟩

/-- A connection that reads sixteen bytes at each poll. -/
def readingHyper : Hyper Unit Unit Unit := ⟨fun _ _ => (),fun _ _ => ([16],(),.pending),id⟩

theorem connection_serves_halting : ∃ conn, Connection.Runs readingHyper
      (.running ((Builder.new true true).serveConnection readingHyper ⟨h2Preface ++ [0,0],halting,[]⟩
        (List.replicate 24 7) ())) (.running (.h2 conn)) ∧
    conn.given = h2Preface.take 16 ∧ conn.given ++ conn.io.rest = h2Preface ++ [0,0] := by
  obtain ⟨conn,hrun,hgiven⟩ : ∃ conn, runActions (Connection.step readingHyper)
      (.running ((Builder.new true true).serveConnection readingHyper ⟨h2Preface ++ [0,0],halting,[]⟩
        (List.replicate 24 7) ())) [.poll,.poll] = some (.running (.h2 conn)) ∧
      conn.given = h2Preface.take 16 := ⟨_,rfl,rfl⟩
  have hruns := Reaches.ofRun (allowedAlong_of_forall fun _ _ _ => trivial) hrun
  have hmemory : (List.replicate 24 (7 : UInt8)).length = h2Preface.length := rfl
  have hserves := connection_serves (Builder.new true true) (h2Preface ++ [0,0]) halting hmemory () hruns
  exact ⟨conn,hruns,hgiven,(hserves.2.2.1 conn rfl).2.2⟩

/-- The protocol of a handshake, if it is one of those the server speaks. -/
def negotiated : Option Bytes → Option Version
  | none => some .h1
  | some protocol =>
    if protocol = Builder.alpnH2 then some .h2
    else if protocol = Builder.alpnHttp11 then some .h1
    else none

theorem serveTlsConnection_eq (builder : Builder) (hyper : Hyper S C ε) (alpnProtocol : Option Bytes)
    (io : Transport) (uninit : Bytes) (service : S) {version : Version}
    (h : negotiated alpnProtocol = some version) :
    builder.serveTlsConnection hyper alpnProtocol io uninit service =
      builder.serveNegotiated hyper version io uninit service := by
  unfold Builder.serveTlsConnection
  cases alpnProtocol with
  | none =>
    cases h
    rfl
  | some protocol =>
    simp only [negotiated] at h ⊢
    split at h
    next hh2 =>
      cases h
      rw [if_pos hh2]
    next hh2 =>
      rw [if_neg hh2]
      split at h
      next hhttp11 =>
        cases h
        rw [if_pos hhttp11]
      · cases h

theorem serveTlsConnection_refused (builder : Builder) (hyper : Hyper S C ε) (alpnProtocol : Option Bytes)
    (io : Transport) (uninit : Bytes) (service : S) (h : negotiated alpnProtocol = none) :
    ∃ error, builder.serveTlsConnection hyper alpnProtocol io uninit service = some (.error error) := by
  unfold Builder.serveTlsConnection
  cases alpnProtocol with
  | none => cases h
  | some protocol =>
    simp only [negotiated] at h ⊢
    split at h
    next => cases h
    next hh2 =>
      rw [if_neg hh2]
      split at h
      next => cases h
      next hhttp11 =>
        rw [if_neg hhttp11]
        exact ⟨_,rfl⟩

theorem restricted_serves {version : Version} (hversion : builder.version = some version)
    (hsupported : builder.supports version = true) (hserves : connection.Serves builder stream) :
    (∃ result, connection = .finished result) ∨
      ∃ conn, conn.given ++ conn.io.rest = stream ∧
        ((version = .h1 ∧ connection = .running (.h1 conn)) ∨
          (version = .h2 ∧ connection = .running (.h2 conn))) := by
  have hselects : builder.selects stream = version := by
    rw [Builder.selects,hversion]
    rfl
  cases connection with
  | finished result => exact .inl ⟨result,rfl⟩
  | panicked => exact hserves.elim
  | running state =>
    refine .inr ?_
    cases state with
    | readVersion detector b service => cases hversion.symm.trans hserves.2.2.1
    | h1 conn => exact ⟨conn,hserves.splits,.inl ⟨hselects.symm.trans hserves.selected,rfl⟩⟩
    | h2 conn => exact ⟨conn,hserves.splits,.inr ⟨hselects.symm.trans hserves.selected,rfl⟩⟩
    | unsupported error =>
      have hnot := hserves.2
      rw [hselects] at hnot
      cases hsupported.symm.trans hnot

/-- Behind a handshake nothing is detected: the negotiated protocol is served with the
stream as it is, on a builder without a restriction of its own. A restricted builder
panics on any protocol it could serve, and a protocol that was not compiled in or is none
of the two is an error. -/
theorem tls_connection_serves (builder : Builder) (hyper : Hyper S C ε) (alpnProtocol : Option Bytes)
    (stream : Bytes) (turns : ℕ → Turn) (uninit : Bytes) (service : S) :
    (builder.serveTlsConnection hyper alpnProtocol ⟨stream,turns,[]⟩ uninit service = none ↔
      builder.version.isSome = true ∧ ∃ version, negotiated alpnProtocol = some version ∧
        builder.supports version = true) ∧
    (∀ error, builder.serveTlsConnection hyper alpnProtocol ⟨stream,turns,[]⟩ uninit service = some (.error error) →
      ∀ version, negotiated alpnProtocol = some version → builder.supports version = false) ∧
    ∀ state, builder.serveTlsConnection hyper alpnProtocol ⟨stream,turns,[]⟩ uninit service = some (.ok state) →
      ∃ version, negotiated alpnProtocol = some version ∧ builder.supports version = true ∧
        ∀ connection, Connection.Runs hyper (.running state) connection →
          (∃ result, connection = .finished result) ∨
          ∃ conn, conn.given ++ conn.io.rest = stream ∧
            ((version = .h1 ∧ connection = .running (.h1 conn)) ∨
              (version = .h2 ∧ connection = .running (.h2 conn))) := by
  cases hnegotiated : negotiated alpnProtocol with
  | none =>
    obtain ⟨error,hrefused⟩ := serveTlsConnection_refused builder hyper alpnProtocol ⟨stream,turns,[]⟩ uninit service
      hnegotiated
    rw [hrefused]
    refine ⟨iff_of_false nofun ?_,nofun,nofun⟩
    rintro ⟨_,_,hversion,_⟩
    cases hversion
  | some version =>
    rw [serveTlsConnection_eq builder hyper alpnProtocol _ uninit service hnegotiated]
    unfold Builder.serveNegotiated
    cases hsupported : builder.supports version with
    | false =>
      refine ⟨iff_of_false nofun ?_,?_,nofun⟩
      · rintro ⟨_,_,hversion,hnot⟩
        cases hversion
        cases hsupported.symm.trans hnot
      · rintro error _ _ hversion
        cases hversion
        exact hsupported
    | true =>
      rw [if_pos rfl,Builder.only]
      cases hversion : builder.version with
      | some fixed => exact ⟨iff_of_true rfl ⟨rfl,version,rfl,hsupported⟩,nofun,nofun⟩
      | none =>
        refine ⟨iff_of_false nofun nofun,nofun,?_⟩
        intro state hstate
        cases hstate
        refine ⟨version,rfl,hsupported,fun connection hruns => ?_⟩
        have hserves : connection.Serves { builder with version := some version } stream :=
          runs_serves (serveConnection_fixed rfl turns uninit service) hruns
        refine restricted_serves rfl ?_ hserves
        cases version <;> exact hsupported

end Runs

end H12Tiny.Server
