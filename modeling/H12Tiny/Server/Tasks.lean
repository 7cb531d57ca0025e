import H12Tiny.Server.Connection
import H12Tiny.Server.Shutdown

/-! # The driver tasks and their connections

The accept loop of `run` again, now with the connection that each driver polls. In the
loop's own model a driver only says what its connection has answered; here the answer
comes from the future of `serve_connection`, and a poll of the task in which the shutdown
signal arrives asks the connection to shut down and polls it once more. Forgetting the
connections gives a run of the loop.

A peer that never completes a preface keeps its connection in protocol detection. Since
detection can be cancelled, such a peer does not keep the server from shutting down.
-/
namespace H12Tiny.Server
open Sync (Bytes IoError)
variable {S C ε : Type}

/-- `streams` is what the peer of each driver sends, which no code reads. -/
structure Tasks (S C ε : Type) where
  lifecycle : Lifecycle
  connections : ℕ → Option (ConnState S C ε)
  streams : ℕ → Bytes

/-- The actions of the loop, with the accepted streams and the memory of their detectors. -/
inductive TaskAction
  | pass (shutdown : Bool) (accept : Poll (Except IoError Transport)) (uninit : Bytes)
  | poll (i : ℕ)
  | drop (i : ℕ)

def withoutStream : Poll (Except IoError Transport) → Poll (Except IoError Unit)
  | .pending => .pending
  | .ready (.error error) => .ready (.error error)
  | .ready (.ok _) => .ready (.ok ())

def progressOf : Except (ConnectionError ε) Unit → Progress
  | .ok () => .completed
  | .error _ => .failed

namespace Lifecycle

/-- Once the loop has stopped, every driver that still runs has got its signal. -/
def Signalled (s : Lifecycle) : Prop :=
  s.stopping = true → ∀ i d, s.drivers.get i = some d → d.phase.ended = false → d.signals = 1

section Signalled
variable {server : Serve} {s t : Lifecycle}

theorem Kept.signalled_stopped (h : Kept server s) (hsignalled : Signalled s) (hstopping : s.stopping = true)
    (hchange : Change server s t) : Signalled t := by
  intro _ i e he hover
  obtain ⟨_,_,hsame⟩ := h.frozen hstopping hchange
  obtain ⟨d,hd,hsignals⟩ := hsame i e he
  rw [hsignals]
  refine hsignalled hstopping i d hd ?_
  have hrunning : ∀ {P : Prop}, s.stage = .running → s.accepting = true → P := by
    intro P hstage haccepting
    rw [stopping_eq_false hstage haccepting] at hstopping
    cases hstopping
  cases hchange with
  | waits | returns | returnsError =>
    cases hd.symm.trans he
    exact hover
  | stops hstage haccepting | fails hstage haccepting | rejects hstage haccepting
    | starts hstage haccepting => exact hrunning hstage haccepting
  | @reaps index connection =>
    obtain ⟨d',hd',hphase⟩ := @reaped_phase s index connection i e he
    cases hd.symm.trans hd'
    rw [← hphase]
    exact hover
  | polls hget hpoll =>
    rcases Table.get_modify_cases he with ⟨rfl,_,_,rfl⟩ | ⟨_,hold⟩
    · cases hd.symm.trans hget
      exact ((h.wired _ _ hget).moves (Driver.moves_of_poll hpoll)).2.2
    · cases hd.symm.trans hold
      exact hover
  | drops =>
    rcases Table.get_modify_cases he with ⟨_,_,_,rfl⟩ | ⟨_,hold⟩
    · cases hover
    · cases hd.symm.trans hold
      exact hover

theorem Kept.signalled (h : Kept server s) (hlogged : Logged s) (hsignalled : Signalled s)
    (hchange : Change server s t) : Signalled t := by
  cases hstopping : s.stopping with
  | true => exact h.signalled_stopped hsignalled hstopping hchange
  | false =>
    intro hafter i d hd hover
    have hbefore : ¬ Stopped s.log := by
      intro hstopped
      cases hstopping.symm.trans (hlogged.stopped hstopped)
    have hnow : Stopped t.log → t.waitedFor = s.waitedFor → d.signals = 1 := by
      intro hstopped hwaited
      rw [(h.ends hlogged hchange hbefore hstopped).2 i d hd,if_pos]
      rw [← hwaited]
      exact (h.change hchange).tracked i d hd hover
    have hwaited : (sendShutdown s).waitedFor = s.waitedFor := by
      simp [waitedFor,sendShutdown]
    have hsame : t.stopping = s.stopping → d.signals = 1 := by
      intro heq
      rw [heq,hstopping] at hafter
      cases hafter
    obtain ⟨hstage,haccepting⟩ := running_of_not_stopping hstopping
    cases hchange with
    | stops => exact hnow (.inl (by simp)) hwaited
    | @fails error => exact hnow (.inr ⟨error,by simp⟩) hwaited
    | waits | rejects | starts | reaps | polls | drops => exact hsame rfl
    | returns _ hclosed => cases haccepting.symm.trans hclosed
    | returnsError hdraining => cases hstage.symm.trans hdraining

theorem runs_signalled (h : Runs server init s) : Signalled s := by
  have hinv := Reaches.invariant (I := fun s => (Kept server s ∧ Logged s) ∧ Signalled s) ?_
    ⟨⟨kept_init server,logged_init⟩,nofun⟩ h
  · exact hinv.2
  · rintro s t action ⟨⟨hkept,hlogged⟩,hsignalled⟩ _ hstep
    have hchange := change_of_step hstep
    exact ⟨⟨hkept.change hchange,hlogged.change hchange⟩,hkept.signalled hlogged hsignalled hchange⟩

end Signalled
end Lifecycle

namespace Tasks

def init : Tasks S C ε := ⟨Lifecycle.init,fun _ => none,fun _ => []⟩

section Step
variable (server : Serve) (builder : Builder) (hyper : Hyper S C ε) (service : S)

def pass (s : Tasks S C ε) (shutdown : Bool) (accept : Poll (Except IoError Transport)) (uninit : Bytes) :
    Option (Tasks S C ε) :=
  (s.lifecycle.pass server shutdown (withoutStream accept)).map fun t =>
    match accept with
    | .ready (.ok io) =>
      if t.drivers.next = s.lifecycle.drivers.next then { s with lifecycle := t }
      else
        { lifecycle := t
          connections := Function.update s.connections s.lifecycle.drivers.next
            (some (builder.serveConnection hyper io uninit service))
          streams := Function.update s.streams s.lifecycle.drivers.next io.unread }
    | _ => { s with lifecycle := t }

/-- A poll of the connection, of which the driver says this when it is pending. A panic
drops the task. -/
def pollConnection (s : Tasks S C ε) (i : ℕ) (conn : ConnState S C ε)
    (pending : ConnState S C ε → Option (Tasks S C ε)) : Option (Tasks S C ε) :=
  match conn.poll hyper with
  | .pending next => pending next
  | .ready result =>
    (s.lifecycle.pollDriver server i (progressOf result)).map fun t => { s with lifecycle := t }
  | .panicked => (s.lifecycle.dropDriver i).map fun t => { s with lifecycle := t }

def drain (s : Tasks S C ε) (i : ℕ) (conn : ConnState S C ε) : Option (Tasks S C ε) :=
  s.pollConnection server hyper i conn fun next =>
    (s.lifecycle.pollDriver server i .pending).map fun t =>
      { s with lifecycle := t, connections := Function.update s.connections i (some next) }

def select (s : Tasks S C ε) (i : ℕ) (conn : ConnState S C ε) : Option (Tasks S C ε) :=
  s.pollConnection server hyper i conn fun next =>
    (s.lifecycle.pollDriver server i .pending).bind fun t =>
      if (t.drivers.get i).any fun d => d.phase = .draining then
        drain server hyper { s with lifecycle := t } i (next.gracefulShutdown hyper)
      else some { s with lifecycle := t, connections := Function.update s.connections i (some next) }

def poll (s : Tasks S C ε) (i : ℕ) : Option (Tasks S C ε) :=
  (s.lifecycle.drivers.get i).bind fun d => (s.connections i).bind fun conn =>
    match d.phase with
    | .connection => s.select server hyper i conn
    | .draining => s.drain server hyper i conn
    | _ => none

def step (s : Tasks S C ε) : TaskAction → Option (Tasks S C ε)
  | .pass shutdown accept uninit => s.pass server builder hyper service shutdown accept uninit
  | .poll i => s.poll server hyper i
  | .drop i => (s.lifecycle.dropDriver i).map fun t => { s with lifecycle := t }

end Step

/-- An accepted stream has not been read, and a detector's memory has its size. -/
def Accepts : TaskAction → Prop
  | .pass _ (.ready (.ok io)) uninit => io.answers = [] ∧ uninit.length = h2Preface.length
  | _ => True

def Runs (maxConnections : Option ℕ) (onConnectionError : Bool) (builder : Builder) (hyper : Hyper S C ε)
    (service : S) : Tasks S C ε → Tasks S C ε → Prop :=
  Reaches (step (run maxConnections onConnectionError) builder hyper service) fun _ action => Accepts action

section Refinement
variable {server : Serve} {builder : Builder} {hyper : Hyper S C ε} {service : S} {s t : Tasks S C ε}

theorem pollDriver_runs {l l' : Lifecycle} {i : ℕ} {progress : Progress}
    (h : l.pollDriver server i progress = some l') : Lifecycle.Runs server l l' :=
  .single (a := .poll i progress) trivial h

theorem dropDriver_runs {l l' : Lifecycle} {i : ℕ} (h : l.dropDriver i = some l') :
    Lifecycle.Runs server l l' :=
  .single (a := .drop i) trivial h

theorem pollConnection_runs {i : ℕ} {conn : ConnState S C ε}
    {pending : ConnState S C ε → Option (Tasks S C ε)}
    (hpending : ∀ next, pending next = some t → Lifecycle.Runs server s.lifecycle t.lifecycle)
    (h : s.pollConnection server hyper i conn pending = some t) :
    Lifecycle.Runs server s.lifecycle t.lifecycle := by
  unfold pollConnection at h
  split at h
  · exact hpending _ h
  · obtain ⟨l,hl,rfl⟩ := Option.map_eq_some_iff.mp h
    exact pollDriver_runs hl
  · obtain ⟨l,hl,rfl⟩ := Option.map_eq_some_iff.mp h
    exact dropDriver_runs hl

theorem drain_runs {i : ℕ} {conn : ConnState S C ε} (h : s.drain server hyper i conn = some t) :
    Lifecycle.Runs server s.lifecycle t.lifecycle := by
  refine pollConnection_runs ?_ h
  intro next h
  obtain ⟨l,hl,rfl⟩ := Option.map_eq_some_iff.mp h
  exact pollDriver_runs hl

theorem select_runs {i : ℕ} {conn : ConnState S C ε} (h : s.select server hyper i conn = some t) :
    Lifecycle.Runs server s.lifecycle t.lifecycle := by
  refine pollConnection_runs ?_ h
  intro next h
  obtain ⟨l,hl,h⟩ := Option.bind_eq_some_iff.mp h
  split at h
  · exact (pollDriver_runs hl).trans (drain_runs h)
  · cases h
    exact pollDriver_runs hl

/-- Forgetting the connections, an action is a run of the loop's own model. -/
theorem step_runs {action : TaskAction} (h : s.step server builder hyper service action = some t) :
    Lifecycle.Runs server s.lifecycle t.lifecycle := by
  cases action with
  | pass shutdown accept uninit =>
    obtain ⟨l,hl,rfl⟩ := Option.map_eq_some_iff.mp h
    have hruns : Lifecycle.Runs server s.lifecycle l := .single (a := .pass shutdown (withoutStream accept)) trivial hl
    split
    · split
      · exact hruns
      · exact hruns
    · exact hruns
  | poll i =>
    obtain ⟨d,_,h⟩ := Option.bind_eq_some_iff.mp h
    obtain ⟨conn,_,h⟩ := Option.bind_eq_some_iff.mp h
    split at h
    · exact select_runs h
    · exact drain_runs h
    · cases h
  | drop i =>
    obtain ⟨l,hl,rfl⟩ := Option.map_eq_some_iff.mp h
    exact dropDriver_runs hl

theorem runs_lifecycle {limit : Option ℕ} {hook : Bool} (h : Runs limit hook builder hyper service init s) :
    Lifecycle.Runs (run limit hook) Lifecycle.init s.lifecycle := by
  have hinit : Lifecycle.Runs (run limit hook) Lifecycle.init (init : Tasks S C ε).lifecycle := Reaches.refl
  refine Reaches.invariant (I := fun s : Tasks S C ε => Lifecycle.Runs (run limit hook) Lifecycle.init s.lifecycle)
    ?_ hinit h
  intro s t action hs _ hstep
  exact hs.trans (step_runs hstep)

end Refinement

section Serving
variable {server : Serve} {limit : Option ℕ} {hook : Bool} {builder : Builder} {hyper : Hyper S C ε} {service : S}
variable {s t : Tasks S C ε}

/-- The connection of every driver serves what its own peer sends. -/
def Serving (builder : Builder) (s : Tasks S C ε) : Prop :=
  ∀ i conn, s.connections i = some conn → conn.Serves builder (s.streams i)

theorem Serving.lifecycle (h : Serving builder s) (l : Lifecycle) : Serving builder { s with lifecycle := l } := h

theorem Serving.update (h : Serving builder s) {i : ℕ} {next : ConnState S C ε}
    (hnext : next.Serves builder (s.streams i)) (l : Lifecycle) :
    Serving builder { s with lifecycle := l, connections := Function.update s.connections i (some next) } := by
  intro j conn hconn
  by_cases hj : j = i
  · subst hj
    cases (Function.update_self j (some next) s.connections).symm.trans hconn
    exact hnext
  · exact h j conn ((Function.update_of_ne hj (some next) s.connections).symm.trans hconn)

theorem Serving.pollConnection (h : Serving builder s) {i : ℕ} {conn : ConnState S C ε}
    (hconn : conn.Serves builder (s.streams i)) {pending : ConnState S C ε → Option (Tasks S C ε)}
    (hpending : ∀ next, next.Serves builder (s.streams i) → pending next = some t → Serving builder t)
    (hpoll : s.pollConnection server hyper i conn pending = some t) : Serving builder t := by
  have hserves := poll_serves hyper hconn
  unfold Tasks.pollConnection at hpoll
  split at hpoll
  next next hp =>
    rw [hp] at hserves
    exact hpending next hserves hpoll
  · obtain ⟨l,_,rfl⟩ := Option.map_eq_some_iff.mp hpoll
    exact h.lifecycle l
  next hp =>
    rw [hp] at hserves
    exact hserves.elim

theorem Serving.drain (h : Serving builder s) {i : ℕ} {conn : ConnState S C ε}
    (hconn : conn.Serves builder (s.streams i)) (hdrain : s.drain server hyper i conn = some t) :
    Serving builder t := by
  refine h.pollConnection hconn ?_ hdrain
  intro next hnext hp
  obtain ⟨l,_,rfl⟩ := Option.map_eq_some_iff.mp hp
  exact h.update hnext l

theorem Serving.select (h : Serving builder s) {i : ℕ} {conn : ConnState S C ε}
    (hconn : conn.Serves builder (s.streams i)) (hselect : s.select server hyper i conn = some t) :
    Serving builder t := by
  refine h.pollConnection hconn ?_ hselect
  intro next hnext hp
  obtain ⟨l,_,hp⟩ := Option.bind_eq_some_iff.mp hp
  split at hp
  · exact (h.lifecycle l).drain (gracefulShutdown_serves hyper hnext) hp
  · cases hp
    exact h.update hnext l

theorem Serving.step (h : Serving builder s) {action : TaskAction} (haccepts : Accepts action)
    (hs : s.step server builder hyper service action = some t) : Serving builder t := by
  cases action with
  | pass shutdown accept uninit =>
    obtain ⟨l,_,rfl⟩ := Option.map_eq_some_iff.mp hs
    split
    next io _ =>
      split
      · exact h.lifecycle l
      · obtain ⟨hanswers,hmemory⟩ := haccepts
        obtain ⟨unread,turns,answers⟩ := io
        cases hanswers
        intro j conn hconn
        by_cases hj : j = s.lifecycle.drivers.next
        · subst hj
          simp only [Function.update_self] at hconn ⊢
          cases hconn
          exact serveConnection_serves turns hmemory service
        · simp only [Function.update_of_ne hj] at hconn ⊢
          exact h j conn hconn
    · exact h.lifecycle l
  | poll i =>
    obtain ⟨d,_,hs⟩ := Option.bind_eq_some_iff.mp hs
    obtain ⟨conn,hconn,hs⟩ := Option.bind_eq_some_iff.mp hs
    split at hs
    · exact h.select (h i conn hconn) hs
    · exact h.drain (h i conn hconn) hs
    · cases hs
  | drop i =>
    obtain ⟨l,_,rfl⟩ := Option.map_eq_some_iff.mp hs
    exact h.lifecycle l

theorem runs_serving (h : Runs limit hook builder hyper service init s) : Serving builder s := by
  have hinit : Serving builder (init : Tasks S C ε) := nofun
  exact Reaches.invariant (fun hs ha hstep => Serving.step hs ha hstep) hinit h

/-- Under any interleaving of the accept loop and its driver tasks, a connection that
Hyper drives is of the protocol selected for what its own peer sends; together with what
was read it holds all of that; and no task panics. -/
theorem drivers_serve_their_streams (h : Runs limit hook builder hyper service init s) {i : ℕ}
    {conn : ConnState S C ε} (hconn : s.connections i = some conn) :
    (∀ served, conn = .h1 served → builder.selects (s.streams i) = .h1 ∧
      served.given ++ served.io.rest = s.streams i) ∧
    (∀ served, conn = .h2 served → builder.selects (s.streams i) = .h2 ∧
      served.given ++ served.io.rest = s.streams i) ∧
    conn.poll hyper ≠ .panicked ∧ (conn.gracefulShutdown hyper).poll hyper ≠ .panicked := by
  have hserves := runs_serving h i conn hconn
  have hpoll : ∀ {state : ConnState S C ε}, state.Serves builder (s.streams i) → state.poll hyper ≠ .panicked := by
    intro state hstate hp
    have hpolled := poll_serves hyper hstate
    rw [hp] at hpolled
    exact hpolled
  refine ⟨?_,?_,hpoll hserves,hpoll (gracefulShutdown_serves hyper hserves)⟩
  · rintro served rfl
    exact ⟨hserves.selected,hserves.splits⟩
  · rintro served rfl
    exact ⟨hserves.selected,hserves.splits⟩

/-- Two streams are accepted, and their detections and reads are interleaved. -/
def servedActions : List TaskAction :=
  [.pass false (.ready (.ok ⟨h2Preface ++ [0,0],halting,[]⟩)) (List.replicate 24 7),.poll 0,
    .pass false (.ready (.ok ⟨[80,82,73,32,47,13,10],halting,[]⟩)) (List.replicate 24 8),.poll 1,.poll 0,.poll 1,
    .poll 1]

/-- The second stream starts like the preface and is none. -/
theorem drivers_serve_their_streams_halting :
    ∃ (s : Tasks Unit Unit Unit) (served served' : HyperConnection Unit),
    Runs none true (Builder.new true true) readingHyper () init s ∧
    s.connections 0 = some (.h2 served) ∧ served.given ++ served.io.rest = h2Preface ++ [0,0] ∧
    s.connections 1 = some (.h1 served') ∧ served'.given ++ served'.io.rest = [80,82,73,32,47,13,10] := by
  obtain ⟨s,served,served',hrun,hconn,hstream,hconn',hstream'⟩ :
      ∃ (s : Tasks Unit Unit Unit) (served served' : HyperConnection Unit),
      runActions (step (run none true) (Builder.new true true) readingHyper ()) init servedActions = some s ∧
      s.connections 0 = some (.h2 served) ∧ s.streams 0 = h2Preface ++ [0,0] ∧
      s.connections 1 = some (.h1 served') ∧ s.streams 1 = [80,82,73,32,47,13,10] :=
    ⟨_,_,_,rfl,rfl,rfl,rfl,rfl⟩
  have hruns : Runs none true (Builder.new true true) readingHyper () init s :=
    .ofRun (allowedAlong_of_forall (by simp [servedActions,Accepts,h2Preface])) hrun
  refine ⟨s,served,served',hruns,hconn,?_,hconn',?_⟩
  · rw [← hstream]
    exact ((drivers_serve_their_streams hruns hconn).2.1 served rfl).2
  · rw [← hstream']
    exact ((drivers_serve_their_streams hruns hconn').1 served' rfl).2

end Serving

section Silent
variable {server : Serve} {limit : Option ℕ} {hook : Bool} {builder : Builder} {hyper : Hyper S C ε} {service : S}
variable {s t : Tasks S C ε}

/-- The peer has not sent enough to tell its protocol, and the poll waits for more. -/
def Silent (hyper : Hyper S C ε) (s : Tasks S C ε) (i : ℕ) : Prop :=
  ∃ conn next b service, s.connections i = some conn ∧ conn.poll hyper = .pending (.readVersion next b service)

/-- The driver is over, and only it has changed. -/
structure Settles (s t : Tasks S C ε) (i : ℕ) : Prop where
  finished : ∃ d, t.lifecycle.drivers.get i = some d ∧ d.phase = .finished
  others : ∀ j, j ≠ i → t.lifecycle.drivers.get j = s.lifecycle.drivers.get j
  connections : t.connections = s.connections
  active : t.lifecycle.active = s.lifecycle.active
  accepting : t.lifecycle.accepting = s.lifecycle.accepting
  stage : t.lifecycle.stage = s.lifecycle.stage

theorem poll_silent (builder : Builder) (service : S) (hkept : Lifecycle.Kept server s.lifecycle) {i : ℕ} {d : Driver}
    (hd : s.lifecycle.drivers.get i = some d) (hphase : d.phase = .connection) (hone : d.signals = 1)
    (hsilent : Silent hyper s i) :
    ∃ t, s.step server builder hyper service (.poll i) = some t ∧ Settles s t i := by
  obtain ⟨conn,next,b,sv,hconn,hpoll⟩ := hsilent
  obtain ⟨d',hpending,hdraining⟩ := (hkept.observes hd).2.1 hone hphase
  obtain ⟨asked,hasked⟩ : ∃ asked : Lifecycle,
      asked = { s.lifecycle with drivers := s.lifecycle.drivers.modify i fun _ => d' } := ⟨_,rfl⟩
  have hget : asked.drivers.get i = some d' := by
    rw [hasked]
    exact (Table.get_modify_self ..).trans (by rw [hd]; rfl)
  have hfirst : s.lifecycle.pollDriver server i .pending = some asked := by
    simp [Lifecycle.pollDriver,hd,hpending,hasked]
  have hfailed : d'.poll .failed = some (d'.finish,true) := by
    simp [Driver.poll,hdraining]
  obtain ⟨reported,hsecond⟩ : ∃ reported, asked.pollDriver server i .failed =
      some { asked with drivers := asked.drivers.modify i fun _ => d'.finish, reported := reported } := by
    unfold Lifecycle.pollDriver
    rw [hget,Option.bind_some,hfailed]
    exact ⟨_,rfl⟩
  -- the first poll gets the signal, and the second one the error of the cancelled detector
  have hstep : s.step server builder hyper service (.poll i) = some { s with
      lifecycle := { asked with drivers := asked.drivers.modify i fun _ => d'.finish, reported := reported } } := by
    simp only [step,poll,hd,hconn,Option.bind_some,hphase,select,pollConnection,hpoll,hfirst,hget,
      Option.any_some,hdraining,decide_true,if_true,drain,ConnState.gracefulShutdown]
    rw [poll_cancelled b sv rfl]
    simp only [progressOf,hsecond,Option.map_some]
  refine ⟨_,hstep,⟨d'.finish,?_,rfl⟩,?_,rfl,?_,?_,?_⟩
  · exact (Table.get_modify_self ..).trans (by rw [hget]; rfl)
  · intro j hj
    refine (Table.get_modify_ne _ _ hj).trans ?_
    rw [hasked]
    exact Table.get_modify_ne _ _ hj
  · rw [hasked]
  · rw [hasked]
  · rw [hasked]

theorem polls_silent (builder : Builder) (service : S) (l : List ℕ) (hnodup : l.Nodup)
    (hruns : Lifecycle.Runs server Lifecycle.init s.lifecycle)
    (hall : ∀ i ∈ l, ∃ d, s.lifecycle.drivers.get i = some d ∧ d.phase = .connection ∧ d.signals = 1 ∧
      Silent hyper s i) :
    ∃ t, runActions (step server builder hyper service) s (l.map .poll) = some t ∧
      Lifecycle.Runs server Lifecycle.init t.lifecycle ∧
      (∀ i d, t.lifecycle.drivers.get i = some d →
        d.phase.ended = true ∨ i ∉ l ∧ s.lifecycle.drivers.get i = some d) ∧
      t.lifecycle.active = s.lifecycle.active ∧ t.lifecycle.accepting = s.lifecycle.accepting ∧
      t.lifecycle.stage = s.lifecycle.stage := by
  induction l generalizing s with
  | nil => exact ⟨s,rfl,hruns,fun i d hd => .inr ⟨List.not_mem_nil,hd⟩,rfl,rfl,rfl⟩
  | cons i l ih =>
    obtain ⟨hout,hnodup⟩ := List.nodup_cons.mp hnodup
    obtain ⟨d,hd,hphase,hone,hsilent⟩ := hall i List.mem_cons_self
    obtain ⟨u,hu,hsettles⟩ :=
      poll_silent builder service (Lifecycle.runs_kept hruns) hd hphase hone hsilent
    have hrest : ∀ j ∈ l, ∃ d, u.lifecycle.drivers.get j = some d ∧ d.phase = .connection ∧ d.signals = 1 ∧
        Silent hyper u j := by
      intro j hj
      obtain ⟨e,he,hephase,heone,hesilent⟩ := hall j (List.mem_cons_of_mem _ hj)
      have hne : j ≠ i := by
        rintro rfl
        exact hout hj
      refine ⟨e,(hsettles.others j hne).trans he,hephase,heone,?_⟩
      unfold Silent
      rw [hsettles.connections]
      exact hesilent
    obtain ⟨t,ht,htruns,hover,hactive,haccepting,hstage⟩ := ih hnodup (hruns.trans (step_runs hu)) hrest
    refine ⟨t,?_,htruns,?_,hactive.trans hsettles.active,haccepting.trans hsettles.accepting,
      hstage.trans hsettles.stage⟩
    · rw [List.map_cons,runActions,hu]
      exact ht
    · intro j e he
      rcases hover j e he with hended | ⟨hnot,hold⟩
      · exact .inl hended
      · by_cases hj : j = i
        · subst hj
          obtain ⟨d',hd',hfinished⟩ := hsettles.finished
          cases hd'.symm.trans hold
          rw [hfinished]
          exact .inl rfl
        · refine .inr ⟨?_,(hsettles.others j hj).symm.trans hold⟩
          rw [List.mem_cons,not_or]
          exact ⟨hj,hnot⟩

theorem passes_lift (builder : Builder) (hyper : Hyper S C ε) (service : S) {u : Lifecycle} (n : ℕ)
    (h : runActions (Lifecycle.step server) s.lifecycle (List.replicate n (.pass false .pending)) = some u) :
    ∃ t, runActions (step server builder hyper service) s (List.replicate n (.pass false .pending [])) = some t ∧
      t.lifecycle = u := by
  induction n generalizing s with
  | zero =>
    cases h
    exact ⟨s,rfl,rfl⟩
  | succ n ih =>
    obtain ⟨l,hl,hrest⟩ := Option.bind_eq_some_iff.mp h
    have hpass : s.step server builder hyper service (.pass false .pending []) = some { s with lifecycle := l } := by
      change (s.lifecycle.pass server false .pending).map _ = _
      have hl' : s.lifecycle.pass server false .pending = some l := hl
      rw [hl']
      rfl
    obtain ⟨t,ht,htu⟩ := ih (s := { s with lifecycle := l }) hrest
    refine ⟨t,?_,htu⟩
    rw [List.replicate_succ,runActions,hpass]
    exact ht

def running (s : Tasks S C ε) : List ℕ :=
  (List.range s.lifecycle.drivers.next).filter fun i =>
    (s.lifecycle.drivers.get i).any fun d => !d.phase.ended

theorem mem_running {i : ℕ} : i ∈ s.running ↔
    ∃ d, s.lifecycle.drivers.get i = some d ∧ d.phase.ended = false := by
  unfold running
  rw [List.mem_filter,List.mem_range,Option.any_eq_true]
  constructor
  · rintro ⟨_,d,hd,hover⟩
    exact ⟨d,hd,by simpa using hover⟩
  · rintro ⟨d,hd,hover⟩
    exact ⟨Table.lt_next hd,d,hd,by simpa using hover⟩

/-- Peers that stay silent do not keep a server from shutting down: once the loop has
stopped and only detection is going on, one poll of each driver, one pass for each entry
and a last one end it. -/
theorem silent_peers_cannot_block_shutdown (h : Runs limit hook builder hyper service init s)
    (hstopping : s.lifecycle.stopping = true) (hstage : ∀ result, s.lifecycle.stage ≠ .returned result)
    (hsilent : ∀ i d, s.lifecycle.drivers.get i = some d → d.phase.ended = false →
      d.phase = .connection ∧ Silent hyper s i) :
    ∃ u result, runActions (step (run limit hook) builder hyper service) s
        (s.running.map .poll ++ List.replicate (s.lifecycle.active.length + 1) (.pass false .pending [])) = some u ∧
      u.lifecycle.stage = .returned result := by
  have hruns := runs_lifecycle h
  have hall : ∀ i ∈ s.running, ∃ d, s.lifecycle.drivers.get i = some d ∧ d.phase = .connection ∧
      d.signals = 1 ∧ Silent hyper s i := by
    intro i hi
    obtain ⟨d,hd,hover⟩ := mem_running.mp hi
    obtain ⟨hphase,hs⟩ := hsilent i d hd hover
    exact ⟨d,hd,hphase,Lifecycle.runs_signalled hruns hstopping i d hd hover,hs⟩
  have hnodup : s.running.Nodup := List.nodup_range.filter _
  obtain ⟨t,ht,htruns,hover,hactive,haccepting,htstage⟩ :=
    polls_silent builder service s.running hnodup hruns hall
  have hended : ∀ i d, t.lifecycle.drivers.get i = some d → d.phase.ended = true := by
    intro i d hd
    rcases hover i d hd with hended | ⟨hnot,hold⟩
    · exact hended
    · by_contra hlive
      rw [Bool.not_eq_true] at hlive
      exact hnot (mem_running.mpr ⟨d,hold,hlive⟩)
  have hstops : t.lifecycle.stopping = true := by
    unfold Lifecycle.stopping at hstopping ⊢
    rw [haccepting,htstage]
    exact hstopping
  obtain ⟨l,result,hl,hresult⟩ := (Lifecycle.runs_kept htruns).returns hstops (by rw [htstage]; exact hstage) hended
  rw [hactive] at hl
  obtain ⟨u,hu,rfl⟩ := passes_lift builder hyper service _ hl
  exact ⟨u,result,runActions_append ht hu,hresult⟩

/-- Two peers send four bytes and no more, and the server is told to shut down. -/
def mutedActions : List TaskAction :=
  [.pass false (.ready (.ok ⟨h2Preface,fun n => if n = 0 then .ready 3 else .pending,[]⟩)) (List.replicate 24 7),
    .poll 0,
    .pass false (.ready (.ok ⟨h2Preface,fun n => if n = 0 then .ready 3 else .pending,[]⟩)) (List.replicate 24 7),
    .poll 1,.pass true .pending []]

theorem silent_peers_cannot_block_shutdown_muted : ∃ (s u : Tasks Unit Unit Unit) (result : Except IoError Unit),
    Runs none true (Builder.new true true) readingHyper () init s ∧ s.running = [0,1] ∧
    runActions (step (run none true) (Builder.new true true) readingHyper ()) s
      (s.running.map .poll ++ List.replicate (s.lifecycle.active.length + 1) (.pass false .pending [])) = some u ∧
    u.lifecycle.stage = .returned result := by
  obtain ⟨s,d,d',hrun,hstopping,hstage,hrunning,⟨hd,hphase,hpeer⟩,hd',hphase',hpeer'⟩ :
      ∃ (s : Tasks Unit Unit Unit) (d d' : Driver),
      runActions (step (run none true) (Builder.new true true) readingHyper ()) init mutedActions = some s ∧
      s.lifecycle.stopping = true ∧ s.lifecycle.stage = .running ∧ s.running = [0,1] ∧
      (s.lifecycle.drivers.get 0 = some d ∧ d.phase = .connection ∧ Silent readingHyper s 0) ∧
      s.lifecycle.drivers.get 1 = some d' ∧ d'.phase = .connection ∧ Silent readingHyper s 1 :=
    ⟨_,_,_,rfl,rfl,rfl,rfl,⟨rfl,rfl,_,_,_,_,rfl,rfl⟩,rfl,rfl,_,_,_,_,rfl,rfl⟩
  have hruns : Runs none true (Builder.new true true) readingHyper () init s :=
    .ofRun (allowedAlong_of_forall (by simp [mutedActions,Accepts,h2Preface])) hrun
  have hsilent : ∀ i d, s.lifecycle.drivers.get i = some d → d.phase.ended = false →
      d.phase = .connection ∧ Silent readingHyper s i := by
    intro i e he hover
    have hi := mem_running.mpr ⟨e,he,hover⟩
    rw [hrunning] at hi
    rcases List.mem_cons.mp hi with rfl | hi
    · cases hd.symm.trans he
      exact ⟨hphase,hpeer⟩
    · cases List.mem_singleton.mp hi
      cases hd'.symm.trans he
      exact ⟨hphase',hpeer'⟩
  obtain ⟨u,result,hu,hresult⟩ := silent_peers_cannot_block_shutdown hruns hstopping
    (by rw [hstage]; exact nofun) hsilent
  exact ⟨s,u,result,hruns,hrunning,hu,hresult⟩

end Silent

end Tasks
end H12Tiny.Server
