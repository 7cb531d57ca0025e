import H12Tiny.Foundation.HandleTable
import H12Tiny.Foundation.Oneshot
import H12Tiny.Foundation.Transitions
import H12Tiny.Sync.Bytes

/-! # The accept loops

`run` and `run_tls` with the driver tasks they give to the executor. The two loops differ
in the first phase of the task only. A driver is named by the order in which it was
started, and the two channels made for it are kept with it: the loop holds the sender of
the first and the receiver of the second, the task the other halves.

An action is one pass through the loop body with what its shutdown future and its accept
future answer when they are polled, one poll of a driver by the executor with what the
future of its phase answers, or the executor dropping a driver. A poll of the lifecycle
future is several passes, and between any two of them the drivers may run.
-/
namespace H12Tiny.Server
open Sync (IoError)

/-- `Vec::swap_remove` for an index in range: the last element takes the place. -/
def swapRemove {α : Type*} (l : List α) (index : ℕ) : List α :=
  match l.getLast? with
  | none => []
  | some last => (l.set index last).dropLast

theorem cons_set_perm {α : Type*} {l : List α} {index : ℕ} {a : α} (b : α) (h : l[index]? = some a) :
    (a :: l.set index b).Perm (b :: l) := by
  induction l generalizing index with
  | nil => cases h
  | cons c l ih =>
    cases index with
    | zero =>
      cases h
      exact List.Perm.swap b a l
    | succ index =>
      have htail : (a :: l.set index b).Perm (b :: l) := ih h
      exact (List.Perm.swap c a _).trans ((htail.cons c).trans (List.Perm.swap b c l))

/-- The removed element and what is left are the elements there were. -/
theorem swapRemove_perm {α : Type*} {l : List α} {index : ℕ} {a : α} (h : l[index]? = some a) :
    (a :: swapRemove l index).Perm l := by
  rcases List.eq_nil_or_concat l with rfl | ⟨front,last,rfl⟩
  · cases h
  · rw [List.concat_eq_append] at h ⊢
    unfold swapRemove
    rw [List.getLast?_concat]
    dsimp only
    by_cases hin : index < front.length
    · rw [List.getElem?_append_left hin] at h
      rw [List.set_append_left _ _ hin,List.dropLast_concat]
      exact (cons_set_perm last h).trans (List.perm_append_singleton last front).symm
    · have hindex : index = front.length := by
        have hlen := (List.getElem?_eq_some_iff.mp h).1
        rw [List.length_append,List.length_singleton] at hlen
        omega
      subst hindex
      rw [List.getElem?_concat_length] at h
      cases h
      rw [List.set_append_right _ _ (Nat.le_refl _),Nat.sub_self]
      change (a :: (front ++ [a]).dropLast).Perm (front ++ [a])
      rw [List.dropLast_concat]
      exact (List.perm_append_singleton a front).symm

/-- Where the future given to the executor stands. A plain driver starts in `connection`;
`draining` is the connection awaited after `graceful_shutdown`. -/
inductive Phase
  | handshake
  | connection
  | draining
  | finished
  | dropped
  deriving DecidableEq, Repr

def Phase.ended : Phase → Bool
  | .finished => true
  | .dropped => true
  | _ => false

def Phase.listens : Phase → Bool
  | .handshake => true
  | .connection => true
  | _ => false

/-- What the future of a phase answers. A handshake can also end with a protocol that
`serve_tls_connection` refuses. -/
inductive Progress
  | pending
  | completed
  | failed
  | unsupported
  deriving DecidableEq, Repr

/-- A driver and its channels. `signals` counts the shutdown signals sent to it; no code
reads it. -/
structure Driver where
  phase : Phase
  shutdown : Oneshot Unit
  done : Oneshot Unit
  signals : ℕ

namespace Driver

/-- `done_tx.send(())` at the end of the task. -/
def finish (d : Driver) : Driver :=
  { d with phase := .finished, shutdown := d.shutdown.dropReceiver, done := (d.done.send ()).2 }

/-- The executor drops the future, and with it the halves of the channels in it. -/
def discard (d : Driver) : Driver :=
  { d with phase := .dropped, shutdown := d.shutdown.dropReceiver, done := d.done.dropSender }

/-- `future::select`: the shutdown receiver is polled when the other future is pending. -/
def select (d : Driver) (signalled : Oneshot Unit → Driver) : Driver :=
  match d.shutdown.poll with
  | (.ready _,shutdown) => signalled shutdown
  | (.pending,shutdown) => { d with shutdown := shutdown }

/-- One poll of the future of the current phase, and whether an error goes to the hook. -/
def poll (d : Driver) (progress : Progress) : Option (Driver × Bool) :=
  match d.phase,progress with
  | .handshake,.pending => some (d.select (fun shutdown => finish { d with shutdown := shutdown }),false)
  | .handshake,.completed => some ({ d with phase := .connection },false)
  | .handshake,.failed => some (d.finish,true)
  | .handshake,.unsupported => some (d.finish,true)
  | .connection,.pending =>
    some (d.select (fun shutdown => { d with phase := .draining, shutdown := shutdown }),false)
  | .connection,.completed => some (d.finish,false)
  | .connection,.failed => some (d.finish,true)
  | .draining,.pending => some (d,false)
  | .draining,.completed => some (d.finish,false)
  | .draining,.failed => some (d.finish,true)
  | _,_ => none

def signal (d : Driver) : Driver :=
  { d with shutdown := (d.shutdown.send ()).2, signals := d.signals + 1 }

end Driver

/-- An entry of the loop's vector: the sender it has not used yet, and the receiver. -/
structure Active where
  shutdown : Option ℕ
  done : ℕ
  deriving DecidableEq, Repr

inductive Event
  | shutdown
  | accepted (result : Except IoError Unit)
  | done (index : ℕ)

/-- Where the lifecycle future stands: in the loop, in `drain_active` behind a failed
accept, or returned. -/
inductive Stage
  | running
  | draining (error : IoError)
  | returned (result : Except IoError Unit)

structure Serve where
  tls : Bool
  maxConnections : Option ℕ
  onConnectionError : Bool

def Serve.firstPhase (server : Serve) : Phase := if server.tls then .handshake else .connection

/-- The loop's variables and the drivers. `reported` are the drivers whose error went to
the hook; `log` are the events the loop has handled, which no code reads. -/
structure Lifecycle where
  active : List Active
  accepting : Bool
  stage : Stage
  drivers : Table Driver
  reported : List ℕ
  log : List Event

def Lifecycle.init : Lifecycle := ⟨[],true,.running,.empty,[],[]⟩

namespace Lifecycle

/-- The receiver of the entry is ready: its driver has sent, or its sender is gone. -/
def doneReady (drivers : Table Driver) (connection : Active) : Bool :=
  (drivers.get connection.done).any fun d => d.done.poll.1 ≠ .pending

def firstDone (s : Lifecycle) : Option ℕ := s.active.findIdx? (doneReady s.drivers)

def pollEvent (s : Lifecycle) (shutdown : Bool) (accept : Poll (Except IoError Unit)) : Poll Event :=
  if s.accepting ∧ shutdown then .ready .shutdown
  else
    match s.firstDone with
    | some index => .ready (.done index)
    | none =>
      if s.accepting then
        match accept with
        | .ready result => .ready (.accepted result)
        | .pending => .pending
      else .pending

def signalOne (drivers : Table Driver) (connection : Active) : Table Driver :=
  match connection.shutdown with
  | some i => drivers.modify i Driver.signal
  | none => drivers

/-- Both places that send the shutdown signals do it in one loop over `active`. -/
def sendShutdown (s : Lifecycle) : Lifecycle :=
  { s with
    drivers := s.active.foldl signalOne s.drivers
    active := s.active.map fun connection => { connection with shutdown := none } }

def dropSenderOne (drivers : Table Driver) (connection : Active) : Table Driver :=
  match connection.shutdown with
  | some i => drivers.modify i fun d => { d with shutdown := d.shutdown.dropSender }
  | none => drivers

/-- The entry is taken out and dropped with a sender it still holds. -/
def reaped (s : Lifecycle) (index : ℕ) (connection : Active) : Lifecycle :=
  { s with
    active := swapRemove s.active index
    drivers := dropSenderOne (s.drivers.modify connection.done fun d => { d with done := d.done.poll.2 })
      connection }

/-- `active.swap_remove(index)`; an index out of range would panic. -/
def reap (s : Lifecycle) (index : ℕ) : Option Lifecycle := s.active[index]?.map (s.reaped index)

def atCapacity (server : Serve) (s : Lifecycle) : Bool :=
  server.maxConnections.any fun limit => limit ≤ s.active.length

def start (server : Serve) (s : Lifecycle) : Lifecycle :=
  { s with
    drivers := s.drivers.alloc ⟨server.firstPhase,.channel,.channel,0⟩
    active := s.active ++ [⟨some s.drivers.next,s.drivers.next⟩] }

def handle (server : Serve) (s : Lifecycle) : Event → Option Lifecycle
  | .shutdown => some (sendShutdown { s with accepting := false })
  | .accepted (.error error) => some { sendShutdown s with stage := .draining error }
  | .accepted (.ok ()) => some (if atCapacity server s then s else start server s)
  | .done index => s.reap index

/-- One pass through the loop of `run` or `run_tls`, or through that of `drain_active`. -/
def pass (server : Serve) (s : Lifecycle) (shutdown : Bool) (accept : Poll (Except IoError Unit)) :
    Option Lifecycle :=
  match s.stage with
  | .running =>
    if s.accepting ∨ s.active ≠ [] then
      match s.pollEvent shutdown accept with
      | .pending => some s
      | .ready event => (s.handle server event).map fun t => { t with log := s.log ++ [event] }
    else some { s with stage := .returned (.ok ()) }
  | .draining error =>
    if s.active ≠ [] then
      match s.firstDone with
      | some index => s.reap index
      | none => some s
    else some { s with stage := .returned (.error error) }
  | .returned _ => none

def pollDriver (server : Serve) (s : Lifecycle) (i : ℕ) (progress : Progress) : Option Lifecycle :=
  (s.drivers.get i).bind fun d => (d.poll progress).map fun r =>
    { s with
      drivers := s.drivers.modify i fun _ => r.1
      reported := if r.2 ∧ server.onConnectionError then s.reported ++ [i] else s.reported }

def dropDriver (s : Lifecycle) (i : ℕ) : Option Lifecycle :=
  (s.drivers.get i).bind fun d =>
    if d.phase.ended then none else some { s with drivers := s.drivers.modify i Driver.discard }

inductive Action
  | pass (shutdown : Bool) (accept : Poll (Except IoError Unit))
  | poll (i : ℕ) (progress : Progress)
  | drop (i : ℕ)

def step (server : Serve) (s : Lifecycle) : Action → Option Lifecycle
  | .pass shutdown accept => s.pass server shutdown accept
  | .poll i progress => s.pollDriver server i progress
  | .drop i => s.dropDriver i

def Runs (server : Serve) : Lifecycle → Lifecycle → Prop := Reaches (step server) fun _ _ => True

end Lifecycle

def run (maxConnections : Option ℕ) (onConnectionError : Bool) : Serve :=
  ⟨false,maxConnections,onConnectionError⟩

def runTls (maxConnections : Option ℕ) (onConnectionError : Bool) : Serve :=
  ⟨true,maxConnections,onConnectionError⟩

end H12Tiny.Server
