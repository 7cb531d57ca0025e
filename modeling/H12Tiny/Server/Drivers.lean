import H12Tiny.Server.Lifecycle

/-! # What the accept loops keep

One inversion lemma says what an action can do to the loop and its drivers. From it
follows the invariant of every run: the entries of `active` are exactly the names of the
drivers the loop still waits for, each with the sender of its own channel until the
signals are sent, and a driver that is still running is among them.
-/
namespace H12Tiny.Server
open Sync (IoError)

def Stage.isRunning : Stage → Bool
  | .running => true
  | _ => false

namespace Lifecycle

/-- The loop has seen the shutdown future resolve or an accept fail. -/
def stopping (s : Lifecycle) : Bool := !(s.accepting && s.stage.isRunning)

inductive Change (server : Serve) (s : Lifecycle) : Lifecycle → Prop
  | waits : Change server s s
  | stops (hstage : s.stage = .running) (haccepting : s.accepting = true) :
      Change server s { sendShutdown { s with accepting := false } with log := s.log ++ [.shutdown] }
  | fails {error : IoError} (hstage : s.stage = .running) (haccepting : s.accepting = true) :
      Change server s
        { sendShutdown s with stage := .draining error, log := s.log ++ [.accepted (.error error)] }
  | rejects (hstage : s.stage = .running) (haccepting : s.accepting = true)
      (hfull : atCapacity server s = true) : Change server s { s with log := s.log ++ [.accepted (.ok ())] }
  | starts (hstage : s.stage = .running) (haccepting : s.accepting = true)
      (hroom : atCapacity server s = false) :
      Change server s { start server s with log := s.log ++ [.accepted (.ok ())] }
  | reaps {index : ℕ} {connection : Active} {log : List Event} (hget : s.active[index]? = some connection)
      (hready : doneReady s.drivers connection = true) (hlog : log = s.log ∨ log = s.log ++ [.done index]) :
      Change server s { reaped s index connection with log := log }
  | returns (hstage : s.stage = .running) (haccepting : s.accepting = false) (hactive : s.active = []) :
      Change server s { s with stage := .returned (.ok ()) }
  | returnsError {error : IoError} (hstage : s.stage = .draining error) (hactive : s.active = []) :
      Change server s { s with stage := .returned (.error error) }
  | polls {i : ℕ} {d d' : Driver} {progress : Progress} {hooked : Bool} {reported : List ℕ}
      (hget : s.drivers.get i = some d) (hpoll : d.poll progress = some (d',hooked)) :
      Change server s { s with drivers := s.drivers.modify i fun _ => d', reported := reported }
  | drops {i : ℕ} {d : Driver} (hget : s.drivers.get i = some d) (hphase : d.phase.ended = false) :
      Change server s { s with drivers := s.drivers.modify i Driver.discard }

variable {server : Serve} {s t : Lifecycle}

theorem firstDone_get {index : ℕ} (h : s.firstDone = some index) :
    ∃ connection, s.active[index]? = some connection ∧ doneReady s.drivers connection = true := by
  obtain ⟨hlt,hready,-⟩ := List.findIdx?_eq_some_iff_getElem.mp h
  exact ⟨_,List.getElem?_eq_getElem hlt,hready⟩

theorem reap_eq {index : ℕ} {connection : Active} (h : s.active[index]? = some connection) :
    s.reap index = some (reaped s index connection) := by
  rw [reap,h]
  rfl

theorem change_pass {shutdown : Bool} {accept : Poll (Except IoError Unit)}
    (h : s.pass server shutdown accept = some t) : Change server s t := by
  unfold pass at h
  split at h
  next hstage =>
    split at h
    next hgoes =>
      cases hevent : s.pollEvent shutdown accept with
      | pending =>
        simp only [hevent] at h
        cases h
        exact .waits
      | ready event =>
        simp only [hevent] at h
        unfold pollEvent at hevent
        split at hevent
        next hshutdown =>
          cases hevent
          cases h
          exact .stops hstage hshutdown.1
        next =>
          split at hevent
          next index hdone =>
            cases hevent
            obtain ⟨connection,hget,hready⟩ := firstDone_get hdone
            simp only [handle,reap_eq hget,Option.map_some] at h
            cases h
            exact .reaps hget hready (Or.inr rfl)
          next =>
            split at hevent
            next haccepting =>
              split at hevent
              next result =>
                cases hevent
                cases result with
                | error error =>
                  cases h
                  exact .fails hstage haccepting
                | ok u =>
                  simp only [handle,Option.map_some] at h
                  cases h
                  cases hfull : atCapacity server s with
                  | true => exact .rejects hstage haccepting hfull
                  | false => exact .starts hstage haccepting hfull
              · cases hevent
            · cases hevent
    next hends =>
      cases h
      rw [not_or,not_not,Bool.not_eq_true] at hends
      exact .returns hstage hends.1 hends.2
  next error hstage =>
    split at h
    next =>
      split at h
      next index hdone =>
        obtain ⟨connection,hget,hready⟩ := firstDone_get hdone
        rw [reap_eq hget] at h
        cases h
        exact .reaps hget hready (Or.inl rfl)
      next =>
        cases h
        exact .waits
    next hends =>
      cases h
      rw [not_not] at hends
      exact .returnsError hstage hends
  · cases h

theorem change_of_step {action : Action} (h : step server s action = some t) : Change server s t := by
  cases action with
  | pass shutdown accept => exact change_pass h
  | poll i progress =>
    obtain ⟨d,hget,h⟩ := Option.bind_eq_some_iff.mp h
    obtain ⟨⟨d',hooked⟩,hpoll,h⟩ := Option.map_eq_some_iff.mp h
    cases h
    exact .polls hget hpoll
  | drop i =>
    obtain ⟨d,hget,h⟩ := Option.bind_eq_some_iff.mp h
    split at h
    · cases h
    next hphase =>
      cases h
      exact .drops hget (Bool.not_eq_true _ ▸ hphase)

end Lifecycle

/-- The channels of a driver are as its phase says: while it runs, its `done` sender is
unused; while it listens, its receiver waits or holds the one signal. -/
structure Driver.Wired (d : Driver) : Prop where
  running : d.phase.ended = false → d.done.poll.1 = .pending
  used : d.phase.ended = true → d.done.sender ≠ .held
  once : d.signals ≤ 1
  quiet : d.phase.listens = true → d.signals = 0 →
    d.shutdown.sender = .held ∧ d.shutdown.receiver = true ∧ d.shutdown.slot = none
  signalled : d.phase.listens = true → d.signals = 1 → d.shutdown.slot = some ()
  draining : d.phase = .draining → d.signals = 1

theorem Phase.ended_of_listens {phase : Phase} (h : phase.listens = true) : phase.ended = false := by
  cases phase <;> first | rfl | cases h

namespace Driver

inductive Moves (d : Driver) : Driver → Prop
  | finishes (h : d.phase.ended = false) : Moves d d.finish
  | connects (h : d.phase = .handshake) : Moves d { d with phase := .connection }
  | waits (h : d.phase = .draining) : Moves d d
  | cuts (h : d.phase = .handshake) :
      Moves d (d.select fun shutdown => finish { d with shutdown := shutdown })
  | asks (h : d.phase = .connection) :
      Moves d (d.select fun shutdown => { d with phase := .draining, shutdown := shutdown })

theorem moves_of_poll {d d' : Driver} {progress : Progress} {hooked : Bool}
    (h : d.poll progress = some (d',hooked)) : Moves d d' := by
  cases hphase : d.phase with
  | handshake =>
    cases progress <;> simp only [poll,hphase] at h <;> cases h
    · exact .cuts hphase
    · exact .connects hphase
    · exact .finishes (by rw [hphase]; rfl)
    · exact .finishes (by rw [hphase]; rfl)
  | connection =>
    cases progress <;> simp only [poll,hphase] at h <;> cases h
    · exact .asks hphase
    · exact .finishes (by rw [hphase]; rfl)
    · exact .finishes (by rw [hphase]; rfl)
  | draining =>
    cases progress <;> simp only [poll,hphase] at h <;> cases h
    · exact .waits hphase
    · exact .finishes (by rw [hphase]; rfl)
    · exact .finishes (by rw [hphase]; rfl)
  | finished => cases progress <;> simp only [poll,hphase] at h <;> cases h
  | dropped => cases progress <;> simp only [poll,hphase] at h <;> cases h

theorem wired_ended {d : Driver} (hover : d.phase.ended = true) (hsender : d.done.sender ≠ .held)
    (honce : d.signals ≤ 1) : d.Wired where
  running h := absurd (hover.symm.trans h) nofun
  used _ := hsender
  once := honce
  quiet h := absurd (hover.symm.trans (Phase.ended_of_listens h)) nofun
  signalled h := absurd (hover.symm.trans (Phase.ended_of_listens h)) nofun
  draining h := by
    rw [h] at hover
    cases hover

theorem wired_start (server : Serve) : Wired ⟨server.firstPhase,.channel,.channel,0⟩ := by
  have hlistens : server.firstPhase.ended = false := by
    unfold Serve.firstPhase
    split <;> rfl
  refine ⟨fun _ => rfl,fun h => absurd (hlistens.symm.trans h) nofun,Nat.zero_le _,
    fun _ _ => ⟨rfl,rfl,rfl⟩,fun _ => nofun,?_⟩
  intro h
  unfold Serve.firstPhase at h
  split at h <;> cases h

namespace Wired
variable {d : Driver} (h : d.Wired)
include h

theorem finish : d.finish.Wired := by
  apply wired_ended rfl
  · change (d.done.send ()).2.sender ≠ .held
    unfold Oneshot.send
    split
    · exact nofun
    · exact d.done.dropSender_not_held
  · exact h.once

theorem discard : d.discard.Wired := by
  apply wired_ended rfl
  · exact d.done.dropSender_not_held
  · exact h.once

theorem reap (hover : d.phase.ended = true) (shutdown : Oneshot Unit) :
    Wired { d with done := d.done.poll.2, shutdown := shutdown } := by
  refine wired_ended (show Phase.ended d.phase = true from hover) ?_ h.once
  · change d.done.poll.2.sender ≠ .held
    have hsender := h.used hover
    unfold Oneshot.poll
    split
    · exact hsender
    · split
      next hheld => exact absurd hheld hsender
      · exact hsender

theorem ended_of_ready (hready : d.done.poll.1 ≠ .pending) : d.phase.ended = true := by
  by_contra hover
  rw [Bool.not_eq_true] at hover
  exact hready (h.running hover)

theorem ready_of_ended (hover : d.phase.ended = true) : d.done.poll.1 ≠ .pending := by
  intro hpending
  exact h.used hover ((Oneshot.poll_pending_iff _).mp hpending).2

theorem signal (hquiet : d.signals = 0) : d.signal.Wired := by
  have hone : d.signal.signals = 1 := by
    change d.signals + 1 = 1
    rw [hquiet]
  refine ⟨h.running,h.used,by rw [hone],?_,?_,fun _ => hone⟩
  · intro _ hzero
    rw [hone] at hzero
    cases hzero
  · intro hlistens _
    have hreceiver := (h.quiet hlistens hquiet).2.1
    change (d.shutdown.send ()).2.slot = some ()
    unfold Oneshot.send
    rw [if_pos hreceiver]

/-- Polling the shutdown receiver of a listening driver: it waits if no signal was sent,
and gets the signal otherwise. -/
theorem select (hlistens : d.phase.listens = true) (signalled : Oneshot Unit → Driver) :
    d.signals = 0 ∧ d.select signalled = d ∨
      d.signals = 1 ∧ d.select signalled = signalled d.shutdown.dropReceiver := by
  have honce := h.once
  by_cases hzero : d.signals = 0
  · obtain ⟨hsender,-,hslot⟩ := h.quiet hlistens hzero
    refine Or.inl ⟨hzero,?_⟩
    unfold Driver.select Oneshot.poll
    rw [hslot,hsender]
  · have hone : d.signals = 1 := by omega
    refine Or.inr ⟨hone,?_⟩
    unfold Driver.select Oneshot.poll
    rw [h.signalled hlistens hone]

/-- A poll keeps the wiring and sends no signal, and a driver that is over is not
polled. -/
theorem moves {d' : Driver} (hmoves : d.Moves d') :
    d'.Wired ∧ d'.signals = d.signals ∧ d.phase.ended = false := by
  cases hmoves with
  | finishes hphase => exact ⟨h.finish,rfl,hphase⟩
  | connects hphase =>
    have hlistens : d.phase.listens = true := by rw [hphase]; rfl
    have hover : d.phase.ended = false := Phase.ended_of_listens hlistens
    exact ⟨⟨fun _ => h.running hover,nofun,h.once,fun _ => h.quiet hlistens,fun _ => h.signalled hlistens,nofun⟩,
      rfl,hover⟩
  | waits hphase => exact ⟨h,rfl,by rw [hphase]; rfl⟩
  | cuts hphase =>
    have hlistens : d.phase.listens = true := by rw [hphase]; rfl
    have hover : d.phase.ended = false := Phase.ended_of_listens hlistens
    rcases h.select hlistens (fun shutdown => Driver.finish { d with shutdown := shutdown }) with
      ⟨-,heq⟩ | ⟨-,heq⟩
    · rw [heq]
      exact ⟨h,rfl,hover⟩
    · rw [heq]
      exact ⟨h.finish,rfl,hover⟩
  | asks hphase =>
    have hlistens : d.phase.listens = true := by rw [hphase]; rfl
    have hover : d.phase.ended = false := Phase.ended_of_listens hlistens
    rcases h.select hlistens (fun shutdown => { d with phase := .draining, shutdown := shutdown }) with
      ⟨-,heq⟩ | ⟨hone,heq⟩
    · rw [heq]
      exact ⟨h,rfl,hover⟩
    · rw [heq]
      exact ⟨⟨fun _ => h.running hover,nofun,h.once,nofun,nofun,fun _ => hone⟩,rfl,hover⟩

end Wired
end Driver
namespace Lifecycle

def waitedFor (s : Lifecycle) : List ℕ := s.active.map Active.done

/-- Signalling every entry that holds the sender of its own driver. -/
theorem get_signalled (l : List Active) (hown : ∀ c ∈ l, c.shutdown = some c.done)
    (hnodup : (l.map Active.done).Nodup) (drivers : Table Driver) (i : ℕ) :
    (l.foldl signalOne drivers).get i =
      if i ∈ l.map Active.done then (drivers.get i).map Driver.signal else drivers.get i := by
  induction l generalizing drivers with
  | nil => rfl
  | cons c l ih =>
    rw [List.map_cons,List.nodup_cons] at hnodup
    have hfirst : signalOne drivers c = drivers.modify c.done Driver.signal := by
      rw [signalOne,hown c List.mem_cons_self]
    rw [List.foldl_cons,hfirst,ih (fun c hc => hown c (List.mem_cons_of_mem _ hc)) hnodup.2,List.map_cons]
    by_cases hi : i = c.done
    · subst hi
      rw [if_neg hnodup.1,if_pos List.mem_cons_self,Table.get_modify_self]
    · have hmem : i ∈ c.done :: l.map Active.done ↔ i ∈ l.map Active.done := by
        rw [List.mem_cons]
        exact or_iff_right hi
      simp only [hmem,Table.get_modify_ne drivers Driver.signal hi]

structure Kept (server : Serve) (s : Lifecycle) : Prop where
  nodup : s.waitedFor.Nodup
  known : ∀ i ∈ s.waitedFor, ∃ d, s.drivers.get i = some d
  owned : ∀ c ∈ s.active, c.shutdown = if s.stopping then none else some c.done
  wired : ∀ i d, s.drivers.get i = some d → d.Wired
  tracked : ∀ i d, s.drivers.get i = some d → d.phase.ended = false → i ∈ s.waitedFor
  quiet : s.stopping = false → ∀ i d, s.drivers.get i = some d → d.signals = 0
  limited : ∀ n, server.maxConnections = some n → s.active.length ≤ n
  drained : ∀ result, s.stage = .returned result → s.active = []

theorem stopping_eq_false {s : Lifecycle} (hstage : s.stage = .running) (haccepting : s.accepting = true) :
    s.stopping = false := by
  rw [stopping,hstage,haccepting]
  rfl

theorem running_of_not_stopping {s : Lifecycle} (h : s.stopping = false) :
    s.stage = .running ∧ s.accepting = true := by
  unfold stopping at h
  cases hstage : s.stage <;> cases haccepting : s.accepting <;> rw [hstage,haccepting] at h <;>
    first | exact ⟨rfl,rfl⟩ | cases h

theorem kept_init (server : Serve) : Kept server init := by
  have hnone : ∀ i d, ¬ init.drivers.get i = some d := fun _ _ h =>
    Option.some_ne_none _ h.symm
  constructor
  · exact List.nodup_nil
  · exact fun i hi => absurd hi List.not_mem_nil
  · exact fun c hc => absurd hc List.not_mem_nil
  · exact fun i d hd => absurd hd (hnone i d)
  · exact fun i d hd => absurd hd (hnone i d)
  · exact fun _ i d hd => absurd hd (hnone i d)
  · exact fun n _ => Nat.zero_le n
  · exact fun _ _ => rfl

namespace Kept
variable {server : Serve} {s : Lifecycle} (h : Kept server s)
include h

/-- The state of one driver changes, its signals do not, and it does not come back. -/
theorem driver {i : ℕ} {d : Driver} {f : Driver → Driver} (reported : List ℕ)
    (hget : s.drivers.get i = some d) (hwired : (f d).Wired) (hsignals : (f d).signals = d.signals)
    (hphase : (f d).phase.ended = false → d.phase.ended = false) :
    Kept server { s with drivers := s.drivers.modify i f, reported := reported } := by
  have hcases : ∀ j e, (s.drivers.modify i f).get j = some e →
      (j = i ∧ e = f d) ∨ s.drivers.get j = some e := by
    intro j e he
    rcases Table.get_modify_cases he with ⟨hj,d₁,hd₁,hed⟩ | ⟨-,hold⟩
    · rw [hget] at hd₁
      cases hd₁
      exact Or.inl ⟨hj,hed⟩
    · exact Or.inr hold
  refine ⟨h.nodup,?_,h.owned,?_,?_,?_,h.limited,h.drained⟩
  · intro j hj
    obtain ⟨e,he⟩ := h.known j hj
    by_cases hji : j = i
    · subst hji
      exact ⟨f e,by rw [Table.get_modify_self,he]; rfl⟩
    · exact ⟨e,by rw [Table.get_modify_ne _ _ hji,he]⟩
  · intro j e he
    rcases hcases j e he with ⟨-,rfl⟩ | hold
    · exact hwired
    · exact h.wired j e hold
  · intro j e he hover
    rcases hcases j e he with ⟨rfl,rfl⟩ | hold
    · exact h.tracked j d hget (hphase hover)
    · exact h.tracked j e hold hover
  · intro hstopping j e he
    rcases hcases j e he with ⟨rfl,rfl⟩ | hold
    · rw [hsignals]
      exact h.quiet hstopping j d hget
    · exact h.quiet hstopping j e hold

theorem senders (hrunning : s.stopping = false) : ∀ c ∈ s.active, c.shutdown = some c.done := by
  intro c hc
  have howned := h.owned c hc
  rw [hrunning] at howned
  exact howned

theorem send (hrunning : s.stopping = false) {t : Lifecycle}
    (hactive : t.active = (sendShutdown s).active) (hdrivers : t.drivers = (sendShutdown s).drivers)
    (hstopping : t.stopping = true) (hstage : ∀ result, t.stage ≠ .returned result) : Kept server t := by
  have hwaited : t.waitedFor = s.waitedFor := by
    rw [waitedFor,hactive]
    change (s.active.map fun c => { c with shutdown := none }).map Active.done = _
    rw [List.map_map]
    rfl
  have hget : ∀ i, t.drivers.get i =
      if i ∈ s.waitedFor then (s.drivers.get i).map Driver.signal else s.drivers.get i := by
    intro i
    rw [hdrivers]
    exact get_signalled s.active (h.senders hrunning) h.nodup s.drivers i
  have hcases : ∀ i e, t.drivers.get i = some e →
      ∃ d, s.drivers.get i = some d ∧ (e = d.signal ∨ e = d ∧ i ∉ s.waitedFor) := by
    intro i e he
    rw [hget] at he
    split at he
    · obtain ⟨d,hd,hed⟩ := Option.map_eq_some_iff.mp he
      exact ⟨d,hd,Or.inl hed.symm⟩
    next hout => exact ⟨e,he,Or.inr ⟨rfl,hout⟩⟩
  refine ⟨by rw [hwaited]; exact h.nodup,?_,?_,?_,?_,?_,?_,?_⟩
  · intro i hi
    rw [hwaited] at hi
    obtain ⟨d,hd⟩ := h.known i hi
    exact ⟨d.signal,by rw [hget,if_pos hi,hd]; rfl⟩
  · intro c hc
    rw [hactive] at hc
    obtain ⟨c',-,rfl⟩ := List.mem_map.mp hc
    rw [hstopping]
    rfl
  · intro i e he
    obtain ⟨d,hd,rfl | ⟨rfl,-⟩⟩ := hcases i e he
    · exact (h.wired i d hd).signal (h.quiet hrunning i d hd)
    · exact h.wired i e hd
  · intro i e he hover
    rw [hwaited]
    obtain ⟨d,hd,rfl | ⟨rfl,-⟩⟩ := hcases i e he
    · exact h.tracked i d hd hover
    · exact h.tracked i e hd hover
  · intro hcontra
    rw [hstopping] at hcontra
    cases hcontra
  · intro n hn
    rw [hactive]
    change (s.active.map _).length ≤ n
    rw [List.length_map]
    exact h.limited n hn
  · intro result hresult
    exact absurd hresult (hstage result)

theorem start (hrunning : s.stopping = false) (hroom : atCapacity server s = false) (log : List Event) :
    Kept server { Lifecycle.start server s with log := log } := by
  have hfresh : s.drivers.next ∉ s.waitedFor := by
    intro hmem
    obtain ⟨d,hd⟩ := h.known _ hmem
    exact absurd (Table.lt_next hd) (Nat.lt_irrefl _)
  have hwaited : waitedFor { Lifecycle.start server s with log := log } = s.waitedFor ++ [s.drivers.next] := by
    simp only [waitedFor,Lifecycle.start,List.map_append,List.map_cons,List.map_nil]
  have hgoes : stopping { Lifecycle.start server s with log := log } = s.stopping := rfl
  refine ⟨?_,?_,?_,?_,?_,?_,?_,?_⟩
  · rw [hwaited]
    exact List.nodup_append.mpr ⟨h.nodup,List.nodup_singleton _,by
      intro i hi j hj hij
      rw [List.mem_singleton.mp hj] at hij
      exact hfresh (hij ▸ hi)⟩
  · intro i hi
    rw [hwaited,List.mem_append,List.mem_singleton] at hi
    rcases hi with hi | rfl
    · obtain ⟨d,hd⟩ := h.known i hi
      exact ⟨d,Table.get_alloc_of_some _ hd⟩
    · exact ⟨_,Table.get_alloc_self _ _⟩
  · intro c hc
    rw [hgoes,hrunning]
    rcases List.mem_append.mp hc with hc | hc
    · exact h.senders hrunning c hc
    · rw [List.mem_singleton.mp hc]
      rfl
  · intro i d hd
    rcases Table.get_alloc_cases hd with ⟨-,rfl⟩ | hold
    · exact Driver.wired_start server
    · exact h.wired i d hold
  · intro i d hd hover
    rw [hwaited,List.mem_append,List.mem_singleton]
    rcases Table.get_alloc_cases hd with ⟨hi,-⟩ | hold
    · exact Or.inr hi
    · exact Or.inl (h.tracked i d hold hover)
  · intro _ i d hd
    rcases Table.get_alloc_cases hd with ⟨-,rfl⟩ | hold
    · rfl
    · exact h.quiet hrunning i d hold
  · intro n hn
    simp only [atCapacity,hn,Option.any_some,decide_eq_false_iff_not] at hroom
    change (s.active ++ [_]).length ≤ n
    rw [List.length_append,List.length_singleton]
    omega
  · intro result hresult
    have hstage : s.stage = .running := (running_of_not_stopping hrunning).1
    change s.stage = .returned result at hresult
    rw [hstage] at hresult
    cases hresult

theorem reaped_get_self {index : ℕ} {connection : Active} {d : Driver} (hmem : connection ∈ s.active)
    (hd : s.drivers.get connection.done = some d) :
    ∃ shutdown, (Lifecycle.reaped s index connection).drivers.get connection.done =
      some { d with done := d.done.poll.2, shutdown := shutdown } := by
  have hown := h.owned connection hmem
  simp only [Lifecycle.reaped,dropSenderOne]
  split at hown
  · rw [hown]
    exact ⟨d.shutdown,by rw [Table.get_modify_self,hd]; rfl⟩
  · rw [hown]
    exact ⟨d.shutdown.dropSender,by rw [Table.get_modify_self,Table.get_modify_self,hd]; rfl⟩

theorem reaped_get_ne (index : ℕ) {i : ℕ} {connection : Active} (hmem : connection ∈ s.active)
    (hi : i ≠ connection.done) : (Lifecycle.reaped s index connection).drivers.get i = s.drivers.get i := by
  have hown := h.owned connection hmem
  simp only [Lifecycle.reaped,dropSenderOne]
  split at hown
  · rw [hown]
    exact Table.get_modify_ne _ _ hi
  · rw [hown]
    dsimp only
    rw [Table.get_modify_ne _ _ hi,Table.get_modify_ne _ _ hi]

theorem reaped {index : ℕ} {connection : Active} (hget : s.active[index]? = some connection)
    (hready : doneReady s.drivers connection = true) (log : List Event) :
    Kept server { Lifecycle.reaped s index connection with log := log } := by
  have hperm := swapRemove_perm hget
  have hmem : connection ∈ s.active := List.mem_of_getElem? hget
  have hwaited : (connection.done :: waitedFor { Lifecycle.reaped s index connection with log := log }).Perm
      s.waitedFor := hperm.map Active.done
  obtain ⟨d,hd⟩ := h.known connection.done (List.mem_map_of_mem hmem)
  have hover : d.phase.ended = true := by
    simp only [doneReady,hd,Option.any_some,decide_eq_true_eq] at hready
    exact (h.wired _ d hd).ended_of_ready hready
  -- Only this driver's channels change, and it is over.
  have hcases : ∀ i e, (Lifecycle.reaped s index connection).drivers.get i = some e →
      (e.Wired ∧ e.phase.ended = true ∧ i = connection.done ∧ e.signals = d.signals) ∨
        i ≠ connection.done ∧ s.drivers.get i = some e := by
    intro i e he
    by_cases hi : i = connection.done
    · obtain ⟨shutdown,hnew⟩ := h.reaped_get_self hmem hd
      rw [hi,hnew] at he
      cases he
      exact Or.inl ⟨(h.wired _ d hd).reap hover shutdown,hover,hi,rfl⟩
    · exact Or.inr ⟨hi,(h.reaped_get_ne index hmem hi).symm.trans he⟩
  have hnodup := hwaited.nodup_iff.mpr h.nodup
  rw [List.nodup_cons] at hnodup
  refine ⟨hnodup.2,?_,?_,?_,?_,?_,?_,?_⟩
  · intro i hi
    obtain ⟨e,he⟩ := h.known i (hwaited.mem_iff.mp (List.mem_cons_of_mem _ hi))
    have hne : i ≠ connection.done := fun heq => hnodup.1 (heq ▸ hi)
    exact ⟨e,(h.reaped_get_ne index hmem hne).trans he⟩
  · intro c hc
    exact h.owned c (hperm.mem_iff.mp (List.mem_cons_of_mem _ hc))
  · intro i e he
    rcases hcases i e he with ⟨hwired,-⟩ | ⟨-,hold⟩
    · exact hwired
    · exact h.wired i e hold
  · intro i e he hrunning
    rcases hcases i e he with ⟨-,hcontra,-⟩ | ⟨hne,hold⟩
    · rw [hrunning] at hcontra
      cases hcontra
    · rcases List.mem_cons.mp (hwaited.mem_iff.mpr (h.tracked i e hold hrunning)) with heq | hin
      · exact absurd heq hne
      · exact hin
  · intro hgoes i e he
    rcases hcases i e he with ⟨-,-,-,hsignals⟩ | ⟨-,hold⟩
    · rw [hsignals]
      exact h.quiet hgoes _ d hd
    · exact h.quiet hgoes i e hold
  · intro n hn
    have hlen := hperm.length_eq
    rw [List.length_cons] at hlen
    have hlimit := h.limited n hn
    change (swapRemove s.active index).length ≤ n
    omega
  · intro result hresult
    rw [h.drained result hresult] at hmem
    cases hmem

theorem flags {t : Lifecycle} (hactive : t.active = s.active) (hdrivers : t.drivers = s.drivers)
    (hstopping : t.stopping = s.stopping) (hdrained : ∀ result, t.stage = .returned result → t.active = []) :
    Kept server t := by
  have hwaited : t.waitedFor = s.waitedFor := by rw [waitedFor,hactive]; rfl
  refine ⟨?_,?_,?_,?_,?_,?_,?_,hdrained⟩
  · rw [hwaited]
    exact h.nodup
  · rw [hwaited,hdrivers]
    exact h.known
  · rw [hactive,hstopping]
    exact h.owned
  · rw [hdrivers]
    exact h.wired
  · rw [hwaited,hdrivers]
    exact h.tracked
  · rw [hstopping,hdrivers]
    exact h.quiet
  · rw [hactive]
    exact h.limited

theorem change {t : Lifecycle} (hchange : Change server s t) : Kept server t := by
  cases hchange with
  | waits => exact h
  | stops hstage haccepting =>
    refine h.send (stopping_eq_false hstage haccepting) rfl rfl rfl ?_
    intro result hresult
    change s.stage = .returned result at hresult
    rw [hstage] at hresult
    cases hresult
  | @fails error hstage haccepting =>
    refine h.send (stopping_eq_false hstage haccepting) rfl rfl ?_ nofun
    exact congrArg not (Bool.and_false s.accepting)
  | rejects hstage haccepting hfull => exact h.flags rfl rfl rfl h.drained
  | starts hstage haccepting hroom => exact h.start (stopping_eq_false hstage haccepting) hroom _
  | reaps hget hready hlog => exact h.reaped hget hready _
  | returns hstage haccepting hactive =>
    refine h.flags rfl rfl ?_ (fun _ _ => hactive)
    simp only [stopping,haccepting,Bool.false_and]
  | returnsError hstage hactive =>
    refine h.flags rfl rfl ?_ (fun _ _ => hactive)
    simp only [stopping,hstage,Stage.isRunning]
  | polls hget hpoll =>
    obtain ⟨hwired,hsignals,hphase⟩ := (h.wired _ _ hget).moves (Driver.moves_of_poll hpoll)
    exact h.driver _ hget hwired hsignals (fun _ => hphase)
  | drops hget hphase =>
    exact h.driver s.reported hget (h.wired _ _ hget).discard rfl (fun _ => hphase)

end Kept

theorem runs_kept {server : Serve} {s : Lifecycle} (h : Runs server init s) : Kept server s :=
  Reaches.invariant (fun hkept _ hstep => hkept.change (change_of_step hstep)) (kept_init server) h

end Lifecycle
end H12Tiny.Server
