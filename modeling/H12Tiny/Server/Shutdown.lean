import H12Tiny.Server.Drivers

/-! # Shutdown and the connection limit

The lifecycle future drains completely: it returns when no driver is left, with success
behind the shutdown future and with the error of a failed accept, and from then on no
driver is started and every driver it waits for has got one signal. The number of running
drivers is bounded by the entries of `active`, and these by the configured limit.
-/
namespace H12Tiny.Server
open Sync (IoError)

/-- The loop has handled the event that ends it. -/
def Stopped (log : List Event) : Prop := .shutdown ∈ log ∨ ∃ error, .accepted (.error error) ∈ log

theorem Driver.poll_handshake {d : Driver} (h : d.phase = .handshake) : d.poll .pending =
    some (d.select (fun shutdown => finish { d with shutdown := shutdown }),false) := by
  obtain ⟨phase,shutdown,done,signals⟩ := d
  cases h
  rfl

theorem Driver.poll_connection {d : Driver} (h : d.phase = .connection) : d.poll .pending =
    some (d.select (fun shutdown => { d with phase := .draining, shutdown := shutdown }),false) := by
  obtain ⟨phase,shutdown,done,signals⟩ := d
  cases h
  rfl

def Event.goesOn (event : Event) : Prop := event ≠ .shutdown ∧ ∀ error, event ≠ .accepted (.error error)

theorem Event.accepted_goesOn : (Event.accepted (.ok ())).goesOn := by
  constructor
  · intro h
    cases h
  · intro error h
    cases h

theorem Event.done_goesOn (index : ℕ) : (Event.done index).goesOn := by
  constructor
  · intro h
    cases h
  · intro error h
    cases h

theorem Stopped.of_goesOn {log : List Event} {event : Event} (h : Stopped (log ++ [event]))
    (hgoes : event.goesOn) : Stopped log := by
  rcases h with h | ⟨error,h⟩
  · rcases List.mem_append.mp h with h | h
    · exact Or.inl h
    · exact absurd (List.mem_singleton.mp h).symm hgoes.1
  · rcases List.mem_append.mp h with h | h
    · exact Or.inr ⟨error,h⟩
    · exact absurd (List.mem_singleton.mp h).symm (hgoes.2 error)

namespace Lifecycle

/-- The flags of the loop say what its log says. -/
structure Logged (s : Lifecycle) : Prop where
  shut : s.accepting = false → .shutdown ∈ s.log
  returned : s.stage = .returned (.ok ()) → .shutdown ∈ s.log
  failed : ∀ error, s.stage = .draining error ∨ s.stage = .returned (.error error) →
    .accepted (.error error) ∈ s.log
  stopped : Stopped s.log → s.stopping = true

theorem logged_init : Logged init := by
  refine ⟨nofun,nofun,?_,?_⟩
  · rintro error (h | h) <;> cases h
  · rintro (h | ⟨error,h⟩) <;> cases h

variable {server : Serve} {s t : Lifecycle}

theorem Logged.goes (h : Logged s) (haccepting : t.accepting = s.accepting) (hstage : t.stage = s.stage)
    (hlog : t.log = s.log ∨ ∃ event, t.log = s.log ++ [event] ∧ event.goesOn) : Logged t := by
  have hmem : ∀ event, event ∈ s.log → event ∈ t.log := by
    intro event he
    rcases hlog with hlog | ⟨_,hlog,-⟩
    · rw [hlog]
      exact he
    · rw [hlog]
      exact List.mem_append_left _ he
  have hstopping : t.stopping = s.stopping := by rw [stopping,haccepting,hstage]; rfl
  refine ⟨?_,?_,?_,?_⟩
  · rw [haccepting]
    exact fun hs => hmem _ (h.shut hs)
  · rw [hstage]
    exact fun hs => hmem _ (h.returned hs)
  · rw [hstage]
    exact fun error hs => hmem _ (h.failed error hs)
  · intro hs
    rw [hstopping]
    apply h.stopped
    rcases hlog with hlog | ⟨event,hlog,hgoes⟩
    · rw [← hlog]
      exact hs
    · rw [hlog] at hs
      exact hs.of_goesOn hgoes

theorem Logged.change (h : Logged s) (hchange : Change server s t) : Logged t := by
  cases hchange with
  | waits => exact h
  | stops hstage haccepting =>
    have hlast : Event.shutdown ∈ s.log ++ [Event.shutdown] := List.mem_append_right _ List.mem_cons_self
    refine ⟨fun _ => hlast,fun _ => hlast,?_,fun _ => rfl⟩
    intro error hs
    change s.stage = _ ∨ s.stage = _ at hs
    rw [hstage] at hs
    rcases hs with hs | hs <;> cases hs
  | @fails error hstage haccepting =>
    refine ⟨?_,?_,?_,fun _ => congrArg not (Bool.and_false s.accepting)⟩
    · intro hs
      change s.accepting = false at hs
      rw [haccepting] at hs
      cases hs
    · intro hs
      cases hs
    · intro error' hs
      rcases hs with hs | hs <;> cases hs
      exact List.mem_append_right _ List.mem_cons_self
  | rejects hstage haccepting hfull => exact h.goes rfl rfl (Or.inr ⟨_,rfl,Event.accepted_goesOn⟩)
  | starts hstage haccepting hroom => exact h.goes rfl rfl (Or.inr ⟨_,rfl,Event.accepted_goesOn⟩)
  | reaps hget hready hlog =>
    refine h.goes rfl rfl ?_
    rcases hlog with rfl | rfl
    · exact Or.inl rfl
    · exact Or.inr ⟨_,rfl,Event.done_goesOn _⟩
  | returns hstage haccepting hactive =>
    refine ⟨h.shut,fun _ => h.shut haccepting,?_,?_⟩
    · intro error hs
      rcases hs with hs | hs <;> cases hs
    · intro _
      simp only [stopping,haccepting,Bool.false_and,Bool.not_false]
  | @returnsError error hstage hactive =>
    refine ⟨h.shut,?_,?_,fun _ => congrArg not (Bool.and_false s.accepting)⟩
    · intro hs
      cases hs
    · intro error' hs
      rcases hs with hs | hs <;> cases hs
      exact h.failed error (Or.inl hstage)
  | polls hget hpoll => exact h.goes rfl rfl (Or.inl rfl)
  | drops hget hphase => exact h.goes rfl rfl (Or.inl rfl)

theorem runs_logged (h : Runs server init s) : Logged s :=
  Reaches.invariant (fun hlogged _ hstep => hlogged.change (change_of_step hstep)) logged_init h

theorem Kept.frozen (h : Kept server s) (hstopping : s.stopping = true) (hchange : Change server s t) :
    t.stopping = true ∧ t.drivers.next = s.drivers.next ∧
      ∀ i d', t.drivers.get i = some d' → ∃ d, s.drivers.get i = some d ∧ d'.signals = d.signals := by
  have hrunning : ∀ {P : Prop}, s.stage = .running → s.accepting = true → P := by
    intro P hstage haccepting
    rw [stopping_eq_false hstage haccepting] at hstopping
    cases hstopping
  cases hchange with
  | waits => exact ⟨hstopping,rfl,fun i d hd => ⟨d,hd,rfl⟩⟩
  | stops hstage haccepting => exact hrunning hstage haccepting
  | fails hstage haccepting => exact hrunning hstage haccepting
  | rejects hstage haccepting hfull => exact hrunning hstage haccepting
  | starts hstage haccepting hroom => exact hrunning hstage haccepting
  | @reaps index connection log hget hready hlog =>
    have hown := h.owned connection (List.mem_of_getElem? hget)
    rw [hstopping,if_pos rfl] at hown
    refine ⟨hstopping,?_,?_⟩
    · simp only [Lifecycle.reaped,dropSenderOne,hown,Table.next_modify]
    · intro i d' hd'
      simp only [Lifecycle.reaped,dropSenderOne,hown] at hd'
      rcases Table.get_modify_cases hd' with ⟨rfl,d,hd,rfl⟩ | ⟨-,hold⟩
      · exact ⟨d,hd,rfl⟩
      · exact ⟨d',hold,rfl⟩
  | returns hstage haccepting hactive =>
    refine ⟨?_,rfl,fun i d hd => ⟨d,hd,rfl⟩⟩
    simp only [stopping,haccepting,Bool.false_and,Bool.not_false]
  | returnsError hstage hactive =>
    exact ⟨congrArg not (Bool.and_false s.accepting),rfl,fun i d hd => ⟨d,hd,rfl⟩⟩
  | @polls i d d' progress hooked reported hget hpoll =>
    refine ⟨hstopping,rfl,?_⟩
    intro j e he
    rcases Table.get_modify_cases he with ⟨rfl,d₁,hd₁,rfl⟩ | ⟨-,hold⟩
    · exact ⟨d,hget,((h.wired _ _ hget).moves (Driver.moves_of_poll hpoll)).2.1⟩
    · exact ⟨e,hold,rfl⟩
  | @drops i d hget hphase =>
    refine ⟨hstopping,rfl,?_⟩
    intro j e he
    rcases Table.get_modify_cases he with ⟨rfl,d₁,hd₁,rfl⟩ | ⟨-,hold⟩
    · exact ⟨d₁,hd₁,rfl⟩
    · exact ⟨e,hold,rfl⟩

theorem Kept.frozen_runs (h : Kept server s) (hstopping : s.stopping = true) {u : Lifecycle}
    (hrun : Runs server s u) :
    u.drivers.next = s.drivers.next ∧
      ∀ i d', u.drivers.get i = some d' → ∃ d, s.drivers.get i = some d ∧ d'.signals = d.signals := by
  have hinv := Reaches.invariant (I := fun u => Kept server u ∧ u.stopping = true ∧
    u.drivers.next = s.drivers.next ∧
      ∀ i d', u.drivers.get i = some d' → ∃ d, s.drivers.get i = some d ∧ d'.signals = d.signals)
    ?_ ⟨h,hstopping,rfl,fun i d hd => ⟨d,hd,rfl⟩⟩ hrun
  · exact hinv.2.2
  · rintro t u action ⟨hkept,hstops,hnext,hsame⟩ - hstep
    have hchange := change_of_step hstep
    obtain ⟨hstops',hnext',hsame'⟩ := hkept.frozen hstops hchange
    refine ⟨hkept.change hchange,hstops',hnext'.trans hnext,?_⟩
    intro i e he
    obtain ⟨d',hd',hsignals'⟩ := hsame' i e he
    obtain ⟨d,hd,hsignals⟩ := hsame i d' hd'
    exact ⟨d,hd,hsignals'.trans hsignals⟩

theorem Kept.ends (h : Kept server s) (hlogged : Logged s) (hchange : Change server s t)
    (hbefore : ¬ Stopped s.log) (hafter : Stopped t.log) :
    t.stopping = true ∧ ∀ i d, t.drivers.get i = some d → d.signals = if i ∈ s.waitedFor then 1 else 0 := by
  have hlater : Logged t := hlogged.change hchange
  refine ⟨hlater.stopped hafter,?_⟩
  have hsent : s.stopping = false → t.drivers = (sendShutdown s).drivers →
      ∀ i d, t.drivers.get i = some d → d.signals = if i ∈ s.waitedFor then 1 else 0 := by
    intro hrunning hdrivers i e he
    rw [hdrivers,sendShutdown,get_signalled s.active (h.senders hrunning) h.nodup s.drivers i] at he
    change (if i ∈ s.waitedFor then _ else _) = some e at he
    split at he
    next hin =>
      obtain ⟨d,hd,rfl⟩ := Option.map_eq_some_iff.mp he
      rw [if_pos hin]
      change d.signals + 1 = 1
      rw [h.quiet hrunning i d hd]
    next hout =>
      rw [if_neg hout]
      exact h.quiet hrunning i e he
  cases hchange with
  | stops hstage haccepting => exact hsent (stopping_eq_false hstage haccepting) rfl
  | fails hstage haccepting => exact hsent (stopping_eq_false hstage haccepting) rfl
  | rejects hstage haccepting hfull => exact absurd (hafter.of_goesOn Event.accepted_goesOn) hbefore
  | starts hstage haccepting hroom => exact absurd (hafter.of_goesOn Event.accepted_goesOn) hbefore
  | reaps hget hready hlog =>
    rcases hlog with rfl | rfl
    · exact absurd hafter hbefore
    · exact absurd (hafter.of_goesOn (Event.done_goesOn _)) hbefore
  | waits => exact absurd hafter hbefore
  | returns hstage haccepting hactive => exact absurd hafter hbefore
  | returnsError hstage hactive => exact absurd hafter hbefore
  | polls hget hpoll => exact absurd hafter hbefore
  | drops hget hphase => exact absurd hafter hbefore

/-- A listening driver that has been signalled observes the signal at its next poll, in
the way of its phase, unless the phase ends by itself. -/
theorem Kept.observes (h : Kept server s) {i : ℕ} {d : Driver} (hget : s.drivers.get i = some d) :
    (d.signals = 1 → d.phase = .handshake →
      ∃ d', d.poll .pending = some (d',false) ∧ d'.phase = .finished) ∧
    (d.signals = 1 → d.phase = .connection →
      ∃ d', d.poll .pending = some (d',false) ∧ d'.phase = .draining) ∧
    (d.signals = 0 → d.phase.listens = true → d.poll .pending = some (d,false)) ∧
    (d.phase = .draining → d.signals = 1) := by
  have hwired := h.wired i d hget
  refine ⟨?_,?_,?_,hwired.draining⟩
  · intro hone hphase
    have hlistens : d.phase.listens = true := by rw [hphase]; rfl
    rcases hwired.select hlistens (fun shutdown => Driver.finish { d with shutdown := shutdown }) with
      ⟨hzero,-⟩ | ⟨-,heq⟩
    · rw [hone] at hzero
      cases hzero
    · exact ⟨_,(Driver.poll_handshake hphase).trans (by rw [heq]),rfl⟩
  · intro hone hphase
    have hlistens : d.phase.listens = true := by rw [hphase]; rfl
    rcases hwired.select hlistens (fun shutdown => { d with phase := .draining, shutdown := shutdown }) with
      ⟨hzero,-⟩ | ⟨-,heq⟩
    · rw [hone] at hzero
      cases hzero
    · exact ⟨_,(Driver.poll_connection hphase).trans (by rw [heq]),rfl⟩
  · intro hzero hlistens
    have hwaits : ∀ signalled, d.select signalled = d := by
      intro signalled
      rcases hwired.select hlistens signalled with ⟨-,heq⟩ | ⟨hone,-⟩
      · exact heq
      · rw [hzero] at hone
        cases hone
    cases hphase : d.phase with
    | handshake => rw [Driver.poll_handshake hphase,hwaits]
    | connection => rw [Driver.poll_connection hphase,hwaits]
    | draining => rw [hphase] at hlistens; cases hlistens
    | finished => rw [hphase] at hlistens; cases hlistens
    | dropped => rw [hphase] at hlistens; cases hlistens

/-- The lifecycle future returns when every driver it started is over; with success behind
the shutdown future, with an error behind the failed accept; behind either of these no
driver is started; every driver waited for at that moment gets one signal and no other
driver gets any; and whichever phase a signalled driver is in, it observes the signal. -/
theorem shutdown_drains (h : Runs server init s) :
    (∀ result, s.stage = .returned result → ∀ i d, s.drivers.get i = some d → d.phase.ended = true) ∧
    (s.stage = .returned (.ok ()) → .shutdown ∈ s.log) ∧
    (∀ error, s.stage = .returned (.error error) → .accepted (.error error) ∈ s.log) ∧
    (Stopped s.log → ∀ u, Runs server s u → u.drivers.next = s.drivers.next) ∧
    (∀ action t, step server s action = some t → ¬ Stopped s.log → Stopped t.log →
      ∀ u, Runs server t u → ∀ i d, u.drivers.get i = some d →
        d.signals = if i ∈ s.waitedFor then 1 else 0) ∧
    ∀ i d, s.drivers.get i = some d →
      (d.phase.ended = false → i ∈ s.waitedFor) ∧
      (d.signals = 1 → d.phase = .handshake →
        ∃ d', d.poll .pending = some (d',false) ∧ d'.phase = .finished) ∧
      (d.signals = 1 → d.phase = .connection →
        ∃ d', d.poll .pending = some (d',false) ∧ d'.phase = .draining) ∧
      (d.signals = 0 → d.phase.listens = true → d.poll .pending = some (d,false)) ∧
      (d.phase = .draining → d.signals = 1) := by
  have hkept := runs_kept h
  have hlogged := runs_logged h
  refine ⟨?_,hlogged.returned,fun error hs => hlogged.failed error (Or.inr hs),?_,?_,?_⟩
  · intro result hstage i d hd
    by_contra hover
    rw [Bool.not_eq_true] at hover
    have hin := hkept.tracked i d hd hover
    rw [waitedFor,hkept.drained result hstage] at hin
    cases hin
  · intro hstopped u hrun
    exact (hkept.frozen_runs (hlogged.stopped hstopped) hrun).1
  · intro action t hstep hbefore hafter u hrun i d hd
    have hchange := change_of_step hstep
    obtain ⟨hstopping,hsignals⟩ := hkept.ends hlogged hchange hbefore hafter
    obtain ⟨d₁,hd₁,hsame⟩ := ((hkept.change hchange).frozen_runs hstopping hrun).2 i d hd
    rw [hsame,hsignals i d₁ hd₁]
  · intro i d hd
    exact ⟨hkept.tracked i d hd,hkept.observes hd⟩

/-- The actions of a TLS server with room for two connections that gets three. The first
finishes its handshake and then drains, and the handshake of the second is cut off. -/
def drainingActions : List Action :=
  [.pass false (.ready (.ok ())),.poll 0 .completed,.pass false (.ready (.ok ())),.pass false (.ready (.ok ())),
    .poll 1 .pending,.pass true .pending,.poll 0 .pending,.poll 1 .pending,.poll 0 .completed,
    .pass false .pending,.pass false .pending,.pass false .pending]

theorem shutdown_drains_handshake :
    ∃ s, runActions (step (runTls (some 2) false)) init drainingActions = some s ∧ s.drivers.next = 2 ∧
      s.stage = .returned (.ok ()) ∧ ∀ i d, s.drivers.get i = some d → d.phase.ended = true := by
  refine ⟨_,rfl,rfl,rfl,?_⟩
  have hrun := Reaches.ofRun (allowedAlong_of_forall (fun _ _ _ => trivial))
    (rfl : runActions (step (runTls (some 2) false)) init drainingActions = some _)
  exact (shutdown_drains hrun).1 _ rfl

theorem reaped_phase {index : ℕ} {connection : Active} {i : ℕ} {e : Driver}
    (h : (reaped s index connection).drivers.get i = some e) :
    ∃ d, s.drivers.get i = some d ∧ e.phase = d.phase := by
  have hfirst : ∀ d', (s.drivers.modify connection.done fun d => { d with done := d.done.poll.2 }).get i = some d' →
      ∃ d, s.drivers.get i = some d ∧ d'.phase = d.phase := by
    intro d' hd'
    rcases Table.get_modify_cases hd' with ⟨rfl,d,hd,rfl⟩ | ⟨-,hold⟩
    · exact ⟨d,hd,rfl⟩
    · exact ⟨d',hold,rfl⟩
  simp only [reaped,dropSenderOne] at h
  split at h
  · rcases Table.get_modify_cases h with ⟨rfl,d',hd',rfl⟩ | ⟨-,hold⟩
    · exact hfirst d' hd'
    · exact hfirst e hold
  · exact hfirst e h

/-- A loop that has stopped and whose drivers are all over returns after as many passes as
it has entries, and one. -/
theorem Kept.returns {s : Lifecycle} (h : Kept server s) (hstopping : s.stopping = true)
    (hstage : ∀ result, s.stage ≠ .returned result)
    (hover : ∀ i d, s.drivers.get i = some d → d.phase.ended = true) :
    ∃ u result, runActions (step server) s (List.replicate (s.active.length + 1) (.pass false .pending)) =
      some u ∧ u.stage = .returned result := by
  induction hn : s.active.length generalizing s with
  | zero =>
    have hactive := List.length_eq_zero_iff.mp hn
    cases hs : s.stage with
    | running =>
      have haccepting : s.accepting = false := by
        by_contra hcontra
        rw [Bool.not_eq_false] at hcontra
        rw [stopping_eq_false hs hcontra] at hstopping
        cases hstopping
      refine ⟨{ s with stage := .returned (.ok ()) },.ok (),?_,rfl⟩
      simp [runActions,step,pass,hs,haccepting,hactive]
    | draining error =>
      refine ⟨{ s with stage := .returned (.error error) },.error error,?_,rfl⟩
      simp [runActions,step,pass,hs,hactive]
    | returned result => exact absurd hs (hstage result)
  | succ n ih =>
    have hne : s.active ≠ [] := by
      intro hnil
      rw [hnil] at hn
      cases hn
    -- The receiver of the first entry is ready, so some entry is found and taken out.
    have hready : ∀ c ∈ s.active, doneReady s.drivers c = true := by
      intro c hc
      obtain ⟨d,hd⟩ := h.known c.done (List.mem_map_of_mem hc)
      rw [doneReady,hd,Option.any_some,decide_eq_true_eq]
      exact (h.wired _ d hd).ready_of_ended (hover _ d hd)
    have hfound : ∃ index, s.firstDone = some index := by
      obtain ⟨c,rest,hcons⟩ := List.exists_cons_of_ne_nil hne
      rw [firstDone,hcons,List.findIdx?_cons,hready c (hcons ▸ List.mem_cons_self)]
      exact ⟨0,rfl⟩
    obtain ⟨index,hindex⟩ := hfound
    obtain ⟨connection,hget,-⟩ := firstDone_get hindex
    have hpass : ∃ log, s.pass server false .pending =
        some { Lifecycle.reaped s index connection with log := log } := by
      cases hs : s.stage with
      | running =>
        refine ⟨s.log ++ [.done index],?_⟩
        simp [pass,hs,hne,pollEvent,hindex,handle,reap_eq hget]
      | draining error =>
        refine ⟨s.log,?_⟩
        simp [pass,hs,hne,hindex,reap_eq hget]
        rfl
      | returned result => exact absurd hs (hstage result)
    obtain ⟨log,hpass⟩ := hpass
    have hlen := (swapRemove_perm hget).length_eq
    rw [List.length_cons,hn] at hlen
    have hphases : ∀ i e, (Lifecycle.reaped s index connection).drivers.get i = some e →
        e.phase.ended = true := by
      intro i e he
      obtain ⟨d,hd,hphase⟩ := reaped_phase he
      rw [hphase]
      exact hover i d hd
    have hnext := h.reaped hget (hready connection (List.mem_of_getElem? hget)) log
    obtain ⟨u,result,hrun,hu⟩ := ih hnext hstopping hstage hphases (Nat.succ.inj hlen)
    refine ⟨u,result,?_,hu⟩
    rw [List.replicate_succ,runActions,step,hpass]
    exact hrun

theorem Change.rejected (hchange : Change server s t) (hlog : t.log = s.log ++ [.accepted (.ok ())])
    (hnext : t.drivers.next = s.drivers.next) : atCapacity server s = true := by
  have hgrows : s.log ≠ s.log ++ [.accepted (.ok ())] := by
    intro hsame
    have hlen := congrArg List.length hsame
    rw [List.length_append,List.length_singleton] at hlen
    omega
  cases hchange with
  | rejects hstage haccepting hfull => exact hfull
  | starts hstage haccepting hroom => exact absurd hnext (Nat.succ_ne_self _)
  | stops hstage haccepting => cases List.append_cancel_left hlog
  | fails hstage haccepting => cases List.append_cancel_left hlog
  | reaps hget hready hdone =>
    rcases hdone with rfl | rfl
    · exact absurd hlog hgrows
    · cases List.append_cancel_left hlog
  | waits => exact absurd hlog hgrows
  | returns hstage haccepting hactive => exact absurd hlog hgrows
  | returnsError hstage hactive => exact absurd hlog hgrows
  | polls hget hpoll => exact absurd hlog hgrows
  | drops hget hphase => exact absurd hlog hgrows

/-- The drivers that run, handshakes included, are at most as many as the entries of
`active`, and these at most as many as the limit; each has exactly one entry; and a
stream is closed without a driver only when the limit is reached. -/
theorem connection_limit {n : ℕ} (hlimit : server.maxConnections = some n) (h : Runs server init s) :
    s.drivers.count (fun d => !d.phase.ended) ≤ s.active.length ∧ s.active.length ≤ n ∧
    (∀ i d, s.drivers.get i = some d → d.phase.ended = false → s.waitedFor.count i = 1) ∧
    ∀ action t, step server s action = some t → t.log = s.log ++ [.accepted (.ok ())] →
      t.drivers.next = s.drivers.next → n ≤ s.active.length := by
  have hkept := runs_kept h
  refine ⟨?_,hkept.limited n hlimit,?_,?_⟩
  · have hsubset : (List.range s.drivers.next).filter
        (fun i => (s.drivers.get i).any fun d => !d.phase.ended) ⊆ s.waitedFor := by
      intro i hi
      have hany := (List.mem_filter.mp hi).2
      cases hd : s.drivers.get i with
      | none => rw [hd] at hany; cases hany
      | some d =>
        rw [hd,Option.any_some,Bool.not_eq_true'] at hany
        exact hkept.tracked i d hd hany
    have hperm := List.subperm_of_subset (List.nodup_range.filter _) hsubset
    rw [Table.count,List.countP_eq_length_filter]
    exact hperm.length_le.trans_eq (List.length_map _)
  · intro i d hd hover
    exact List.count_eq_one_of_mem hkept.nodup (hkept.tracked i d hd hover)
  · intro action t hstep hlog hnext
    have hfull := (change_of_step hstep).rejected hlog hnext
    simp only [atCapacity,hlimit,Option.any_some,decide_eq_true_eq] at hfull
    exact hfull

/-- A plain server with room for one connection gets two. -/
theorem connection_limit_reached :
    ∃ s t, runActions (step (run (some 1) false)) init [.pass false (.ready (.ok ()))] = some s ∧
      step (run (some 1) false) s (.pass false (.ready (.ok ()))) = some t ∧
      t.drivers.next = s.drivers.next ∧ 1 ≤ s.active.length ∧ s.active.length ≤ 1 := by
  refine ⟨_,_,rfl,rfl,rfl,?_⟩
  have hrun := Reaches.ofRun (allowedAlong_of_forall (fun _ _ _ => trivial))
    (rfl : runActions (step (run (some 1) false)) init [.pass false (.ready (.ok ()))] = some _)
  have hlimit := connection_limit rfl hrun
  exact ⟨hlimit.2.2.2 (.pass false (.ready (.ok ()))) _ rfl rfl rfl,hlimit.2.1⟩

end Lifecycle
end H12Tiny.Server
