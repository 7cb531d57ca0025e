import H12Tiny.Foundation.Transitions
import H12Tiny.Sync.Bytes
import Mathlib.Data.List.Range

/-! # Racing the resolved addresses

`connect_resolved_addresses` and its helpers in the client's `connect.rs`, as a state
machine: between two points at which the function waits, it runs on its own, and what ends
a wait is an attempt that completes or the timer. A candidate is an address with its
position in the interleaved list. The candidates started so far are recorded in the order
in which they were started; the source keeps no such record.
-/
namespace H12Tiny.Connect
open Sync (IoError)

inductive SocketAddr
  | v4 (ip : BitVec 32) (port : UInt16)
  | v6 (ip : BitVec 128) (port : UInt16) (flowinfo scopeId : UInt32)
  deriving DecidableEq

def SocketAddr.isIpv6 : SocketAddr → Bool
  | v4 .. => false
  | v6 .. => true

def interleave : List SocketAddr → List SocketAddr → List SocketAddr
  | [], ipv4 => ipv4
  | address :: ipv6, [] => address :: interleave ipv6 []
  | address :: ipv6, other :: ipv4 => address :: other :: interleave ipv6 ipv4

def interleaveAddressFamilies (addresses : List SocketAddr) : List SocketAddr :=
  interleave (addresses.filter SocketAddr.isIpv6) (addresses.filter fun address => !address.isIpv6)

def hasBothAddressFamilies (addresses : List SocketAddr) : Bool :=
  addresses.any SocketAddr.isIpv6 && addresses.any fun address => !address.isIpv6

def noConnectedAddress (lastError : Option IoError) : IoError :=
  lastError.getD ⟨.invalidInput,"could not connect to any of the resolved addresses"⟩

structure Candidate where
  position : ℕ
  address : SocketAddr
  deriving DecidableEq

def candidates (addresses : List SocketAddr) : List Candidate :=
  (interleaveAddressFamilies addresses).zipIdx.map fun entry => ⟨entry.2,entry.1⟩

/-- Where the function waits: in the serial loop, in the racing loop with the next
candidate already taken from the iterator, or in the last loop. -/
inductive Stage (S : Type)
  | serial (rest : List Candidate)
  | racing (next : Candidate) (rest : List Candidate)
  | draining
  | returned (result : Except IoError S)

structure State (S : Type) where
  stage : Stage S
  attempts : List Candidate
  lastError : Option IoError
  started : List Candidate

inductive Event (S : Type)
  | succeeded (position : ℕ) (stream : S)
  | failed (position : ℕ) (error : IoError)
  | elapsed

section Machine
variable {S : Type}

namespace State

def start (s : State S) (candidate : Candidate) : State S :=
  { s with attempts := s.attempts ++ [candidate], started := s.started ++ [candidate] }

def finish (s : State S) (result : Except IoError S) : State S :=
  { s with stage := .returned result, attempts := [] }

def serialLoop (s : State S) : List Candidate → State S
  | [] => s.finish (.error (noConnectedAddress s.lastError))
  | candidate :: rest => { s.start candidate with stage := .serial rest }

def drainLoop (s : State S) : State S :=
  if s.attempts = [] then s.finish (.error (noConnectedAddress s.lastError))
  else { s with stage := .draining }

/-- With nothing in flight `attempts.next()` is ready at once, and the next candidate starts. -/
def raceLoop (s : State S) : List Candidate → State S
  | [] => s.drainLoop
  | next :: rest =>
    if s.attempts = [] then (s.start next).raceLoop rest else { s with stage := .racing next rest }

def fail (s : State S) (position : ℕ) (error : IoError) : State S :=
  { s with
    attempts := s.attempts.filter fun candidate => candidate.position ≠ position
    lastError := some error }

/-- What the function does when a wait ends. Only an attempt in flight can complete, and
the timer runs only in the racing loop. -/
def step (s : State S) : Event S → Option (State S)
  | .succeeded position stream =>
    if s.attempts.any (fun candidate => candidate.position = position) then some (s.finish (.ok stream))
    else none
  | .failed position error =>
    if s.attempts.any (fun candidate => candidate.position = position) then
      match s.stage with
      | .serial rest => some ((s.fail position error).serialLoop rest)
      | .racing next rest => some (((s.fail position error).start next).raceLoop rest)
      | .draining => some (s.fail position error).drainLoop
      | .returned _ => none
    else none
  | .elapsed =>
    match s.stage with
    | .racing next rest => some ((s.start next).raceLoop rest)
    | _ => none

end State

def initial : State S := ⟨.draining,[],none,[]⟩

def isSerial (addresses : List SocketAddr) (happyEyeballsTimeout : Option ℕ) : Bool :=
  happyEyeballsTimeout.isNone || !hasBothAddressFamilies (interleaveAddressFamilies addresses)

def connectResolvedAddresses (addresses : List SocketAddr) (happyEyeballsTimeout : Option ℕ) : State S :=
  if isSerial addresses happyEyeballsTimeout then initial.serialLoop (candidates addresses)
  else
    match candidates addresses with
    | [] => initial.finish (.error (noConnectedAddress none))
    | first :: rest => (initial.start first).raceLoop rest

end Machine

section Order

theorem interleave_perm (ipv6 ipv4 : List SocketAddr) : (interleave ipv6 ipv4).Perm (ipv6 ++ ipv4) := by
  induction ipv6, ipv4 using interleave.induct with
  | case1 ipv4 => exact List.Perm.refl _
  | case2 address ipv6 ih => exact ih.cons _
  | case3 address ipv6 other ipv4 ih =>
    rw [interleave,List.cons_append]
    refine List.Perm.cons _ ((ih.cons other).trans ?_)
    exact List.perm_middle.symm

theorem interleaveAddressFamilies_perm (addresses : List SocketAddr) :
    (interleaveAddressFamilies addresses).Perm addresses :=
  (interleave_perm _ _).trans (List.filter_append_perm _ _)

theorem interleave_filter {ipv6 ipv4 : List SocketAddr} (hsix : ∀ address ∈ ipv6, address.isIpv6 = true)
    (hfour : ∀ address ∈ ipv4, address.isIpv6 = false) :
    (interleave ipv6 ipv4).filter SocketAddr.isIpv6 = ipv6 ∧
      (interleave ipv6 ipv4).filter (fun address => !address.isIpv6) = ipv4 := by
  induction ipv6, ipv4 using interleave.induct with
  | case1 ipv4 =>
    refine ⟨List.filter_eq_nil_iff.mpr fun address hmem => by simp [hfour address hmem],?_⟩
    exact List.filter_eq_self.mpr fun address hmem => by simp [hfour address hmem]
  | case2 address ipv6 ih =>
    obtain ⟨haddress,hrest⟩ := List.forall_mem_cons.mp hsix
    have hqueues := ih hrest hfour
    simp only [interleave,List.filter_cons,haddress,hqueues]
    exact ⟨rfl,rfl⟩
  | case3 address ipv6 other ipv4 ih =>
    obtain ⟨haddress,hrest⟩ := List.forall_mem_cons.mp hsix
    obtain ⟨hother,hothers⟩ := List.forall_mem_cons.mp hfour
    have hqueues := ih hrest hothers
    simp only [interleave,List.filter_cons,haddress,hother,hqueues]
    exact ⟨rfl,rfl⟩

theorem interleave_getElem {ipv6 ipv4 : List SocketAddr} {i : ℕ} (hsix : i < ipv6.length)
    (hfour : i < ipv4.length) :
    (interleave ipv6 ipv4)[2 * i]? = ipv6[i]? ∧ (interleave ipv6 ipv4)[2 * i + 1]? = ipv4[i]? := by
  induction ipv6, ipv4 using interleave.induct generalizing i with
  | case1 ipv4 => exact absurd hsix (Nat.not_lt_zero i)
  | case2 address ipv6 ih => exact absurd hfour (Nat.not_lt_zero i)
  | case3 address ipv6 other ipv4 ih =>
    cases i with
    | zero => exact ⟨rfl,rfl⟩
    | succ i => exact ih (Nat.lt_of_succ_lt_succ hsix) (Nat.lt_of_succ_lt_succ hfour)

theorem interleave_nil (ipv6 : List SocketAddr) : interleave ipv6 [] = ipv6 := by
  induction ipv6 with
  | nil => rfl
  | cons address ipv6 ih => exact congrArg (address :: ·) ih

theorem interleave_head {ipv6 ipv4 : List SocketAddr} (hsix : ipv6 ≠ []) :
    (interleave ipv6 ipv4).head? = ipv6.head? := by
  cases ipv6 with
  | nil => exact absurd rfl hsix
  | cons address ipv6 => cases ipv4 <;> rfl

theorem interleaveAddressFamilies_filter (addresses : List SocketAddr) :
    (interleaveAddressFamilies addresses).filter SocketAddr.isIpv6 = addresses.filter SocketAddr.isIpv6 ∧
      (interleaveAddressFamilies addresses).filter (fun address => !address.isIpv6) =
        addresses.filter fun address => !address.isIpv6 := by
  apply interleave_filter
  · intro address hmem
    exact (List.mem_filter.mp hmem).2
  · intro address hmem
    simpa using (List.mem_filter.mp hmem).2

theorem interleaveAddressFamilies_head {addresses : List SocketAddr}
    (hsix : ∃ address ∈ addresses, address.isIpv6 = true) :
    ∃ first, (interleaveAddressFamilies addresses).head? = some first ∧ first.isIpv6 = true := by
  obtain ⟨address,hmem,haddress⟩ := hsix
  have hqueue : address ∈ addresses.filter SocketAddr.isIpv6 := List.mem_filter.mpr ⟨hmem,haddress⟩
  have hnonempty := List.ne_nil_of_mem hqueue
  refine ⟨(addresses.filter SocketAddr.isIpv6).head hnonempty,?_,?_⟩
  · exact (interleave_head hnonempty).trans (List.head?_eq_some_head hnonempty)
  · exact (List.mem_filter.mp (List.head_mem hnonempty)).2

theorem interleaveAddressFamilies_single {addresses : List SocketAddr} {six : Bool}
    (hsame : ∀ address ∈ addresses, address.isIpv6 = six) : interleaveAddressFamilies addresses = addresses := by
  have hkept : addresses.filter (fun address => address.isIpv6 == six) = addresses :=
    List.filter_eq_self.mpr fun address hmem => beq_iff_eq.mpr (hsame address hmem)
  have hdropped : addresses.filter (fun address => address.isIpv6 == !six) = [] :=
    List.filter_eq_nil_iff.mpr fun address hmem => by simp [hsame address hmem]
  cases six with
  | false =>
    simp only [beq_false,Bool.not_false,beq_true] at hkept hdropped
    rw [interleaveAddressFamilies,hdropped,hkept]
    rfl
  | true =>
    simp only [beq_false,Bool.not_true,beq_true] at hkept hdropped
    rw [interleaveAddressFamilies,hdropped,hkept]
    exact interleave_nil addresses

/-- The candidates are the resolved addresses in another order: the families alternate from
an IPv6 address on, and neither is reordered in itself. -/
theorem interleaveAddressFamilies_order (addresses : List SocketAddr) :
    (interleaveAddressFamilies addresses).Perm addresses ∧
      ((interleaveAddressFamilies addresses).filter SocketAddr.isIpv6 = addresses.filter SocketAddr.isIpv6 ∧
        (interleaveAddressFamilies addresses).filter (fun address => !address.isIpv6) =
          addresses.filter fun address => !address.isIpv6) ∧
      ((∃ address ∈ addresses, address.isIpv6 = true) →
        ∃ first, (interleaveAddressFamilies addresses).head? = some first ∧ first.isIpv6 = true) ∧
      (∀ i, i < (addresses.filter SocketAddr.isIpv6).length →
        i < (addresses.filter fun address => !address.isIpv6).length →
        (interleaveAddressFamilies addresses)[2 * i]? = (addresses.filter SocketAddr.isIpv6)[i]? ∧
          (interleaveAddressFamilies addresses)[2 * i + 1]? =
            (addresses.filter fun address => !address.isIpv6)[i]?) ∧
      ∀ six, (∀ address ∈ addresses, address.isIpv6 = six) → interleaveAddressFamilies addresses = addresses :=
  ⟨interleaveAddressFamilies_perm addresses,interleaveAddressFamilies_filter addresses,
    interleaveAddressFamilies_head,fun _ hsix hfour => interleave_getElem hsix hfour,
    fun _ => interleaveAddressFamilies_single⟩

theorem candidates_address (addresses : List SocketAddr) :
    (candidates addresses).map Candidate.address = interleaveAddressFamilies addresses := by
  simp [candidates,Function.comp_def]

theorem candidates_position (addresses : List SocketAddr) :
    (candidates addresses).map Candidate.position = List.range (candidates addresses).length := by
  simp [candidates,Function.comp_def,List.range_eq_range']

end Order

section Invariant
variable {S : Type}

def Event.failure : Event S → Option IoError
  | failed _ error => some error
  | _ => none

/-- What holds of the candidates at every point of the function: those in `rest` are still to
be started, and of the others each is in flight or has failed. -/
structure Base (all : List Candidate) (events : List (Event S)) (s : State S) (rest : List Candidate) :
    Prop where
  split : all = s.started ++ rest
  launched : ∀ candidate ∈ s.attempts, candidate ∈ s.started
  settled : ∀ candidate ∈ s.started, candidate ∈ s.attempts ∨ ∃ error, .failed candidate.position error ∈ events
  lastError : s.lastError = (events.filterMap Event.failure).getLast?

/-- What holds where the function waits and when it has returned. -/
def Inv (all : List Candidate) (serial : Bool) (events : List (Event S)) (s : State S) : Prop :=
  match s.stage with
  | .serial rest => serial = true ∧ Base all events s rest ∧ s.attempts.length = 1
  | .racing next rest => serial = false ∧ Base all events s (next :: rest) ∧ s.attempts ≠ []
  | .draining => serial = false ∧ Base all events s [] ∧ s.attempts ≠ []
  | .returned (.ok stream) => s.attempts = [] ∧ s.started <+: all ∧
      ∃ candidate ∈ s.started, events.getLast? = some (.succeeded candidate.position stream)
  | .returned (.error error) => s.attempts = [] ∧ s.started = all ∧
      (∀ candidate ∈ all, ∃ e, .failed candidate.position e ∈ events) ∧
      error = noConnectedAddress (events.filterMap Event.failure).getLast?

variable {all rest : List Candidate} {serial : Bool} {events : List (Event S)} {s t : State S}

theorem Base.start {candidate : Candidate} (h : Base all events s (candidate :: rest)) :
    Base all events (s.start candidate) rest := by
  refine ⟨by simpa [State.start] using h.split,?_,?_,h.lastError⟩
  · intro c hc
    rcases List.mem_append.mp hc with hc | hc
    · exact List.mem_append_left _ (h.launched c hc)
    · exact List.mem_append_right _ hc
  · intro c hc
    rcases List.mem_append.mp hc with hc | hc
    · exact (h.settled c hc).imp_left (List.mem_append_left _)
    · exact .inl (List.mem_append_right _ hc)

theorem Base.elapsed (h : Base all events s rest) : Base all (events ++ [.elapsed]) s rest := by
  refine ⟨h.split,h.launched,?_,?_⟩
  · intro c hc
    exact (h.settled c hc).imp_right fun ⟨error,he⟩ => ⟨error,List.mem_append_left _ he⟩
  · rw [h.lastError]
    simp [Event.failure]

theorem Base.fail (h : Base all events s rest) (position : ℕ) (error : IoError) :
    Base all (events ++ [.failed position error]) (s.fail position error) rest := by
  refine ⟨h.split,?_,?_,?_⟩
  · intro c hc
    exact h.launched c (List.mem_filter.mp hc).1
  · intro c hc
    rcases h.settled c hc with hin | ⟨e,he⟩
    · by_cases hp : c.position = position
      · exact .inr ⟨error,List.mem_append_right _ (by rw [hp]; exact List.mem_singleton_self _)⟩
      · exact .inl (List.mem_filter.mpr ⟨hin,by simpa using hp⟩)
    · exact .inr ⟨e,List.mem_append_left _ he⟩
  · simp [State.fail,Event.failure]

theorem Base.finish (h : Base all events s []) (hnone : s.attempts = []) :
    Inv all serial events (s.finish (.error (noConnectedAddress s.lastError))) := by
  have hall : all = s.started := by simpa using h.split
  refine ⟨rfl,hall.symm,?_,by rw [h.lastError]⟩
  intro c hc
  rcases h.settled c (hall ▸ hc) with hin | hfailed
  · rw [hnone] at hin
    cases hin
  · exact hfailed

theorem serialLoop_inv (h : Base all events s rest) (hnone : s.attempts = []) :
    Inv all true events (s.serialLoop rest) := by
  cases rest with
  | nil => exact h.finish hnone
  | cons candidate rest =>
    have hstart := h.start
    refine ⟨rfl,⟨hstart.split,hstart.launched,hstart.settled,hstart.lastError⟩,?_⟩
    change (s.attempts ++ [candidate]).length = 1
    rw [hnone]
    rfl

theorem drainLoop_inv (h : Base all events s []) : Inv all false events s.drainLoop := by
  unfold State.drainLoop
  split
  next hnone => exact h.finish hnone
  next hne => exact ⟨rfl,⟨h.split,h.launched,h.settled,h.lastError⟩,hne⟩

theorem raceLoop_inv (h : Base all events s rest) : Inv all false events (s.raceLoop rest) := by
  induction rest generalizing s with
  | nil => exact drainLoop_inv h
  | cons next rest ih =>
    unfold State.raceLoop
    split
    · exact ih h.start
    next hne => exact ⟨rfl,⟨h.split,h.launched,h.settled,h.lastError⟩,hne⟩

theorem fail_single {position : ℕ} (error : IoError) (hone : s.attempts.length = 1)
    (hin : s.attempts.any (fun candidate => candidate.position = position) = true) :
    (s.fail position error).attempts = [] := by
  obtain ⟨candidate,hc⟩ := List.length_eq_one_iff.mp hone
  rw [hc,List.any_cons,List.any_nil,Bool.or_false,decide_eq_true_eq] at hin
  simp [State.fail,hc,hin]

theorem Base.succeeded (h : Base all events s rest) {position : ℕ} (stream : S)
    (hin : s.attempts.any (fun candidate => candidate.position = position) = true) :
    Inv all serial (events ++ [.succeeded position stream]) (s.finish (.ok stream)) := by
  obtain ⟨candidate,hc,hp⟩ := List.any_eq_true.mp hin
  refine ⟨rfl,⟨rest,h.split.symm⟩,candidate,h.launched candidate hc,?_⟩
  rw [of_decide_eq_true hp,List.getLast?_concat]

inductive Transition (s : State S) : Event S → State S → Prop
  | succeeded {position : ℕ} {stream : S} :
      s.attempts.any (fun candidate => candidate.position = position) = true →
      Transition s (.succeeded position stream) (s.finish (.ok stream))
  | failedSerial {position : ℕ} {error : IoError} {rest : List Candidate} :
      s.attempts.any (fun candidate => candidate.position = position) = true → s.stage = .serial rest →
      Transition s (.failed position error) ((s.fail position error).serialLoop rest)
  | failedRacing {position : ℕ} {error : IoError} {next : Candidate} {rest : List Candidate} :
      s.attempts.any (fun candidate => candidate.position = position) = true → s.stage = .racing next rest →
      Transition s (.failed position error) (((s.fail position error).start next).raceLoop rest)
  | failedDraining {position : ℕ} {error : IoError} :
      s.attempts.any (fun candidate => candidate.position = position) = true → s.stage = .draining →
      Transition s (.failed position error) (s.fail position error).drainLoop
  | elapsed {next : Candidate} {rest : List Candidate} : s.stage = .racing next rest →
      Transition s .elapsed ((s.start next).raceLoop rest)

theorem step_transition {event : Event S} (h : s.step event = some t) : Transition s event t := by
  cases event with
  | succeeded position stream =>
    simp only [State.step] at h
    split at h
    next hin =>
      cases h
      exact .succeeded hin
    next => cases h
  | failed position error =>
    simp only [State.step] at h
    split at h
    next hin =>
      split at h
      next rest hstage =>
        cases h
        exact .failedSerial hin hstage
      next next rest hstage =>
        cases h
        exact .failedRacing hin hstage
      next hstage =>
        cases h
        exact .failedDraining hin hstage
      next => cases h
    next => cases h
  | elapsed =>
    simp only [State.step] at h
    split at h
    next next rest hstage =>
      cases h
      exact .elapsed hstage
    next => cases h

theorem Transition.inv {event : Event S} (ht : Transition s event t) (h : Inv all serial events s) :
    Inv all serial (events ++ [event]) t := by
  unfold Inv at h
  cases ht with
  | @succeeded position stream hin =>
    cases hstage : s.stage with
    | serial rest =>
      rw [hstage] at h
      exact h.2.1.succeeded stream hin
    | racing next rest =>
      rw [hstage] at h
      exact h.2.1.succeeded stream hin
    | draining =>
      rw [hstage] at h
      exact h.2.1.succeeded stream hin
    | returned result =>
      -- Nothing is in flight once the function has returned.
      have hnone : s.attempts = [] := by
        rw [hstage] at h
        cases result with
        | ok stream => exact h.1
        | error error => exact h.1
      rw [hnone] at hin
      cases hin
  | failedSerial hin hstage =>
    rw [hstage] at h
    obtain ⟨rfl,hbase,hone⟩ := h
    exact serialLoop_inv (hbase.fail _ _) (fail_single _ hone hin)
  | failedRacing hin hstage =>
    rw [hstage] at h
    obtain ⟨rfl,hbase,_⟩ := h
    exact raceLoop_inv (hbase.fail _ _).start
  | failedDraining hin hstage =>
    rw [hstage] at h
    obtain ⟨rfl,hbase,_⟩ := h
    exact drainLoop_inv (hbase.fail _ _)
  | elapsed hstage =>
    rw [hstage] at h
    obtain ⟨rfl,hbase,_⟩ := h
    exact raceLoop_inv hbase.elapsed.start

theorem initial_base (all : List Candidate) : Base all [] (initial : State S) all :=
  ⟨rfl,List.forall_mem_nil _,List.forall_mem_nil _,rfl⟩

theorem connectResolvedAddresses_inv (addresses : List SocketAddr) (happyEyeballsTimeout : Option ℕ) :
    Inv (candidates addresses) (isSerial addresses happyEyeballsTimeout) []
      (connectResolvedAddresses addresses happyEyeballsTimeout : State S) := by
  unfold connectResolvedAddresses
  cases isSerial addresses happyEyeballsTimeout with
  | true => exact serialLoop_inv (initial_base _) rfl
  | false =>
    have hbase := initial_base (S := S) (candidates addresses)
    rw [if_neg Bool.false_ne_true]
    split
    next hnil =>
      rw [hnil] at hbase ⊢
      exact hbase.finish rfl
    next first rest hcons =>
      rw [hcons] at hbase ⊢
      exact raceLoop_inv hbase.start

theorem trace_inv {addresses : List SocketAddr} {happyEyeballsTimeout : Option ℕ}
    (h : Trace State.step (connectResolvedAddresses addresses happyEyeballsTimeout) events s) :
    Inv (candidates addresses) (isSerial addresses happyEyeballsTimeout) events s := by
  induction h with
  | nil => exact connectResolvedAddresses_inv addresses happyEyeballsTimeout
  | snoc _ hstep ih => exact (step_transition hstep).inv ih

theorem Inv.started_first (h : Inv all serial events s) : s.started <+: all := by
  unfold Inv at h
  split at h
  · exact ⟨_,h.2.1.split.symm⟩
  · exact ⟨_,h.2.1.split.symm⟩
  · exact ⟨_,h.2.1.split.symm⟩
  · exact h.2.1
  · exact ⟨[],by rw [List.append_nil,h.2.1]⟩

theorem Inv.inFlight (h : Inv all serial events s) :
    (serial = true → s.attempts.length ≤ 1) ∧
    (serial = false → (∀ result, s.stage ≠ .returned result) → s.attempts ≠ []) := by
  unfold Inv at h
  split at h
  next =>
    obtain ⟨rfl,_,hone⟩ := h
    exact ⟨fun _ => hone.le,nofun⟩
  next =>
    obtain ⟨rfl,_,hne⟩ := h
    exact ⟨nofun,fun _ _ => hne⟩
  next =>
    obtain ⟨rfl,_,hne⟩ := h
    exact ⟨nofun,fun _ _ => hne⟩
  next hstage => exact ⟨fun _ => by simp [h.1],fun _ hlive => absurd hstage (hlive _)⟩
  next hstage => exact ⟨fun _ => by simp [h.1],fun _ hlive => absurd hstage (hlive _)⟩

theorem Inv.returned_error (h : Inv all serial events s) {error : IoError}
    (hstage : s.stage = .returned (.error error)) :
    s.started = all ∧ (∀ candidate ∈ all, ∃ e, .failed candidate.position e ∈ events) ∧
    (all = [] ∧ error = noConnectedAddress none ∨ (events.filterMap Event.failure).getLast? = some error) := by
  unfold Inv at h
  rw [hstage] at h
  obtain ⟨_,hstarted,hfailed,herror⟩ := h
  refine ⟨hstarted,hfailed,?_⟩
  cases hlast : (events.filterMap Event.failure).getLast? with
  | some e =>
    rw [hlast] at herror
    exact .inr (congrArg some herror.symm)
  | none =>
    rw [hlast] at herror
    refine .inl ⟨List.eq_nil_iff_forall_not_mem.mpr fun candidate hc => ?_,herror⟩
    obtain ⟨e,he⟩ := hfailed candidate hc
    have hmem : e ∈ events.filterMap Event.failure := List.mem_filterMap.mpr ⟨_,he,rfl⟩
    rw [List.getLast?_eq_none_iff.mp hlast] at hmem
    cases hmem

/-- While the function waits, what is in flight was started, and of what was started the rest
has failed. -/
theorem Inv.waiting (h : Inv all serial events s) (hlive : ∀ result, s.stage ≠ .returned result) :
    s.attempts ≠ [] ∧ (∀ candidate ∈ s.attempts, candidate ∈ s.started) ∧
    ∀ candidate ∈ s.started, candidate ∈ s.attempts ∨ ∃ error, .failed candidate.position error ∈ events := by
  unfold Inv at h
  split at h
  next =>
    obtain ⟨_,hbase,hone⟩ := h
    exact ⟨List.ne_nil_of_length_pos (by omega),hbase.launched,hbase.settled⟩
  next => exact ⟨h.2.2,h.2.1.launched,h.2.1.settled⟩
  next => exact ⟨h.2.2,h.2.1.launched,h.2.1.settled⟩
  next hstage => exact absurd hstage (hlive _)
  next hstage => exact absurd hstage (hlive _)

theorem Inv.started_ne (h : Inv all serial events s) (hne : all ≠ []) : s.started ≠ [] := by
  by_cases hlive : ∃ result, s.stage = .returned result
  · obtain ⟨result,hstage⟩ := hlive
    unfold Inv at h
    rw [hstage] at h
    cases result with
    | ok stream =>
      obtain ⟨_,_,candidate,hmem,_⟩ := h
      exact List.ne_nil_of_mem hmem
    | error error =>
      rw [h.2.1]
      exact hne
  · obtain ⟨hflight,hlaunched,_⟩ := h.waiting fun result hstage => hlive ⟨result,hstage⟩
    obtain ⟨candidate,_,hc⟩ := List.exists_cons_of_ne_nil hflight
    exact List.ne_nil_of_mem (hlaunched candidate (hc ▸ List.mem_cons_self))

theorem Inv.returned_of_nil (h : Inv [] serial events s) (hevents : events = []) :
    s.stage = .returned (.error (noConnectedAddress none)) := by
  have hstarted : s.started = [] := List.prefix_nil.mp h.started_first
  by_cases hlive : ∃ result, s.stage = .returned result
  · obtain ⟨result,hstage⟩ := hlive
    unfold Inv at h
    rw [hstage] at h
    cases result with
    | ok stream =>
      obtain ⟨_,_,candidate,hmem,_⟩ := h
      rw [hstarted] at hmem
      cases hmem
    | error error =>
      rw [hstage,h.2.2.2,hevents]
      rfl
  · obtain ⟨hflight,hlaunched,_⟩ := h.waiting fun result hstage => hlive ⟨result,hstage⟩
    obtain ⟨candidate,_,hc⟩ := List.exists_cons_of_ne_nil hflight
    have hmem := hlaunched candidate (hc ▸ List.mem_cons_self)
    rw [hstarted] at hmem
    cases hmem

end Invariant

section Progress
variable {S : Type} {events : List (Event S)} {s t : State S}

theorem step_handled {candidate : Candidate} (hmem : candidate ∈ s.attempts)
    (hlive : ∀ result, s.stage ≠ .returned result) :
    (∀ stream, ∃ t, s.step (.succeeded candidate.position stream) = some t ∧ t.stage = .returned (.ok stream)) ∧
    ∀ error, (s.step (.failed candidate.position error)).isSome = true := by
  have hin : s.attempts.any (fun other => other.position = candidate.position) = true :=
    List.any_eq_true.mpr ⟨candidate,hmem,decide_eq_true rfl⟩
  constructor
  · intro stream
    exact ⟨s.finish (.ok stream),if_pos hin,rfl⟩
  · intro error
    simp only [State.step,if_pos hin]
    cases hstage : s.stage with
    | serial rest => rfl
    | racing next rest => rfl
    | draining => rfl
    | returned result => exact absurd hstage (hlive result)

def Stage.pending : Stage S → ℕ
  | .serial rest => rest.length
  | .racing _ rest => rest.length + 1
  | .draining => 0
  | .returned _ => 0

/-- A candidate can still be started and complete, an attempt can only complete. -/
def State.weight (s : State S) : ℕ := 2 * s.stage.pending + s.attempts.length

theorem serialLoop_weight (s : State S) (rest : List Candidate) :
    (s.serialLoop rest).weight ≤ 2 * rest.length + s.attempts.length := by
  cases rest with
  | nil => exact Nat.zero_le _
  | cons candidate rest =>
    simp only [State.serialLoop,State.weight,Stage.pending,State.start,List.length_append,List.length_cons,
      List.length_nil]
    omega

theorem drainLoop_weight (s : State S) : s.drainLoop.weight ≤ s.attempts.length := by
  unfold State.drainLoop
  split
  · exact Nat.zero_le _
  · simp [State.weight,Stage.pending]

theorem raceLoop_weight (s : State S) (rest : List Candidate) :
    (s.raceLoop rest).weight ≤ 2 * rest.length + s.attempts.length := by
  induction rest generalizing s with
  | nil => simpa [State.raceLoop] using drainLoop_weight s
  | cons next rest ih =>
    unfold State.raceLoop
    split
    · have hstart := ih (s.start next)
      simp only [State.start,List.length_append,List.length_cons,List.length_nil] at hstart ⊢
      omega
    · simp [State.weight,Stage.pending]

theorem fail_attempts_lt {position : ℕ} (error : IoError)
    (hin : s.attempts.any (fun candidate => candidate.position = position) = true) :
    (s.fail position error).attempts.length < s.attempts.length := by
  obtain ⟨candidate,hmem,hp⟩ := List.any_eq_true.mp hin
  refine List.length_filter_lt_length_iff_exists.mpr ⟨candidate,hmem,?_⟩
  simpa using of_decide_eq_true hp

theorem Transition.weight_lt {event : Event S} (h : Transition s event t) : t.weight < s.weight := by
  cases h with
  | succeeded hin =>
    obtain ⟨candidate,hmem,_⟩ := List.any_eq_true.mp hin
    have hpos := List.length_pos_of_mem hmem
    simp only [State.weight,State.finish,Stage.pending,List.length_nil]
    omega
  | @failedSerial position error rest hin hstage =>
    have hloop := serialLoop_weight (s.fail position error) rest
    have hlt := fail_attempts_lt error hin
    simp only [State.weight,hstage,Stage.pending] at hloop ⊢
    omega
  | @failedRacing position error next rest hin hstage =>
    have hloop := raceLoop_weight ((s.fail position error).start next) rest
    have hlt := fail_attempts_lt error hin
    have hstart : ((s.fail position error).start next).attempts.length =
        (s.fail position error).attempts.length + 1 := List.length_append
    simp only [State.weight,hstage,Stage.pending] at hloop ⊢
    omega
  | @failedDraining position error hin hstage =>
    have hloop := drainLoop_weight (s.fail position error)
    have hlt := fail_attempts_lt error hin
    simp only [State.weight,hstage,Stage.pending] at hloop ⊢
    omega
  | @elapsed next rest hstage =>
    have hloop := raceLoop_weight (s.start next) rest
    have hstart : (s.start next).attempts.length = s.attempts.length + 1 := List.length_append
    simp only [State.weight,hstage,Stage.pending] at hloop ⊢
    omega

theorem candidates_length (addresses : List SocketAddr) : (candidates addresses).length = addresses.length := by
  rw [← List.length_map,candidates_address]
  exact (interleaveAddressFamilies_perm addresses).length_eq

theorem connectResolvedAddresses_weight (addresses : List SocketAddr) (happyEyeballsTimeout : Option ℕ) :
    (connectResolvedAddresses addresses happyEyeballsTimeout : State S).weight ≤ 2 * addresses.length := by
  have hlength := candidates_length addresses
  unfold connectResolvedAddresses
  split
  · have hloop := serialLoop_weight (initial : State S) (candidates addresses)
    simp only [initial,List.length_nil] at hloop ⊢
    omega
  · split
    · exact Nat.zero_le _
    next first rest hcons =>
      have hloop := raceLoop_weight ((initial : State S).start first) rest
      rw [hcons] at hlength
      simp only [initial,State.start,List.nil_append,List.length_cons,List.length_nil] at hloop hlength ⊢
      omega

/-- The function returns after at most two events for each address. -/
theorem trace_length_le {addresses : List SocketAddr} {happyEyeballsTimeout : Option ℕ}
    (h : Trace State.step (connectResolvedAddresses addresses happyEyeballsTimeout) events s) :
    events.length + s.weight ≤ 2 * addresses.length := by
  induction h with
  | nil => simpa using connectResolvedAddresses_weight addresses happyEyeballsTimeout
  | snoc _ hstep ih =>
    have hlt := (step_transition hstep).weight_lt
    rw [List.length_append,List.length_singleton]
    omega

/-- Whatever attempts complete and whenever the timer fires, the candidates are started in the
interleaved order and each once; a stream that is returned is one that an attempt made; an error
is returned only when every candidate has failed; and there is one attempt at a time, or at
least one. Until it returns, the function has an attempt in flight and goes on with whatever
comes of it, and it returns after at most two events for each address. -/
theorem connectResolvedAddresses_tries_all {addresses : List SocketAddr} {happyEyeballsTimeout : Option ℕ}
    (h : Trace State.step (connectResolvedAddresses addresses happyEyeballsTimeout) events s) :
    (interleaveAddressFamilies addresses).Perm addresses ∧
    s.started.map Candidate.address <+: interleaveAddressFamilies addresses ∧
    s.started.map Candidate.position = List.range s.started.length ∧
    (∀ stream, s.stage = .returned (.ok stream) →
      ∃ candidate ∈ s.started, events.getLast? = some (.succeeded candidate.position stream)) ∧
    (∀ error, s.stage = .returned (.error error) →
      s.started.map Candidate.address = interleaveAddressFamilies addresses ∧
      (∀ candidate ∈ s.started, ∃ e, .failed candidate.position e ∈ events) ∧
      (addresses = [] ∧ error = noConnectedAddress none ∨
        (events.filterMap Event.failure).getLast? = some error)) ∧
    (isSerial addresses happyEyeballsTimeout = true → s.attempts.length ≤ 1) ∧
    (isSerial addresses happyEyeballsTimeout = false → (∀ result, s.stage ≠ .returned result) →
      s.attempts ≠ []) ∧
    (addresses = [] → s.stage = .returned (.error (noConnectedAddress none))) ∧
    (addresses ≠ [] → s.started ≠ []) ∧
    ((∀ result, s.stage ≠ .returned result) → s.attempts ≠ [] ∧
      (∀ candidate ∈ s.started, candidate ∈ s.attempts ∨ ∃ e, .failed candidate.position e ∈ events) ∧
      ∀ candidate ∈ s.attempts, candidate ∈ s.started ∧
        (∀ stream, ∃ t, s.step (.succeeded candidate.position stream) = some t ∧
          t.stage = .returned (.ok stream)) ∧
        ∀ error, (s.step (.failed candidate.position error)).isSome = true) ∧
    events.length ≤ 2 * addresses.length := by
  have hinv := trace_inv h
  have hfirst := hinv.started_first
  have hperm := interleaveAddressFamilies_perm addresses
  have hlength := trace_length_le h
  have hnil : candidates addresses = [] ↔ addresses = [] := by
    rw [← List.length_eq_zero_iff,candidates_length,List.length_eq_zero_iff]
  refine ⟨hperm,?_,?_,?_,?_,hinv.inFlight.1,hinv.inFlight.2,?_,?_,?_,by omega⟩
  · rw [← candidates_address]
    exact hfirst.map _
  · have hpositions := hfirst.map Candidate.position
    rw [candidates_position,List.prefix_iff_eq_take,List.length_map,List.take_range] at hpositions
    rw [hpositions,Nat.min_eq_left hfirst.length_le]
  · intro stream hstage
    unfold Inv at hinv
    rw [hstage] at hinv
    exact hinv.2.2
  · intro error hstage
    obtain ⟨hstarted,hfailed,herror⟩ := hinv.returned_error hstage
    refine ⟨by rw [hstarted,candidates_address],hstarted ▸ hfailed,herror.imp_left fun hempty => ?_⟩
    exact ⟨hnil.mp hempty.1,hempty.2⟩
  · intro hempty
    -- With no address there is no event either.
    rw [hempty,List.length_nil] at hlength
    have hevents : events = [] := List.length_eq_zero_iff.mp (by omega)
    exact (hnil.mpr hempty ▸ hinv).returned_of_nil hevents
  · intro hne
    exact hinv.started_ne fun hempty => hne (hnil.mp hempty)
  · intro hlive
    obtain ⟨hflight,hlaunched,hsettled⟩ := hinv.waiting hlive
    refine ⟨hflight,hsettled,fun candidate hmem => ?_⟩
    exact ⟨hlaunched candidate hmem,step_handled hmem hlive⟩

end Progress

/-- One address of each family, and two of the same. -/
def twoFamilies : List SocketAddr := [.v4 1 80,.v6 1 80 0 0]
def oneFamily : List SocketAddr := [.v4 1 80,.v4 2 80]

def refused : IoError := ⟨.other,"refused"⟩
def unreachable : IoError := ⟨.other,"unreachable"⟩

/-- In a race the timer starts the second attempt, the first one fails and the second one
succeeds. One after the other, both attempts fail. -/
theorem connectResolvedAddresses_ran :
    (∃ s : State ℕ, Trace State.step (connectResolvedAddresses twoFamilies (some 1))
        [.elapsed,.failed 0 refused,.succeeded 1 7] s ∧
      s.stage = .returned (.ok 7) ∧
      ∃ candidate ∈ s.started,
        some (Event.succeeded 1 7) = some (Event.succeeded candidate.position 7)) ∧
    (∃ s t : State ℕ, Trace State.step (connectResolvedAddresses oneFamily (some 1)) [.failed 0 refused] s ∧
      s.attempts.length ≤ 1 ∧ s.attempts ≠ [] ∧
      Trace State.step (connectResolvedAddresses oneFamily (some 1))
        [.failed 0 refused,.failed 1 unreachable] t ∧
      t.stage = .returned (.error unreachable) ∧
      t.started.map Candidate.address = interleaveAddressFamilies oneFamily) := by
  constructor
  · have htrace : ∃ s : State ℕ, Trace State.step (connectResolvedAddresses twoFamilies (some 1))
        [.elapsed,.failed 0 refused,.succeeded 1 7] s ∧ s.stage = .returned (.ok 7) :=
      ⟨_,.snoc (.snoc (.snoc .nil rfl) rfl) rfl,rfl⟩
    obtain ⟨s,hs,hstage⟩ := htrace
    exact ⟨s,hs,hstage,(connectResolvedAddresses_tries_all hs).2.2.2.1 7 hstage⟩
  · have htrace : ∃ s t : State ℕ,
        Trace State.step (connectResolvedAddresses oneFamily (some 1)) [.failed 0 refused] s ∧
        s.stage = .serial [] ∧ s.step (.failed 1 unreachable) = some t ∧
        t.stage = .returned (.error unreachable) :=
      ⟨_,_,.snoc .nil rfl,rfl,rfl,rfl⟩
    obtain ⟨s,t,hs,hserial,hstep,hstage⟩ := htrace
    have ht := hs.snoc hstep
    obtain ⟨-,-,-,-,-,hone,-,-,-,hwaits,-⟩ := connectResolvedAddresses_tries_all hs
    obtain ⟨-,-,-,-,herror,-⟩ := connectResolvedAddresses_tries_all ht
    refine ⟨s,t,hs,hone rfl,(hwaits ?_).1,ht,hstage,(herror _ hstage).1⟩
    intro result hreturned
    cases hserial.symm.trans hreturned

end H12Tiny.Connect
