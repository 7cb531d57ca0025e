import H12Tiny.Foundation.Polled
import H12Tiny.Web.Router

/-! # Deadlines of handlers

The future that `call_boxed` returns, polled against a clock. A handler with a timeout is
raced against a timer that the first poll sets; the handler is polled first, and dropped
when the timer wins. Every answer that the future comes to is the one that the router gives
in a runtime whose handlers answer and whose deadlines pass as they did in these polls.
-/
namespace H12Tiny.Web
open Sync (Bytes)

/-- The futures of the handlers. -/
structure PolledRuntime (H S B R F : Type) where
  start : H → Request B → Option S → RequestMeta → F
  poll : Source F (Response R)
  limited : B → ℕ → B

variable {M : Matchit} {H S B R F : Type}

def deadlineExceeded : Response R :=
  responseWithBody StatusCode.requestTimeout "request handler deadline exceeded"

def Endpoint.future (runtime : PolledRuntime H S B R F) (self : Endpoint H) (request : Request B)
    (state : Option S) (params : RouteParams) : F :=
  let request :=
    match self.bodyLimit with
    | some limit => { request with body := runtime.limited request.body limit }
    | none => request
  runtime.start self.handler request state ⟨params,self.bodyLimit⟩

/-- What the future of an endpoint has come to after a number of polls. -/
def Endpoint.resolve (runtime : PolledRuntime H S B R F) (self : Endpoint H) (request : Request B)
    (state : Option S) (params : RouteParams) (schedule : Schedule) (n : ℕ) : Poll (Response R) :=
  match self.timeout with
  | some duration =>
    (Source.withTimeout runtime.poll duration deadlineExceeded).resolve schedule
      ⟨self.future runtime request state params,none⟩ n
  | none => runtime.poll.resolve schedule (self.future runtime request state params) n

namespace Router

/-- The future of an endpoint is followed by the policy, if there is one. -/
def decorate (self : Router M H S) (request : Request B) (response : Response R) : Response R :=
  match self.cors with
  | some cors => cors.applyResponse response request.origin
  | none => response

/-- A future with a response in it, or the one of an endpoint. -/
def resolveOutcome (runtime : PolledRuntime H S B R F) (self : Router M H S) (request : Request B)
    (schedule : Schedule) (n : ℕ) : Outcome H R → Poll (Response R)
  | .respond response => Source.resolve (fun _ s => (.ready response,s)) schedule () n
  | .call endpoint params =>
    (endpoint.resolve runtime request self.state params schedule n).map (self.decorate request)

def resolve (runtime : PolledRuntime H S B R F) (self : Router M H S) (request : Request B)
    (schedule : Schedule) (n : ℕ) : Option (Poll (Response R)) :=
  (self.outcome request).map (self.resolveOutcome runtime request schedule n)

end Router

/-- The answers and deadlines that a number of polls shows. -/
def PolledRuntime.observed (runtime : PolledRuntime H S B R F) (schedule : Schedule) (n : ℕ) :
    Runtime H S B R where
  handle handler request state info :=
    match runtime.poll.resolve schedule (runtime.start handler request state info) n with
    | .ready response => response
    | .pending => deadlineExceeded
  elapses handler request state info duration := (List.range n).any fun m =>
    !(runtime.poll.resolve schedule (runtime.start handler request state info) (m + 1)).isReady &&
      !decide (Source.Within duration schedule m)
  limited := runtime.limited

section Observed
variable {runtime : PolledRuntime H S B R F} {schedule : Schedule} {n : ℕ} {handler : H} {request : Request B}
  {state : Option S} {info : RequestMeta}

theorem observed_handle {response : Response R}
    (h : runtime.poll.resolve schedule (runtime.start handler request state info) n = .ready response) :
    (runtime.observed schedule n).handle handler request state info = response := by
  simp only [PolledRuntime.observed,h]

theorem observed_elapses {duration : ℕ} :
    (runtime.observed schedule n).elapses handler request state info duration = true ↔
      ∃ m < n, (∀ k ≤ m, runtime.poll.answerAt schedule (runtime.start handler request state info) k = .pending) ∧
        ¬ Source.Within duration schedule m := by
  have hpending : ∀ m, (!(runtime.poll.resolve schedule (runtime.start handler request state info) (m + 1)).isReady) =
      true ↔ ∀ k ≤ m, runtime.poll.answerAt schedule (runtime.start handler request state info) k = .pending := by
    intro m
    have hiff : runtime.poll.resolve schedule (runtime.start handler request state info) (m + 1) = .pending ↔
        ∀ k ≤ m, runtime.poll.answerAt schedule (runtime.start handler request state info) k = .pending := by
      simp only [Source.resolve_eq_pending_iff,Nat.lt_succ_iff]
    rw [← hiff]
    cases runtime.poll.resolve schedule (runtime.start handler request state info) (m + 1) <;> simp [Poll.isReady]
  simp only [PolledRuntime.observed,List.any_eq_true,List.mem_range,Bool.and_eq_true,hpending]
  simp

end Observed

namespace Endpoint
variable {runtime : PolledRuntime H S B R F} {self : Endpoint H} {request : Request B} {state : Option S}
  {params : RouteParams} {schedule : Schedule} {n : ℕ}

theorem call_of_resolve {response : Response R}
    (h : self.resolve runtime request state params schedule n = .ready response) :
    self.call (runtime.observed schedule n) request state params = response := by
  unfold resolve future at h
  unfold call
  cases htimeout : self.timeout with
  | none =>
    rw [htimeout] at h
    exact observed_handle h
  | some duration =>
    rw [htimeout] at h
    have hrun := Source.resolve_withTimeout runtime.poll duration deadlineExceeded schedule
      (self.future runtime request state params) n
    rcases hrun with ⟨hpending,-⟩ | ⟨m,hm,hbefore,⟨a,ha,hready⟩ | ⟨ha,hlate,hready⟩⟩
    · cases hpending.symm.trans h
    · cases hready.symm.trans h
      -- a poll that finds the handler pending comes before the one that finds it ready
      refine (if_neg fun helapses => ?_).trans
        (observed_handle (Source.resolve_eq_ready hm (fun k hk => (hbefore k hk).1) ha))
      obtain ⟨j,-,hpending,hdue⟩ := observed_elapses.mp helapses
      rcases Nat.lt_or_ge j m with hj | hj
      · exact hdue (hbefore j hj).2
      · cases (hpending m hj).symm.trans ha
    · cases hready.symm.trans h
      refine if_pos (observed_elapses.mpr ⟨m,hm,fun k hk => ?_,hlate⟩)
      rcases Nat.lt_or_eq_of_le hk with hk | rfl
      · exact (hbefore k hk).1
      · exact ha

/-- A future that is pending still waits for its handler, before the deadline. -/
theorem waits_of_resolve (h : self.resolve runtime request state params schedule n = .pending) :
    ∀ k < n, runtime.poll.answerAt schedule (self.future runtime request state params) k = .pending ∧
      ∀ duration ∈ self.timeout, Source.Within duration schedule k := by
  unfold resolve at h
  cases htimeout : self.timeout with
  | none =>
    rw [htimeout] at h
    exact fun k hk => ⟨Source.resolve_eq_pending_iff.mp h k hk,fun _ hnone => absurd hnone (Option.not_mem_none _)⟩
  | some duration =>
    rw [htimeout] at h
    have hrun := Source.resolve_withTimeout runtime.poll duration deadlineExceeded schedule
      (self.future runtime request state params) n
    rcases hrun with ⟨-,hbefore⟩ | ⟨m,hm,hbefore,⟨a,ha,hready⟩ | ⟨ha,hlate,hready⟩⟩
    · intro k hk
      refine ⟨(hbefore k hk).1,fun d hd => ?_⟩
      cases hd
      exact (hbefore k hk).2
    · cases hready.symm.trans h
    · cases hready.symm.trans h

end Endpoint

namespace Router
variable {runtime : PolledRuntime H S B R F} {router : Router M H S} {request : Request B} {schedule : Schedule}
  {n : ℕ}

theorem answer_of_resolve {outcome : Outcome H R} {response : Response R}
    (h : router.resolveOutcome runtime request schedule n outcome = .ready response) :
    router.answer (runtime.observed schedule n) request outcome = response := by
  cases outcome with
  | respond given =>
    cases n with
    | zero => cases h
    | succ n =>
      have hready : (Source.resolve (fun _ s => (.ready given,s)) schedule () (n + 1) : Poll (Response R)) =
          .ready given := Source.resolve_eq_ready (Nat.zero_lt_succ n) (fun k hk => absurd hk (Nat.not_lt_zero k)) rfl
      cases hready.symm.trans h
      rfl
  | call endpoint params =>
    have hanswer : router.answer (runtime.observed schedule n) request (.call endpoint params) =
        router.decorate request (endpoint.call (runtime.observed schedule n) request router.state params) := by
      unfold answer decorate
      cases router.cors <;> rfl
    rw [resolveOutcome] at h
    cases hresolve : endpoint.resolve runtime request router.state params schedule n with
    | pending =>
      rw [hresolve] at h
      cases h
    | ready given =>
      rw [hresolve] at h
      cases h
      rw [hanswer,Endpoint.call_of_resolve hresolve]

theorem call_of_pending {outcome : Outcome H R} (hn : 0 < n)
    (h : router.resolveOutcome runtime request schedule n outcome = .pending) :
    ∃ endpoint params, outcome = .call endpoint params ∧
      endpoint.resolve runtime request router.state params schedule n = .pending := by
  cases outcome with
  | respond given =>
    have hready : (Source.resolve (fun _ s => (.ready given,s)) schedule () n : Poll (Response R)) =
        .ready given := Source.resolve_eq_ready hn (fun k hk => absurd hk (Nat.not_lt_zero k)) rfl
    cases hready.symm.trans h
  | call endpoint params =>
    refine ⟨endpoint,params,rfl,?_⟩
    rw [resolveOutcome] at h
    cases hresolve : endpoint.resolve runtime request router.state params schedule n with
    | pending => rfl
    | ready given =>
      rw [hresolve] at h
      cases h

end Router

/-- Whatever the future of a call comes to is what the router answers in a runtime with the
answers and the deadlines that its polls showed, so that what holds of all answers of the
router holds of all futures. A future that is still pending after its first poll waits for
a handler that was pending at every poll, and no poll was at or behind the deadline. -/
theorem polled_call_refines (runtime : PolledRuntime H S B R F) (router : Router M H S) (request : Request B)
    (schedule : Schedule) (n : ℕ) :
    (∀ response, router.resolve runtime request schedule n = some (.ready response) →
        router.callBoxed (runtime.observed schedule n) request = some response) ∧
      (router.resolve runtime request schedule n = some .pending → 0 < n →
        ∃ endpoint params, (router.outcome request : Option (Outcome H R)) = some (.call endpoint params) ∧
          ∀ k < n, runtime.poll.answerAt schedule (endpoint.future runtime request router.state params) k =
              .pending ∧
            ∀ duration ∈ endpoint.timeout, Source.Within duration schedule k) := by
  unfold Router.resolve Router.callBoxed
  constructor
  · intro response h
    obtain ⟨outcome,houtcome,hready⟩ := Option.map_eq_some_iff.mp h
    rw [houtcome,Option.map_some,Router.answer_of_resolve hready]
  · intro h hn
    obtain ⟨outcome,houtcome,hpending⟩ := Option.map_eq_some_iff.mp h
    obtain ⟨endpoint,params,rfl,hresolve⟩ := Router.call_of_pending hn hpending
    exact ⟨endpoint,params,houtcome,Endpoint.waits_of_resolve hresolve⟩

end H12Tiny.Web
