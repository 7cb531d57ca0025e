import H12Tiny.Sync.Response
import H12Tiny.Web.Denotation

/-! # Dispatch

Which endpoint a request gets from the router that a sequence of calls built, and how a
CORS policy changes the response. The fallback is documented for both kinds of miss, but a
path with no handler for the method is answered before it is looked at. In the same way
the answers 404 and 405 are returned without the fields of the policy, and those fields
replace a `Vary` header of the handler.
-/
namespace H12Tiny.Web
open Sync (Bytes comma toAsciiLowercase trimOws)

variable {M : Matchit} {H S B R : Type}

/-- The fallback of a router is the last one set, or else the first one taken over. -/
def Build.fallbackEndpoint : Build H S → Option (Endpoint H)
  | new => none
  | route self _ _ => self.fallbackEndpoint
  | merge self other => self.fallbackEndpoint.or other.fallbackEndpoint
  | nest self _ nested => self.fallbackEndpoint.or nested.fallbackEndpoint
  | timeout self _ => self.fallbackEndpoint
  | withoutTimeout self => self.fallbackEndpoint
  | bodyLimit self _ => self.fallbackEndpoint
  | withState self _ => self.fallbackEndpoint
  | fallback _ handler => some { handler }
  | cors self _ => self.fallbackEndpoint
  | clone self => self.fallbackEndpoint

section Frame
variable {α : Type} {f : Router M H S → α} {router next : Router M H S}

/-- A part of the router that does not depend on the entries and the matcher. -/
def Framed (f : Router M H S → α) : Prop :=
  ∀ (router : Router M H S) (routes : List (Path × MethodRouter H)) (matcher : M.Matcher),
    f { router with routes, matcher } = f router

theorem framed_fallback : Framed (Router.fallback : Router M H S → _) := fun _ _ _ => rfl

variable (hf : Framed f)
include hf

theorem Framed.route {path : Path} {methods : MethodRouter H} (h : router.route path methods = .ok next) :
    f next = f router := by
  unfold Router.route at h
  split at h
  next =>
    cases h
    exact hf router _ router.matcher
  next =>
    obtain ⟨matcher,-,hnext⟩ := bind_eq_ok.mp h
    cases hnext
    exact hf router _ matcher

theorem Framed.nestEntry {stem : Path} {entry : Path × MethodRouter H}
    (h : Router.nestEntry stem router entry = .ok next) : f next = f router := by
  rw [Router.nestEntry] at h
  split at h
  next =>
    obtain ⟨between,hroot,hroute⟩ := bind_eq_ok.mp h
    rw [hf.route hroute,hf.route hroot]
  next => exact hf.route h

omit hf in
theorem fold_frame {add : Router M H S → Path × MethodRouter H → Except (RouteConflict M) (Router M H S)}
    (hadd : ∀ {router next : Router M H S} {entry : Path × MethodRouter H},
      add router entry = .ok next → f next = f router)
    (entries : List (Path × MethodRouter H)) (h : entries.foldlM add router = .ok next) :
    f next = f router := by
  induction entries generalizing router with
  | nil =>
    cases h
    rfl
  | cons entry entries ih =>
    obtain ⟨between,hentry,hrest⟩ := bind_eq_ok.mp h
    rw [ih hrest,hadd hentry]

end Frame

theorem Build.run_fallback (build : Build H S) (router : Router M H S) (h : build.run M = .ok router) :
    router.fallback = build.fallbackEndpoint := by
  induction build generalizing router with
  | new =>
    cases h
    rfl
  | route self path methods ih =>
    obtain ⟨before,hself,hroute⟩ := bind_eq_ok.mp h
    rw [framed_fallback.route hroute,ih before hself]
    rfl
  | merge self other ih ihother =>
    obtain ⟨before,hself,hrun⟩ := bind_eq_ok.mp h
    obtain ⟨source,hother,hmerge⟩ := bind_eq_ok.mp hrun
    obtain ⟨merged,hfold,hlast⟩ := bind_eq_ok.mp hmerge
    cases hlast
    rw [Router.inherit,fold_frame framed_fallback.route source.routes hfold,ih before hself,ihother source hother]
    rfl
  | nest self stem nested ih ihnested =>
    obtain ⟨before,hself,hrun⟩ := bind_eq_ok.mp h
    obtain ⟨source,hnested,hnest⟩ := bind_eq_ok.mp hrun
    obtain ⟨merged,hfold,hlast⟩ := bind_eq_ok.mp hnest
    cases hlast
    rw [Router.inherit,fold_frame framed_fallback.nestEntry source.routes hfold,ih before hself,
      ihnested source hnested]
    rfl
  | clone self ih =>
    obtain ⟨before,hself,hclone⟩ := bind_eq_ok.mp h
    obtain ⟨matcher,-,hset⟩ := bind_eq_ok.mp hclone
    cases hset
    exact ih before hself
  | fallback self handler ih =>
    obtain ⟨before,hself,hset⟩ := bind_eq_ok.mp h
    cases hset
    rfl
  | _ =>
    rename_i ih
    obtain ⟨before,hself,hset⟩ := bind_eq_ok.mp h
    cases hset
    exact ih before hself

/-- The endpoint that dispatch finds for a request, with the parameters of the match. -/
def History.endpointFor (M : Matchit) (history : History H) (fallback : Option (Endpoint H))
    (request : Request B) : Option (Endpoint H × RouteParams) :=
  match M.select (patterns history) request.path with
  | some (pattern,params) => (registered pattern request.method history).map fun endpoint => (endpoint,params)
  | none => fallback.map fun endpoint => (endpoint,[])

def History.missed (M : Matchit) (history : History H) (request : Request B) : Response R :=
  if (M.select (patterns history) request.path).isSome then methodNotAllowed else notFound

theorem Build.dispatch (build : Build H S) (router : Router M H S) (h : build.run M = .ok router)
    (request : Request B) :
    (router.dispatch request : Option (Outcome H R)) =
      some ((build.history.endpointFor M build.fallbackEndpoint request).elim
        (.respond (build.history.missed M request)) fun hit => .call hit.1 hit.2) := by
  have hdenotes := build.denotes router h
  unfold Router.dispatch History.endpointFor History.missed
  cases hselect : M.select (History.patterns build.history) request.path with
  | none =>
    rw [(hdenotes.matchAt request.path).2 hselect,build.run_fallback router h]
    cases build.fallbackEndpoint <;> rfl
  | some hit =>
    obtain ⟨index,hmatch,hget⟩ := (hdenotes.matchAt request.path).1 hit.1 hit.2 hselect
    rw [hmatch]
    simp only [hget,Option.map_some,History.table]
    cases History.registered hit.1 request.method build.history <;> rfl

theorem outcome_eq_dispatch {router : Router M H S} {request : Request B}
    (h : ¬ (router.cors.isSome ∧ request.isPreflight)) :
    (router.outcome request : Option (Outcome H R)) = router.dispatch request := by
  unfold Router.outcome
  cases hcors : router.cors with
  | none => rfl
  | some cors =>
    have hrequest : ¬ request.isPreflight := fun hpre => h ⟨by rw [hcors]; rfl,hpre⟩
    exact if_neg hrequest

section Fallback

/-- The endpoint is called with these parameters: whatever it answers is returned, decorated
by the policy of the router. -/
def Router.Calls (router : Router M H S) (R : Type) (request : Request B) (endpoint : Endpoint H)
    (params : RouteParams) : Prop :=
  ∀ runtime : Runtime H S B R,
    router.callBoxed runtime request = some (router.answer runtime request (.call endpoint params))

/-- What the documentation of `fallback` says about a request without a handler. -/
def Router.FallsBack (router : Router M H S) (R : Type) (request : Request B) (fallback : Option (Endpoint H))
    (status : StatusCode) : Prop :=
  match fallback with
  | some endpoint => ∃ params, router.Calls R request endpoint params
  | none => ∀ runtime : Runtime H S B R, ∃ response,
      router.callBoxed runtime request = some response ∧ response.status = status

/-- The endpoint of the matched pattern and the method is called, or else the fallback. -/
def Router.FollowsRule (router : Router M H S) (R : Type) (history : History H) (fallback : Option (Endpoint H))
    (request : Request B) : Prop :=
  match M.select (History.patterns history) request.path with
  | none => router.FallsBack R request fallback .notFound
  | some (pattern,params) =>
    match History.registered pattern request.method history with
    | none => router.FallsBack R request fallback .methodNotAllowed
    | some endpoint => router.Calls R request endpoint params

section Responses
variable {router : Router M H S} {request : Request B}

theorem Router.calls_of_outcome {endpoint : Endpoint H} {params : RouteParams}
    (h : (router.outcome request : Option (Outcome H R)) = some (.call endpoint params)) :
    router.Calls R request endpoint params := by
  intro runtime
  rw [callBoxed,h,Option.map_some]

theorem Router.callBoxed_of_respond {response : Response R}
    (h : router.outcome request = some (.respond response)) (runtime : Runtime H S B R) :
    router.callBoxed runtime request = some response := by
  rw [callBoxed,h,Option.map_some,answer]

/-- A request that is answered with 405 is not given to an endpoint, which may answer with
another status. -/
theorem Router.not_calls_of_missing
    (h : (router.outcome request : Option (Outcome H R)) = some (.respond methodNotAllowed))
    (endpoint : Endpoint H) (params : RouteParams) : ¬ router.Calls R request endpoint params := by
  intro hcalls
  obtain ⟨runtime,hruntime⟩ : ∃ runtime : Runtime H S B R,
      (router.answer runtime request (.call endpoint params)).status = .noContent := by
    refine ⟨⟨fun _ _ _ _ => ⟨.noContent,[],.empty⟩,fun _ _ _ _ _ => false,fun body _ => body⟩,?_⟩
    obtain ⟨handler,limit,timeout⟩ := endpoint
    cases hcors : router.cors <;> cases timeout <;> simp [answer,Endpoint.call,hcors,Cors.applyResponse]
  have hsame := Option.some.inj ((callBoxed_of_respond h runtime).symm.trans (hcalls runtime))
  have hstatus : StatusCode.methodNotAllowed = .noContent := (congrArg Response.status hsame).trans hruntime
  exact absurd hstatus (by decide)

end Responses

/-- A request that is not a preflight is dispatched by the documented rule, except where the
matched pattern has no endpoint for the method and there is a fallback. -/
theorem callBoxed_follows_rule_iff (R : Type) (build : Build H S) (router : Router M H S)
    (h : build.run M = .ok router) (request : Request B)
    (hpreflight : ¬ (router.cors.isSome ∧ request.isPreflight)) :
    router.FollowsRule R build.history build.fallbackEndpoint request ↔
      ∀ pattern params, M.select (History.patterns build.history) request.path = some (pattern,params) →
        History.registered pattern request.method build.history = none → build.fallbackEndpoint = none := by
  have houtcome : (router.outcome request : Option (Outcome H R)) = _ :=
    (outcome_eq_dispatch hpreflight).trans (build.dispatch router h request)
  unfold History.endpointFor History.missed at houtcome
  unfold Router.FollowsRule
  cases hselect : M.select (History.patterns build.history) request.path with
  | none =>
    refine iff_of_true ?_ fun _ _ hhit => absurd hhit (Option.some_ne_none _).symm
    rw [hselect] at houtcome
    cases hfallback : build.fallbackEndpoint with
    | none =>
      rw [hfallback] at houtcome
      exact fun runtime => ⟨_,Router.callBoxed_of_respond houtcome runtime,rfl⟩
    | some endpoint =>
      rw [hfallback] at houtcome
      exact ⟨[],Router.calls_of_outcome houtcome⟩
  | some hit =>
    obtain ⟨pattern,params⟩ := hit
    simp only [Option.some.injEq,Prod.mk.injEq]
    rw [hselect] at houtcome
    cases hmethods : History.registered pattern request.method build.history with
    | some endpoint =>
      simp only [hmethods] at houtcome
      refine iff_of_true (Router.calls_of_outcome houtcome) ?_
      rintro _ _ ⟨rfl,rfl⟩ hnone
      rw [hmethods] at hnone
      cases hnone
    | none =>
      simp only [hmethods] at houtcome
      cases hfallback : build.fallbackEndpoint with
      | none =>
        exact iff_of_true (fun runtime => ⟨_,Router.callBoxed_of_respond houtcome runtime,rfl⟩) fun _ _ _ _ => rfl
      | some endpoint =>
        refine iff_of_false ?_ fun hrule => ?_
        · rintro ⟨params',hcalls⟩
          exact Router.not_calls_of_missing houtcome endpoint params' hcalls
        · cases hrule pattern params ⟨rfl,rfl⟩ hmethods

/-- One route for `GET`, and a fallback. -/
def fallbackBuild : Build ℕ Unit := .fallback (.route .new ['/','a'] (.new .get { handler := 1 })) 2

def getRequest : Request Unit := ⟨.get,['/','a'],[],()⟩

def postRequest : Request Unit := ⟨.post,['/','a'],[],()⟩

/-- The registered handler is called, and with a path that is not there the fallback. -/
theorem callBoxed_follows_rule_iff_get : ∃ router, fallbackBuild.run literalMatchit = .ok router ∧
    ¬ (router.cors.isSome ∧ getRequest.isPreflight) ∧
    router.FollowsRule ℕ fallbackBuild.history fallbackBuild.fallbackEndpoint getRequest ∧
    router.FollowsRule ℕ fallbackBuild.history fallbackBuild.fallbackEndpoint
      { getRequest with path := ['/','b'] } := by
  refine ⟨_,rfl,by decide,?_,?_⟩
  · refine (callBoxed_follows_rule_iff ℕ fallbackBuild _ rfl getRequest (by decide)).mpr ?_
    intro pattern params hselect hmissing
    cases hselect
    cases hmissing
  · refine (callBoxed_follows_rule_iff ℕ fallbackBuild _ rfl _ (by decide)).mpr ?_
    intro pattern params hselect
    cases hselect

theorem fallback_passed_over : ∃ router, fallbackBuild.run literalMatchit = .ok router ∧
    ¬ (router.cors.isSome ∧ postRequest.isPreflight) ∧
    (∀ runtime : Runtime ℕ Unit Unit Unit, router.callBoxed runtime postRequest = some methodNotAllowed) ∧
    ¬ router.FollowsRule Unit fallbackBuild.history fallbackBuild.fallbackEndpoint postRequest := by
  refine ⟨_,rfl,by decide,fun _ => rfl,?_⟩
  rintro ⟨params,hcalls⟩
  exact Router.not_calls_of_missing rfl _ params hcalls

end Fallback

section Policy

/-- The field names that the `Vary` headers list, in lower case. -/
def varyNames (headers : HeaderMap String Bytes) : List Bytes :=
  (((headers.getAll "vary").flatMap fun value => value.splitOn comma).map fun name =>
    (trimOws name).map toAsciiLowercase).filter fun name => name ≠ []

/-- The field name `origin`. -/
def originName : Bytes := [111,114,105,103,105,110]

/-- The response with a policy, compared with the one without. -/
structure Decorates (cors : Cors) (origin : Option Bytes) (plain decorated : Response R) : Prop where
  status : decorated.status = plain.status
  body : decorated.body = plain.body
  others : ∀ name, name ≠ "access-control-allow-origin" → name ≠ "vary" →
    decorated.headers.getAll name = plain.headers.getAll name
  allowed : ∀ value, origin = some value → cors.originAllowed value = true →
    decorated.headers.getAll "access-control-allow-origin" = [value] ∧
      ∀ name, name ∈ varyNames decorated.headers ↔ name ∈ varyNames plain.headers ∨ name = originName
  denied : (∀ value, origin = some value → cors.originAllowed value = false) →
    ∀ name, decorated.headers.getAll name = plain.headers.getAll name

variable {cors : Cors} {origin : Option Bytes} {value : Bytes} (headers : HeaderMap String Bytes)

theorem Cors.allow_allowed (horigin : origin = some value) (hallowed : cors.originAllowed value = true) :
    cors.allow origin headers =
      (headers.insert "access-control-allow-origin" value).insert "vary" originValue := by
  rw [allow,horigin,Option.filter_some,if_pos hallowed]

theorem Cors.allow_denied (h : ∀ value, origin = some value → cors.originAllowed value = false) :
    cors.allow origin headers = headers := by
  have hnone : origin.filter cors.originAllowed = none := by
    cases horigin : origin with
    | none => rfl
    | some value =>
      rw [Option.filter_some,h value horigin]
      rfl
  rw [allow,hnone]

theorem varyNames_insert : varyNames (headers.insert "vary" originValue) = [originName] := by
  rw [varyNames,HeaderMap.getAll_insert_self]
  decide

/-- The policy keeps the response of an endpoint apart from its own fields exactly if that
response does not vary on anything else. -/
theorem Cors.applyResponse_decorates_iff (cors : Cors) (origin : Option Bytes) (response : Response R) :
    Decorates cors origin response (cors.applyResponse response origin) ↔
      ∀ value, origin = some value → cors.originAllowed value = true →
        ∀ name ∈ varyNames response.headers, name = originName := by
  constructor
  · intro h value horigin hallowed name hname
    have hvary := (h.allowed value horigin hallowed).2 name
    rw [applyResponse,allow_allowed _ horigin hallowed,varyNames_insert,List.mem_singleton] at hvary
    exact hvary.mpr (.inl hname)
  · intro h
    refine ⟨rfl,rfl,?_,?_,?_⟩
    · intro name horiginName hvaryName
      unfold applyResponse allow
      split
      next =>
        rw [HeaderMap.getAll_insert_of_ne _ _ _ hvaryName,HeaderMap.getAll_insert_of_ne _ _ _ horiginName]
      next => rfl
    · intro value horigin hallowed
      rw [applyResponse,allow_allowed _ horigin hallowed,varyNames_insert]
      refine ⟨?_,fun name => ?_⟩
      · rw [HeaderMap.getAll_insert_of_ne _ _ _ (by decide),HeaderMap.getAll_insert_self]
      · rw [List.mem_singleton]
        exact ⟨.inr,fun hname => hname.elim (h value horigin hallowed name) id⟩
    · intro hdenied name
      rw [applyResponse,allow_denied _ hdenied]

/-- A response that names no origin can stay as it is exactly if the origin is not allowed. -/
theorem Cors.unchanged_decorates_iff (cors : Cors) (origin : Option Bytes) {response : Response R}
    (hempty : response.headers.getAll "access-control-allow-origin" = []) :
    Decorates cors origin response response ↔
      ∀ value, origin = some value → ¬ cors.originAllowed value = true := by
  constructor
  · intro h value horigin hallowed
    have hnamed := (h.allowed value horigin hallowed).1
    rw [hempty] at hnamed
    cases hnamed
  · intro hdenied
    refine ⟨rfl,rfl,fun _ _ _ => rfl,?_,fun _ _ => rfl⟩
    intro value horigin hallowed
    exact absurd hallowed (hdenied value horigin)

end Policy

section Uniform

def Router.withoutCors (self : Router M H S) : Router M H S := { self with cors := none }

theorem missed_headers (history : History H) (request : Request B) :
    (history.missed M request : Response R).headers.getAll "access-control-allow-origin" = [] := by
  unfold History.missed
  split <;> rfl

/-- A policy decorates the response of every request that is not a preflight, and changes
nothing else, exactly if no allowed origin comes with a request that has no endpoint or with
a response that varies on something else. -/
theorem cors_decorates_iff (build : Build H S) (router : Router M H S) (h : build.run M = .ok router)
    (cors : Cors) (runtime : Runtime H S B R) (request : Request B) (hpreflight : ¬ request.isPreflight) :
    (∃ plain decorated, router.withoutCors.callBoxed runtime request = some plain ∧
        (router.setCors cors).callBoxed runtime request = some decorated ∧
        Decorates cors request.origin plain decorated) ↔
      ∀ value, request.origin = some value → cors.originAllowed value = true →
        ∃ endpoint params,
          build.history.endpointFor M build.fallbackEndpoint request = some (endpoint,params) ∧
          ∀ name ∈ varyNames (endpoint.call runtime request router.state params).headers,
            name = originName := by
  have hplain : (router.withoutCors.outcome request : Option (Outcome H R)) = router.dispatch request :=
    outcome_eq_dispatch fun hpre => hpreflight hpre.2
  have hcors : ((router.setCors cors).outcome request : Option (Outcome H R)) = router.dispatch request :=
    outcome_eq_dispatch fun hpre => hpreflight hpre.2
  unfold Router.callBoxed
  rw [hplain,hcors,build.dispatch router h]
  cases hendpoint : build.history.endpointFor M build.fallbackEndpoint request with
  | none =>
    have hresponse := cors.unchanged_decorates_iff request.origin
      (@missed_headers M H B R build.history request)
    constructor
    · rintro ⟨plain,decorated,hfirst,hsecond,hdecorates⟩ value horigin hallowed
      cases hfirst
      cases hsecond
      exact absurd hallowed (hresponse.mp hdecorates value horigin)
    · intro hdenied
      refine ⟨_,_,rfl,rfl,hresponse.mpr fun value horigin hallowed => ?_⟩
      obtain ⟨endpoint,params,hsome,-⟩ := hdenied value horigin hallowed
      cases hsome
  | some hit =>
    obtain ⟨endpoint,params⟩ := hit
    have hresponse := cors.applyResponse_decorates_iff request.origin
      (endpoint.call runtime request router.state params)
    constructor
    · rintro ⟨plain,decorated,hfirst,hsecond,hdecorates⟩ value horigin hallowed
      cases hfirst
      cases hsecond
      exact ⟨endpoint,params,rfl,hresponse.mp hdecorates value horigin hallowed⟩
    · intro hvary
      refine ⟨_,_,rfl,rfl,hresponse.mpr fun value horigin hallowed => ?_⟩
      obtain ⟨endpoint',params',hsame,hnames⟩ := hvary value horigin hallowed
      cases hsame
      exact hnames

def openCors : Cors := ⟨[anyOrigin],allMethods,[]⟩

/-- Every handler answers with its number as the body. -/
def echoRuntime : Runtime ℕ Unit Unit ℕ where
  handle handler _ _ _ := ⟨⟨200,by decide⟩,[("vary",originValue)],.boxed handler⟩
  elapses _ _ _ _ _ := false
  limited body _ := body

def crossRequest (path : Path) : Request Unit := ⟨.get,path,[("origin",[120])],()⟩

theorem cors_decorates_iff_echo : ∃ router, fallbackBuild.run literalMatchit = .ok router ∧
    ¬ (crossRequest ['/','a']).isPreflight ∧
    ((∃ plain decorated, router.withoutCors.callBoxed echoRuntime (crossRequest ['/','a']) = some plain ∧
        (router.setCors openCors).callBoxed echoRuntime (crossRequest ['/','a']) = some decorated ∧
        Decorates openCors (crossRequest ['/','a']).origin plain decorated) ↔
      ∀ value, (crossRequest ['/','a']).origin = some value → openCors.originAllowed value = true →
        ∃ endpoint params, fallbackBuild.history.endpointFor literalMatchit
            fallbackBuild.fallbackEndpoint (crossRequest ['/','a']) = some (endpoint,params) ∧
          ∀ name ∈ varyNames (endpoint.call echoRuntime (crossRequest ['/','a']) router.state params).headers,
            name = originName) :=
  ⟨_,rfl,by decide,cors_decorates_iff fallbackBuild _ rfl openCors echoRuntime _ (by decide)⟩

/-- A route for `GET` and no fallback. -/
def plainBuild : Build ℕ Unit := .route .new ['/','a'] (.new .get { handler := 1 })

/-- A path that no pattern matches is answered without the fields of the policy. -/
theorem missing_undecorated : ∃ router, plainBuild.run literalMatchit = .ok router ∧
    ¬ (crossRequest ['/','b']).isPreflight ∧
    (router.setCors openCors).callBoxed echoRuntime (crossRequest ['/','b']) = some notFound ∧
    ¬ ∃ plain decorated, router.withoutCors.callBoxed echoRuntime (crossRequest ['/','b']) = some plain ∧
        (router.setCors openCors).callBoxed echoRuntime (crossRequest ['/','b']) = some decorated ∧
        Decorates openCors (crossRequest ['/','b']).origin plain decorated := by
  refine ⟨_,rfl,by decide,rfl,?_⟩
  rintro ⟨plain,decorated,-,hcall,hdecorates⟩
  cases hcall
  have hfield := (hdecorates.allowed [120] rfl rfl).1
  cases hfield

end Uniform

end H12Tiny.Web
