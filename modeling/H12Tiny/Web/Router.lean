import H12Tiny.Foundation.HeaderMap
import H12Tiny.Http.Types
import H12Tiny.Sync.Bytes

/-! # The router of the web layer

`Router`, its builder methods and `call_boxed`, with the CORS policy it may carry. The
path matcher is the one of the `matchit` crate: all that is assumed of it is that it
selects one of its patterns for a path, whatever the values are, and returns the value
inserted with that pattern. A hash map of methods is a function from methods. What a
handler answers, and whether a deadline passes first, is up to a runtime.
-/
namespace H12Tiny.Web
open Sync (Bytes)

abbrev Path := List Char

abbrev RouteParams := List (Path × Path)

/-- A path matcher with values of type `usize`. -/
structure Matchit where
  Matcher : Type
  InsertError : Type
  new : Matcher
  insert : Matcher → Path → ℕ → Except InsertError Matcher
  matchAt : Matcher → Path → Option (ℕ × RouteParams)
  /-- The pattern that a path matches among the patterns of a matcher. -/
  select : List Path → Path → Option (Path × RouteParams)
  select_mem : ∀ {patterns : List Path} {path pattern : Path} {params : RouteParams},
    select patterns path = some (pattern,params) → pattern ∈ patterns
  matchAt_insert : ∀ {entries : List (Path × ℕ)} {matcher : Matcher},
    entries.foldlM (fun matcher entry => insert matcher entry.1 entry.2) new = .ok matcher →
      ∀ path, matchAt matcher path = (select (entries.map Prod.fst) path).bind fun hit =>
        (entries.lookup hit.1).map fun value => (value,hit.2)

inductive Body (R : Type)
  | empty
  | text (text : String)
  | boxed (body : R)
  deriving DecidableEq

structure Response (R : Type) where
  status : StatusCode
  headers : HeaderMap String Bytes
  body : Body R
  deriving DecidableEq

structure Request (B : Type) where
  method : Method
  path : Path
  headers : HeaderMap String Bytes
  body : B

def responseWithBody {R : Type} (status : StatusCode) (body : String) : Response R := ⟨status,[],.text body⟩

structure RequestMeta where
  params : RouteParams
  bodyLimit : Option ℕ

/-- What the code does not decide: the answers of the handlers, which timers fire before
them, and the bodies that a limit is put on. -/
structure Runtime (H S B R : Type) where
  handle : H → Request B → Option S → RequestMeta → Response R
  elapses : H → Request B → Option S → RequestMeta → ℕ → Bool
  limited : B → ℕ → B

structure Endpoint (H : Type) where
  handler : H
  bodyLimit : Option ℕ := none
  timeout : Option ℕ := none
  deriving DecidableEq

def Endpoint.call {H S B R : Type} (runtime : Runtime H S B R) (self : Endpoint H) (request : Request B)
    (state : Option S) (params : RouteParams) : Response R :=
  let request :=
    match self.bodyLimit with
    | some limit => { request with body := runtime.limited request.body limit }
    | none => request
  let info : RequestMeta := ⟨params,self.bodyLimit⟩
  match self.timeout with
  | some duration =>
    if runtime.elapses self.handler request state info duration then
      responseWithBody StatusCode.requestTimeout "request handler deadline exceeded"
    else runtime.handle self.handler request state info
  | none => runtime.handle self.handler request state info

abbrev MethodRouter (H : Type) := Method → Option (Endpoint H)

namespace MethodRouter
variable {H : Type}

def new (method : Method) (endpoint : Endpoint H) : MethodRouter H := fun other =>
  if other = method then some endpoint else none

def bodyLimit (self : MethodRouter H) (limit : ℕ) : MethodRouter H := fun method =>
  (self method).map fun endpoint => { endpoint with bodyLimit := some limit }

def timeout (self : MethodRouter H) (timeout : ℕ) : MethodRouter H := fun method =>
  (self method).map fun endpoint => { endpoint with timeout := some timeout }

def withoutTimeout (self : MethodRouter H) : MethodRouter H := fun method =>
  (self method).map fun endpoint => { endpoint with timeout := none }

/-- An endpoint of the other router replaces the one of the same method. -/
def merge (self other : MethodRouter H) : MethodRouter H := fun method => (other method).or (self method)

end MethodRouter

structure Cors where
  origins : List Bytes
  methods : Bytes
  headers : Bytes
  deriving DecidableEq

/-- The header value `*`. -/
def anyOrigin : Bytes := [42]

/-- The header value `Origin`. -/
def originValue : Bytes := [79,114,105,103,105,110]

namespace Cors
variable {R : Type}

def originAllowed (self : Cors) (origin : Bytes) : Bool :=
  self.origins.any fun allowed => allowed = anyOrigin ∨ allowed = origin

/-- The two fields that both responses of the policy set for an allowed origin. -/
def allow (self : Cors) (origin : Option Bytes) (headers : HeaderMap String Bytes) : HeaderMap String Bytes :=
  match origin.filter self.originAllowed with
  | some origin => (headers.insert "access-control-allow-origin" origin).insert "vary" originValue
  | none => headers

def preflightResponse (self : Cors) (origin : Option Bytes) : Response R :=
  let headers : HeaderMap String Bytes :=
    ((HeaderMap.insert [] "allow" self.methods).insert "access-control-allow-methods" self.methods).insert
      "access-control-allow-headers" self.headers
  ⟨.noContent,self.allow origin headers,.empty⟩

def applyResponse (self : Cors) (response : Response R) (origin : Option Bytes) : Response R :=
  { response with headers := self.allow origin response.headers }

end Cors

structure Router (M : Matchit) (H S : Type) where
  routes : List (Path × MethodRouter H)
  matcher : M.Matcher
  fallback : Option (Endpoint H)
  state : Option S
  cors : Option Cors

/-- A builder method panics with the route and the error of the matcher. -/
structure RouteConflict (M : Matchit) where
  path : Path
  error : M.InsertError

variable {M : Matchit} {H S B R : Type}

def buildMatcher (M : Matchit) (routes : List (Path × MethodRouter H)) :
    Except (RouteConflict M) M.Matcher :=
  (routes.map Prod.fst).zipIdx.foldlM (fun matcher entry =>
    (M.insert matcher entry.1 entry.2).mapError (RouteConflict.mk entry.1)) M.new

/-- The first entry of the path takes the methods in. -/
def extendEntry (path : Path) (methods : MethodRouter H) :
    List (Path × MethodRouter H) → List (Path × MethodRouter H)
  | [] => []
  | (route,entry) :: rest =>
    if route = path then (route,entry.merge methods) :: rest else (route,entry) :: extendEntry path methods rest

def trimSlashes (path : Path) : Path := path.dropWhile (· = '/')

def joinPaths (stem path : Path) : Path :=
  if stem = ['/'] then path
  else
    let stem := (trimSlashes stem.reverse).reverse
    let path := trimSlashes path
    if path = [] then stem else stem ++ '/' :: path

namespace Router

def new : Router M H S := ⟨[],M.new,none,none,none⟩

def clone (self : Router M H S) : Except (RouteConflict M) (Router M H S) := do
  let matcher ← buildMatcher M self.routes
  return { self with matcher }

def withState (self : Router M H S) (state : S) : Router M H S := { self with state := some state }

def route (self : Router M H S) (path : Path) (methods : MethodRouter H) :
    Except (RouteConflict M) (Router M H S) :=
  if path ∈ self.routes.map Prod.fst then
    return { self with routes := extendEntry path methods self.routes }
  else do
    let routes := self.routes ++ [(path,methods)]
    let matcher ← buildMatcher M routes
    return { self with routes, matcher }

/-- The family of `timeout`, `without_timeout` and `body_limit`. -/
def mapMethods (self : Router M H S) (setting : MethodRouter H → MethodRouter H) : Router M H S :=
  { self with routes := self.routes.map fun entry => (entry.1,setting entry.2) }

def timeout (self : Router M H S) (timeout : ℕ) : Router M H S := self.mapMethods (·.timeout timeout)

def withoutTimeout (self : Router M H S) : Router M H S := self.mapMethods (·.withoutTimeout)

def bodyLimit (self : Router M H S) (limit : ℕ) : Router M H S := self.mapMethods (·.bodyLimit limit)

def setFallback (self : Router M H S) (handler : H) : Router M H S :=
  { self with fallback := some { handler } }

def setCors (self : Router M H S) (cors : Cors) : Router M H S := { self with cors := some cors }

/-- A missing fallback or state is the one of the other router. -/
def inherit (self other : Router M H S) : Router M H S :=
  { self with fallback := self.fallback.or other.fallback, state := self.state.or other.state }

def nestEntry (stem : Path) (self : Router M H S) (entry : Path × MethodRouter H) :
    Except (RouteConflict M) (Router M H S) := do
  let path := joinPaths stem entry.1
  let self ← if entry.1 = ['/'] ∧ path ≠ ['/'] then self.route (path ++ ['/']) entry.2 else pure self
  self.route path entry.2

def nest (self : Router M H S) (stem : Path) (nested : Router M H S) :
    Except (RouteConflict M) (Router M H S) := do
  let router ← nested.routes.foldlM (nestEntry stem) self
  return router.inherit nested

def merge (self other : Router M H S) : Except (RouteConflict M) (Router M H S) := do
  let router ← other.routes.foldlM (fun router entry => router.route entry.1 entry.2) self
  return router.inherit other

end Router

/-- What `call_boxed` makes of a request before it runs anything. -/
inductive Outcome (H R : Type)
  | respond (response : Response R)
  | call (endpoint : Endpoint H) (params : RouteParams)

/-- The header value `GET, POST, PUT, PATCH, DELETE, HEAD, OPTIONS`. -/
def allMethods : Bytes :=
  [71,69,84,44,32,80,79,83,84,44,32,80,85,84,44,32,80,65,84,67,72,44,32,68,69,76,69,84,69,44,32,
    72,69,65,68,44,32,79,80,84,73,79,78,83]

def methodNotAllowed : Response R :=
  let response := responseWithBody StatusCode.methodNotAllowed "method not allowed"
  { response with headers := response.headers.insert "allow" allMethods }

def notFound : Response R := responseWithBody StatusCode.notFound "not found"

def Request.origin (request : Request B) : Option Bytes := request.headers.get "origin"

/-- An `OPTIONS` request with an origin, to a router with a policy. -/
def Request.isPreflight (request : Request B) : Bool :=
  request.method = .options ∧ request.headers.containsKey "origin"

namespace Router

/-- The endpoint for the path and the method. Without an entry at the matched index the
code would panic. -/
def dispatch (self : Router M H S) (request : Request B) : Option (Outcome H R) :=
  match M.matchAt self.matcher request.path with
  | some (index,params) => (self.routes[index]?).map fun entry =>
    match entry.2 request.method with
    | some endpoint => .call endpoint params
    | none => .respond methodNotAllowed
  | none =>
    match self.fallback with
    | some endpoint => some (.call endpoint [])
    | none => some (.respond notFound)

def outcome (self : Router M H S) (request : Request B) : Option (Outcome H R) :=
  match self.cors with
  | some cors =>
    if request.isPreflight then some (.respond (cors.preflightResponse request.origin))
    else self.dispatch request
  | none => self.dispatch request

/-- The future of an endpoint is decorated by the policy, a response is returned as it is. -/
def answer (runtime : Runtime H S B R) (self : Router M H S) (request : Request B) :
    Outcome H R → Response R
  | .respond response => response
  | .call endpoint params =>
    let response := endpoint.call runtime request self.state params
    match self.cors with
    | some cors => cors.applyResponse response request.origin
    | none => response

def callBoxed (runtime : Runtime H S B R) (self : Router M H S) (request : Request B) :
    Option (Response R) :=
  (self.outcome request).map (self.answer runtime request)

end Router

end H12Tiny.Web
