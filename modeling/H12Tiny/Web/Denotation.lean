import H12Tiny.Foundation.Except
import H12Tiny.Web.Router
import Mathlib.Data.List.Nodup

/-! # What a router registers

A sequence of builder calls means a history: registrations of methods under a pattern,
and settings, each for everything registered so far. A merged or nested router
contributes one registration for each of its patterns, in the order in which they were
first registered, with the endpoints that its own history leaves there. The entries of a
router are the patterns of its history with their endpoints, and its matcher holds just
these patterns.
-/
namespace H12Tiny.Web

/-- A sequence of calls of the builder methods. -/
inductive Build (H S : Type)
  | new
  | route (self : Build H S) (path : Path) (methods : MethodRouter H)
  | merge (self other : Build H S)
  | nest (self : Build H S) (stem : Path) (nested : Build H S)
  | timeout (self : Build H S) (timeout : ℕ)
  | withoutTimeout (self : Build H S)
  | bodyLimit (self : Build H S) (limit : ℕ)
  | withState (self : Build H S) (state : S)
  | fallback (self : Build H S) (handler : H)
  | cors (self : Build H S) (cors : Cors)
  | clone (self : Build H S)

variable {H S : Type}

def Build.run (M : Matchit) : Build H S → Except (RouteConflict M) (Router M H S)
  | new => return .new
  | route self path methods => do (← self.run M).route path methods
  | merge self other => do (← self.run M).merge (← other.run M)
  | nest self stem nested => do (← self.run M).nest stem (← nested.run M)
  | timeout self duration => return (← self.run M).timeout duration
  | withoutTimeout self => return (← self.run M).withoutTimeout
  | bodyLimit self limit => return (← self.run M).bodyLimit limit
  | withState self state => return (← self.run M).withState state
  | fallback self handler => return (← self.run M).setFallback handler
  | cors self policy => return (← self.run M).setCors policy
  | clone self => do (← self.run M).clone

inductive Step (H : Type)
  | register (pattern : Path) (methods : MethodRouter H)
  | setTimeout (timeout : Option ℕ)
  | setBodyLimit (limit : ℕ)

abbrev History (H : Type) := List (Step H)

namespace History

def lastTimeout : History H → Option (Option ℕ)
  | [] => none
  | .setTimeout timeout :: later => (lastTimeout later).or (some timeout)
  | _ :: later => lastTimeout later

def lastBodyLimit : History H → Option ℕ
  | [] => none
  | .setBodyLimit limit :: later => (lastBodyLimit later).or (some limit)
  | _ :: later => lastBodyLimit later

/-- An endpoint after the settings that come later. -/
def settle (later : History H) (endpoint : Endpoint H) : Endpoint H :=
  { endpoint with
    bodyLimit := (lastBodyLimit later).or endpoint.bodyLimit
    timeout := (lastTimeout later).getD endpoint.timeout }

/-- The endpoint of the last registration of a pattern and a method, with its settings. -/
def registered (pattern : Path) (method : Method) : History H → Option (Endpoint H)
  | [] => none
  | .register other methods :: later => (registered pattern method later).or
      (if other = pattern then (methods method).map (settle later) else none)
  | _ :: later => registered pattern method later

def note (known : List Path) : Step H → List Path
  | .register pattern _ => if known.contains pattern then known else known ++ [pattern]
  | _ => known

/-- The patterns in the order of their first registration. -/
def patterns (history : History H) : List Path := history.foldl note []

def table (history : History H) (pattern : Path) : MethodRouter H := fun method =>
  registered pattern method history

def nestedSteps (stem pattern : Path) (methods : MethodRouter H) : History H :=
  let path := joinPaths stem pattern
  (if pattern = ['/'] ∧ path ≠ ['/'] then [.register (path ++ ['/']) methods] else []) ++
    [.register path methods]

end History

open History in
def Build.history : Build H S → History H
  | new => []
  | route self path methods => self.history ++ [.register path methods]
  | merge self other => self.history ++
      (patterns other.history).map fun pattern => .register pattern (table other.history pattern)
  | nest self stem nested => self.history ++
      (patterns nested.history).flatMap fun pattern =>
        nestedSteps stem pattern (table nested.history pattern)
  | timeout self duration => self.history ++ [.setTimeout (some duration)]
  | withoutTimeout self => self.history ++ [.setTimeout none]
  | bodyLimit self limit => self.history ++ [.setBodyLimit limit]
  | withState self _ => self.history
  | fallback self _ => self.history
  | cors self _ => self.history
  | clone self => self.history

theorem MethodRouter.merge_none (methods : MethodRouter H) : merge (fun _ => none) methods = methods :=
  funext fun _ => Option.or_none

theorem extendEntry_map {path : Path} {methods : MethodRouter H} (f : Path → MethodRouter H)
    {patterns : List Path} (h : patterns.Nodup) :
    extendEntry path methods (patterns.map fun pattern => (pattern,f pattern)) =
      patterns.map fun pattern => (pattern,if path = pattern then (f pattern).merge methods else f pattern) := by
  induction patterns with
  | nil => rfl
  | cons pattern patterns ih =>
    obtain ⟨hnew,hrest⟩ := List.nodup_cons.mp h
    simp only [List.map_cons,extendEntry]
    split
    next heq =>
      subst heq
      rw [if_pos rfl]
      refine congrArg _ (List.map_congr_left fun other hother => ?_)
      have hne : pattern ≠ other := fun e => hnew (e ▸ hother)
      rw [if_neg hne]
    next hne => rw [ih hrest,if_neg (Ne.symm hne)]

namespace History
variable (history later : History H) (pattern : Path) (method : Method)

theorem lastTimeout_append :
    lastTimeout (history ++ later) = (lastTimeout later).or (lastTimeout history) := by
  induction history with
  | nil => simp [lastTimeout]
  | cons step history ih =>
    cases step with
    | setTimeout timeout => simp only [List.cons_append,lastTimeout,ih,Option.or_assoc]
    | _ => simpa [lastTimeout] using ih

theorem lastBodyLimit_append :
    lastBodyLimit (history ++ later) = (lastBodyLimit later).or (lastBodyLimit history) := by
  induction history with
  | nil => simp [lastBodyLimit]
  | cons step history ih =>
    cases step with
    | setBodyLimit limit => simp only [List.cons_append,lastBodyLimit,ih,Option.or_assoc]
    | _ => simpa [lastBodyLimit] using ih

theorem settle_append (endpoint : Endpoint H) :
    settle (history ++ later) endpoint = settle later (settle history endpoint) := by
  have htimeout : (lastTimeout (history ++ later)).getD endpoint.timeout =
      (lastTimeout later).getD ((lastTimeout history).getD endpoint.timeout) := by
    rw [lastTimeout_append]
    cases lastTimeout later <;> rfl
  simp only [settle,htimeout,lastBodyLimit_append,Option.or_assoc]

/-- What is registered later goes first, and the later settings are for all that stays. -/
theorem registered_append : registered pattern method (history ++ later) =
    (registered pattern method later).or ((registered pattern method history).map (settle later)) := by
  induction history with
  | nil => simp [registered]
  | cons step history ih =>
    cases step with
    | register other methods =>
      have hsettle : settle (history ++ later) = settle later ∘ settle history :=
        funext (settle_append history later)
      simp only [List.cons_append,registered,ih,hsettle,Option.or_assoc,Option.map_or]
      split <;> simp
    | _ => simpa [registered] using ih

theorem registered_none (h : ∀ methods, Step.register pattern methods ∈ history → methods method = none) :
    registered pattern method history = none := by
  induction history with
  | nil => rfl
  | cons step history ih =>
    have hrest := ih fun methods hmem => h methods (List.mem_cons_of_mem _ hmem)
    cases step with
    | register other methods =>
      rw [registered,hrest]
      split
      next heq =>
        subst heq
        rw [h methods List.mem_cons_self]
        rfl
      next => rfl
    | _ => exact hrest

/-- The endpoint of the last registration, with the settings behind it. -/
theorem registered_last {methods : MethodRouter H} {endpoint : Endpoint H}
    (hendpoint : methods method = some endpoint)
    (hlast : ∀ others, Step.register pattern others ∈ later → others method = none) :
    registered pattern method (history ++ .register pattern methods :: later) =
      some (settle later endpoint) := by
  rw [registered_append,registered,registered_none later pattern method hlast,if_pos rfl,hendpoint]
  rfl

theorem patterns_snoc (step : Step H) : patterns (history ++ [step]) = note (patterns history) step :=
  List.foldl_append

theorem nodup_patterns : (patterns history).Nodup := by
  induction history using List.reverseRecOn with
  | nil => exact List.nodup_nil
  | append_singleton history step ih =>
    rw [patterns_snoc]
    cases step with
    | register pattern methods =>
      simp only [note,List.contains_iff_mem]
      split
      next => exact ih
      next h => exact List.nodup_append_comm.mp (List.nodup_cons.mpr ⟨h,ih⟩)
    | _ => exact ih

theorem mem_patterns {methods : MethodRouter H} (h : Step.register pattern methods ∈ history) :
    pattern ∈ patterns history := by
  induction history using List.reverseRecOn with
  | nil => exact absurd h List.not_mem_nil
  | append_singleton history step ih =>
    rw [patterns_snoc]
    rcases List.mem_append.mp h with hmem | hmem
    · have hold := ih hmem
      cases step with
      | register other entries =>
        simp only [note,List.contains_iff_mem]
        split
        next => exact hold
        next => exact List.mem_append_left _ hold
      | _ => exact hold
    · obtain rfl := List.mem_singleton.mp hmem
      simp only [note,List.contains_iff_mem]
      split
      next hold => exact hold
      next => exact List.mem_append_right _ List.mem_cons_self

theorem table_register (other : Path) (methods : MethodRouter H) :
    table (history ++ [.register other methods]) pattern =
      if other = pattern then (table history pattern).merge methods else table history pattern := by
  have hsettle : settle [.register other methods] = id := funext fun endpoint => rfl
  funext method
  rw [table,registered_append,hsettle,Option.map_id_apply]
  have hsingle : registered pattern method [Step.register other methods] =
      if other = pattern then methods method else none := by
    have hnil : settle ([] : History H) = id := funext fun endpoint => rfl
    simp only [registered,hnil,Option.none_or,Option.map_id_apply]
  rw [hsingle]
  split <;> rfl

def entries : List (Path × MethodRouter H) := (patterns history).map fun pattern => (pattern,table history pattern)

theorem entries_fst : history.entries.map Prod.fst = patterns history := by
  simp [entries,Function.comp_def]

theorem entries_register (path : Path) (methods : MethodRouter H) :
    entries (history ++ [.register path methods]) =
      if path ∈ patterns history then extendEntry path methods history.entries
      else history.entries ++ [(path,methods)] := by
  have htable := fun pattern => table_register history pattern path methods
  rw [entries,patterns_snoc]
  simp only [note,htable,List.contains_iff_mem]
  split
  next => exact (extendEntry_map (table history) (nodup_patterns history)).symm
  next hnew =>
    -- a pattern that was not registered has no methods yet
    have hnone : table history path = fun _ => none := funext fun method =>
      registered_none history path method fun _ hmem => absurd (mem_patterns history path hmem) hnew
    rw [List.map_append,entries]
    congr 1
    · refine List.map_congr_left fun pattern hpattern => ?_
      have hne : path ≠ pattern := fun e => hnew (e ▸ hpattern)
      rw [if_neg hne]
    · rw [List.map_singleton,if_pos rfl,hnone,MethodRouter.merge_none]

end History

variable {M : Matchit}

/-- The entries are those of the history, and the matcher was built from them. -/
structure Denotes (router : Router M H S) (history : History H) : Prop where
  routes : router.routes = history.entries
  matcher : buildMatcher M router.routes = .ok router.matcher

variable {router next other : Router M H S} {history : History H}

theorem buildMatcher_congr {routes routes' : List (Path × MethodRouter H)}
    (h : routes.map Prod.fst = routes'.map Prod.fst) : buildMatcher M routes = buildMatcher M routes' := by
  rw [buildMatcher,buildMatcher,h]

namespace Denotes

theorem new : Denotes (Router.new : Router M H S) [] := ⟨rfl,rfl⟩

theorem route (h : Denotes router history) {path : Path} {methods : MethodRouter H}
    (hroute : router.route path methods = .ok next) :
    Denotes next (history ++ [.register path methods]) := by
  have hentries := history.entries_register path methods
  have hpatterns : router.routes.map Prod.fst = History.patterns history := by
    rw [h.routes,History.entries_fst]
  rw [Router.route,hpatterns] at hroute
  split at hroute
  next hold =>
    rw [if_pos hold] at hentries
    cases hroute
    have hsame : History.patterns (history ++ [.register path methods]) = History.patterns history := by
      rw [History.patterns_snoc]
      exact if_pos (List.contains_iff_mem.mpr hold)
    refine ⟨by rw [hentries,h.routes],?_⟩
    rw [← h.matcher]
    refine buildMatcher_congr ?_
    rw [h.routes,← hentries,History.entries_fst,History.entries_fst,hsame]
  next hnew =>
    rw [if_neg hnew] at hentries
    obtain ⟨matcher,hbuild,hnext⟩ := bind_eq_ok.mp hroute
    cases hnext
    exact ⟨by rw [hentries,h.routes],hbuild⟩

theorem mapMethods (h : Denotes router history) {setting : MethodRouter H → MethodRouter H} {step : Step H}
    (hpatterns : History.patterns (history ++ [step]) = History.patterns history)
    (htable : ∀ pattern, History.table (history ++ [step]) pattern = setting (History.table history pattern)) :
    Denotes (router.mapMethods setting) (history ++ [step]) := by
  refine ⟨?_,?_⟩
  · simp only [Router.mapMethods,h.routes,History.entries,hpatterns,htable,List.map_map,Function.comp_def]
  · rw [Router.mapMethods,← h.matcher]
    exact buildMatcher_congr (by simp [Function.comp_def])

theorem setTimeout (h : Denotes router history) {setting : MethodRouter H → MethodRouter H}
    {timeout : Option ℕ}
    (hsetting : ∀ methods method, setting methods method =
      (methods method).map fun endpoint => { endpoint with timeout }) :
    Denotes (router.mapMethods setting) (history ++ [.setTimeout timeout]) := by
  refine h.mapMethods (History.patterns_snoc _ _) fun pattern => funext fun method => ?_
  rw [hsetting,History.table,History.registered_append]
  rfl

theorem bodyLimit (h : Denotes router history) (limit : ℕ) :
    Denotes (router.bodyLimit limit) (history ++ [.setBodyLimit limit]) := by
  refine h.mapMethods (History.patterns_snoc _ _) fun pattern => funext fun method => ?_
  rw [History.table,History.registered_append]
  rfl

theorem inherit (h : Denotes router history) : Denotes (router.inherit other) history := ⟨h.routes,h.matcher⟩

theorem fold {add : Router M H S → Path × MethodRouter H → Except (RouteConflict M) (Router M H S)}
    (steps : Path × MethodRouter H → History H)
    (hadd : ∀ {router next : Router M H S} {history : History H} {entry : Path × MethodRouter H},
      Denotes router history → add router entry = .ok next → Denotes next (history ++ steps entry))
    (entries : List (Path × MethodRouter H)) (h : Denotes router history)
    (hfold : entries.foldlM add router = .ok next) : Denotes next (history ++ entries.flatMap steps) := by
  induction entries generalizing router history with
  | nil =>
    cases hfold
    rwa [List.flatMap_nil,List.append_nil]
  | cons entry entries ih =>
    obtain ⟨between,hentry,hrest⟩ := bind_eq_ok.mp hfold
    rw [List.flatMap_cons,← List.append_assoc]
    exact ih (hadd h hentry) hrest

theorem nestEntry {stem : Path} {entry : Path × MethodRouter H} (h : Denotes router history)
    (hnest : Router.nestEntry stem router entry = .ok next) :
    Denotes next (history ++ History.nestedSteps stem entry.1 entry.2) := by
  rw [Router.nestEntry] at hnest
  rw [History.nestedSteps,← List.append_assoc]
  split at hnest
  next hslash =>
    obtain ⟨between,hroot,hroute⟩ := bind_eq_ok.mp hnest
    rw [if_pos hslash]
    exact (h.route hroot).route hroute
  next hplain =>
    rw [if_neg hplain,List.append_nil]
    exact h.route hnest

end Denotes

/-- The router that a sequence of calls builds denotes the history of the calls. -/
theorem Build.denotes (build : Build H S) (router : Router M H S) (h : build.run M = .ok router) :
    Denotes router build.history := by
  induction build generalizing router with
  | new =>
    cases h
    exact .new
  | route self path methods ih =>
    obtain ⟨before,hself,hroute⟩ := bind_eq_ok.mp h
    exact (ih before hself).route hroute
  | merge self other ih ihother =>
    obtain ⟨before,hself,hrun⟩ := bind_eq_ok.mp h
    obtain ⟨source,hother,hmerge⟩ := bind_eq_ok.mp hrun
    obtain ⟨merged,hfold,hlast⟩ := bind_eq_ok.mp hmerge
    cases hlast
    have hdenotes := Denotes.fold (fun entry => [.register entry.1 entry.2]) (fun h => h.route)
      source.routes (ih before hself) hfold
    rw [(ihother source hother).routes,History.entries,List.flatMap_map,← List.map_eq_flatMap] at hdenotes
    exact hdenotes.inherit
  | nest self stem nested ih ihnested =>
    obtain ⟨before,hself,hrun⟩ := bind_eq_ok.mp h
    obtain ⟨source,hnested,hnest⟩ := bind_eq_ok.mp hrun
    obtain ⟨merged,hfold,hlast⟩ := bind_eq_ok.mp hnest
    cases hlast
    have hdenotes := Denotes.fold (fun entry => History.nestedSteps stem entry.1 entry.2)
      (fun h => h.nestEntry) source.routes (ih before hself) hfold
    rw [(ihnested source hnested).routes,History.entries,List.flatMap_map] at hdenotes
    exact hdenotes.inherit
  | timeout self duration ih =>
    obtain ⟨before,hself,hset⟩ := bind_eq_ok.mp h
    cases hset
    exact (ih before hself).setTimeout fun _ _ => rfl
  | withoutTimeout self ih =>
    obtain ⟨before,hself,hset⟩ := bind_eq_ok.mp h
    cases hset
    exact (ih before hself).setTimeout fun _ _ => rfl
  | bodyLimit self limit ih =>
    obtain ⟨before,hself,hset⟩ := bind_eq_ok.mp h
    cases hset
    exact (ih before hself).bodyLimit limit
  | withState self state ih =>
    obtain ⟨before,hself,hset⟩ := bind_eq_ok.mp h
    cases hset
    exact ⟨(ih before hself).routes,(ih before hself).matcher⟩
  | fallback self handler ih =>
    obtain ⟨before,hself,hset⟩ := bind_eq_ok.mp h
    cases hset
    exact ⟨(ih before hself).routes,(ih before hself).matcher⟩
  | cors self policy ih =>
    obtain ⟨before,hself,hset⟩ := bind_eq_ok.mp h
    cases hset
    exact ⟨(ih before hself).routes,(ih before hself).matcher⟩
  | clone self ih =>
    obtain ⟨before,hself,hclone⟩ := bind_eq_ok.mp h
    obtain ⟨matcher,hbuild,hset⟩ := bind_eq_ok.mp hclone
    cases hset
    exact ⟨(ih before hself).routes,hbuild⟩

theorem foldlM_insert {entries : List (Path × ℕ)} {start matcher : M.Matcher}
    (h : entries.foldlM (fun matcher entry =>
      (M.insert matcher entry.1 entry.2).mapError (RouteConflict.mk entry.1)) start = .ok matcher) :
    entries.foldlM (fun matcher entry => M.insert matcher entry.1 entry.2) start = .ok matcher := by
  induction entries generalizing start with
  | nil =>
    cases h
    rfl
  | cons entry entries ih =>
    obtain ⟨between,hinsert,hrest⟩ := bind_eq_ok.mp h
    rw [List.foldlM_cons]
    dsimp only at hinsert
    cases hentry : M.insert start entry.1 entry.2 with
    | error e =>
      rw [hentry] at hinsert
      cases hinsert
    | ok inserted =>
      rw [hentry] at hinsert
      cases hinsert
      exact ih hrest

theorem lookup_zipIdx {patterns : List Path} {pattern : Path} (h : pattern ∈ patterns) (start : ℕ) :
    ∃ index, (patterns.zipIdx start).lookup pattern = some (start + index) ∧
      patterns[index]? = some pattern := by
  induction patterns generalizing start with
  | nil => exact absurd h List.not_mem_nil
  | cons other patterns ih =>
    rw [List.zipIdx_cons,List.lookup_cons]
    by_cases heq : pattern = other
    · exact ⟨0,by simp [heq],by simp [heq]⟩
    · obtain ⟨index,hlookup,hget⟩ := ih ((List.mem_cons.mp h).resolve_left heq) (start + 1)
      refine ⟨index + 1,?_,by simpa using hget⟩
      simp only [beq_eq_false_iff_ne.mpr heq,hlookup,Option.some.injEq]
      omega

theorem lookup_map (f : Path → MethodRouter H) (patterns : List Path) (pattern : Path) :
    (patterns.map fun other => (other,f other)).lookup pattern =
      if pattern ∈ patterns then some (f pattern) else none := by
  induction patterns with
  | nil => rfl
  | cons other patterns ih =>
    rw [List.map_cons,List.lookup_cons,ih]
    by_cases heq : pattern = other
    · simp [heq]
    · simp [beq_eq_false_iff_ne.mpr heq,heq]

/-- The endpoint that `call_boxed` finds in the entry of a pattern. -/
def Router.endpoint (router : Router M H S) (pattern : Path) (method : Method) : Option (Endpoint H) :=
  (router.routes.lookup pattern).bind fun methods => methods method

namespace Denotes

theorem matchAt (h : Denotes router history) (path : Path) :
    (∀ pattern params, M.select (History.patterns history) path = some (pattern,params) →
      ∃ index, M.matchAt router.matcher path = some (index,params) ∧
        router.routes[index]? = some (pattern,history.table pattern)) ∧
    (M.select (History.patterns history) path = none → M.matchAt router.matcher path = none) := by
  have hmatch := M.matchAt_insert (foldlM_insert h.matcher) path
  rw [List.zipIdx_map_fst,h.routes,History.entries_fst] at hmatch
  refine ⟨fun pattern params hselect => ?_,fun hselect => by rw [hmatch,hselect]; rfl⟩
  obtain ⟨index,hlookup,hget⟩ := lookup_zipIdx (M.select_mem hselect) 0
  rw [Nat.zero_add] at hlookup
  refine ⟨index,by rw [hmatch,hselect,Option.bind_some,hlookup]; rfl,?_⟩
  rw [h.routes,History.entries,List.getElem?_map,hget]
  rfl

theorem endpoint (h : Denotes router history) (pattern : Path) (method : Method) :
    router.endpoint pattern method = History.registered pattern method history := by
  rw [Router.endpoint,h.routes,History.entries,lookup_map]
  split
  next => rfl
  next hnew =>
    refine (History.registered_none history pattern method fun methods hmem => ?_).symm
    exact absurd (History.mem_patterns history pattern hmem) hnew

end Denotes

/-- What a router holds after a history of calls. -/
structure Means (router : Router M H S) (history : History H) : Prop where
  distinct : (router.routes.map Prod.fst).Nodup
  /-- The matcher leads to the entry of the pattern that the path matches. -/
  found : ∀ path pattern params, M.select (router.routes.map Prod.fst) path = some (pattern,params) →
    ∃ index methods, M.matchAt router.matcher path = some (index,params) ∧
      router.routes[index]? = some (pattern,methods)
  /-- An index of the matcher is one of the entries. -/
  inRange : ∀ path index params, M.matchAt router.matcher path = some (index,params) →
    ∃ pattern methods, M.select (router.routes.map Prod.fst) path = some (pattern,params) ∧
      router.routes[index]? = some (pattern,methods)
  /-- The last registration of a pattern and a method counts, with the last settings behind it. -/
  last : ∀ pattern method before methods later endpoint,
    history = before ++ .register pattern methods :: later → methods method = some endpoint →
      (∀ others, Step.register pattern others ∈ later → others method = none) →
        router.endpoint pattern method = some (History.settle later endpoint)
  /-- Nothing else is registered. -/
  only : ∀ pattern method,
    (∀ methods, Step.register pattern methods ∈ history → methods method = none) →
      router.endpoint pattern method = none

/-- Whatever sequence of builder calls made it, the router is the one its history describes. -/
theorem router_means_history (build : Build H S) (router : Router M H S) (h : build.run M = .ok router) :
    Means router build.history := by
  have hdenotes := build.denotes router h
  have hpatterns : router.routes.map Prod.fst = History.patterns build.history := by
    rw [hdenotes.routes,History.entries_fst]
  refine ⟨?_,?_,?_,?_,?_⟩
  · rw [hpatterns]
    exact History.nodup_patterns _
  · intro path pattern params hselect
    rw [hpatterns] at hselect
    obtain ⟨index,hmatch,hget⟩ := (hdenotes.matchAt path).1 pattern params hselect
    exact ⟨index,_,hmatch,hget⟩
  · intro path index params hmatch
    rw [hpatterns]
    cases hselect : M.select (History.patterns build.history) path with
    | none =>
      rw [(hdenotes.matchAt path).2 hselect] at hmatch
      cases hmatch
    | some hit =>
      obtain ⟨index',hmatch',hget⟩ := (hdenotes.matchAt path).1 hit.1 hit.2 hselect
      rw [hmatch] at hmatch'
      cases hmatch'
      exact ⟨hit.1,_,rfl,hget⟩
  · intro pattern method before methods later endpoint hhistory hendpoint hlast
    rw [hdenotes.endpoint,hhistory]
    exact History.registered_last before later pattern method hendpoint hlast
  · intro pattern method hnone
    rw [hdenotes.endpoint]
    exact History.registered_none _ pattern method hnone

section Literal

def literalInsert (matcher : List (Path × ℕ)) (path : Path) (value : ℕ) : Except Unit (List (Path × ℕ)) :=
  if (matcher.lookup path).isSome then .error () else .ok (matcher ++ [(path,value)])

def literalSelect (patterns : List Path) (path : Path) : Option (Path × RouteParams) :=
  if patterns.contains path then some (path,[]) else none

theorem literalSelect_mem {patterns : List Path} {path pattern : Path} {params : RouteParams}
    (h : literalSelect patterns path = some (pattern,params)) : pattern ∈ patterns := by
  unfold literalSelect at h
  split at h
  next hmem =>
    cases h
    exact List.contains_iff_mem.mp hmem
  next => cases h

theorem literalInsert_fold {entries start matcher : List (Path × ℕ)}
    (h : entries.foldlM (fun matcher entry => literalInsert matcher entry.1 entry.2) start = .ok matcher) :
    matcher = start ++ entries := by
  induction entries generalizing start with
  | nil =>
    cases h
    rw [List.append_nil]
  | cons entry entries ih =>
    obtain ⟨between,hinsert,hrest⟩ := bind_eq_ok.mp h
    dsimp only [literalInsert] at hinsert
    split at hinsert
    next => cases hinsert
    next =>
      cases hinsert
      rw [ih hrest,List.append_assoc]
      rfl

theorem literalInsert_lookup {entries matcher : List (Path × ℕ)}
    (h : entries.foldlM (fun matcher entry => literalInsert matcher entry.1 entry.2) [] = .ok matcher)
    (path : Path) : (matcher.lookup path).map (fun value => (value,[])) =
      (literalSelect (entries.map Prod.fst) path).bind fun hit =>
        (entries.lookup hit.1).map fun value => (value,hit.2) := by
  rw [literalInsert_fold h,List.nil_append]
  unfold literalSelect
  split
  next => rfl
  next hnew =>
    have hnone : entries.lookup path = none := by
      refine List.lookup_eq_none_iff.mpr fun entry hentry => bne_iff_ne.mpr ?_
      rintro rfl
      exact hnew (List.contains_iff_mem.mpr (List.mem_map_of_mem hentry))
    rw [hnone]
    rfl

/-- A matcher of literal paths. -/
def literalMatchit : Matchit where
  Matcher := List (Path × ℕ)
  InsertError := Unit
  new := []
  insert := literalInsert
  matchAt matcher path := (matcher.lookup path).map fun value => (value,[])
  select := literalSelect
  select_mem := literalSelect_mem
  matchAt_insert := literalInsert_lookup

/-- A nested root with a deadline, and a method added to a route that exists. -/
def nestedBuild : Build ℕ Unit :=
  .route (.nest (.route .new ['/','a'] (.new .get { handler := 1 })) ['/','b']
    (.timeout (.route .new ['/'] (.new .get { handler := 2 })) 5)) ['/','a'] (.new .post { handler := 3 })

theorem router_means_history_nested :
    ∃ router, nestedBuild.run literalMatchit = .ok router ∧ Means router nestedBuild.history ∧
      router.endpoint ['/','b','/'] .get = some { handler := 2, timeout := some 5 } :=
  ⟨_,rfl,router_means_history nestedBuild _ rfl,rfl⟩

end Literal

end H12Tiny.Web
