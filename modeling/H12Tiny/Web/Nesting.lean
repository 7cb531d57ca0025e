import H12Tiny.Web.Denotation
import Mathlib.Data.Set.Function

/-! # Nesting a router that nests another one

`nest` with one stem after `nest` with another, against `nest` with the joined stem. What a
call of `nest` on a new router builds depends on its registrations only through their
collection: the patterns in the order in which they come first, each with its merged
methods. Behind a stem that names a segment every pattern keeps the text that follows the
stem, and joining one more stem in front never makes two of them equal.
-/
namespace H12Tiny.Web

section Paths

/-- The path is not made of slashes only. -/
def Named (path : Path) : Prop := ∃ c ∈ path, c ≠ '/'

def trimEndSlashes (path : Path) : Path := (trimSlashes path.reverse).reverse

/-- What `join_paths` puts behind a stem other than the root. -/
def suffixOf (path : Path) : Path := if trimSlashes path = [] then [] else '/' :: trimSlashes path

variable {stem path a b : Path}

theorem Named.append_right (h : Named b) (a : Path) : Named (a ++ b) := by
  obtain ⟨c,hmem,hne⟩ := h
  exact ⟨c,List.mem_append_right a hmem,hne⟩

theorem Named.append_left (h : Named a) (b : Path) : Named (a ++ b) := by
  obtain ⟨c,hmem,hne⟩ := h
  exact ⟨c,List.mem_append_left b hmem,hne⟩

theorem Named.reverse (h : Named path) : Named path.reverse := by
  obtain ⟨c,hmem,hne⟩ := h
  exact ⟨c,List.mem_reverse.mpr hmem,hne⟩

theorem Named.ne_root (h : Named path) : path ≠ ['/'] := by
  rintro rfl
  obtain ⟨c,hmem,hne⟩ := h
  exact hne (List.mem_singleton.mp hmem)

theorem Named.trimSlashes_ne_nil (h : Named path) : trimSlashes path ≠ [] := by
  intro hnil
  obtain ⟨c,hmem,hne⟩ := h
  exact hne (of_decide_eq_true (List.dropWhile_eq_nil_iff.mp hnil c hmem))

theorem eq_slash_of_mem_takeWhile {c : Char} (h : c ∈ path.takeWhile (· = '/')) : c = '/' := by
  have hslash := List.mem_takeWhile_imp h
  simpa using hslash

theorem Named.trimSlashes (h : Named path) : Named (trimSlashes path) := by
  obtain ⟨c,hmem,hne⟩ := h
  rw [← List.takeWhile_append_dropWhile (p := (· = '/')) (l := path)] at hmem
  rcases List.mem_append.mp hmem with hslash | hrest
  · exact absurd (eq_slash_of_mem_takeWhile hslash) hne
  · exact ⟨c,hrest,hne⟩

theorem Named.trimEndSlashes (h : Named path) : Named (trimEndSlashes path) := h.reverse.trimSlashes.reverse

theorem trimSlashes_append (h : Named a) (b : Path) : trimSlashes (a ++ b) = trimSlashes a ++ b := by
  rw [trimSlashes,List.dropWhile_append,if_neg]
  · rfl
  · rw [List.isEmpty_iff]
    exact h.trimSlashes_ne_nil

theorem trimEndSlashes_append (a : Path) (h : Named b) :
    trimEndSlashes (a ++ b) = a ++ trimEndSlashes b := by
  rw [trimEndSlashes,List.reverse_append,trimSlashes_append h.reverse,List.reverse_append,List.reverse_reverse]
  rfl

theorem trimSlashes_trimEndSlashes_cons {c : Char} (hc : c ≠ '/') (rest : Path) :
    trimSlashes (trimEndSlashes (c :: rest)) = trimEndSlashes (c :: rest) := by
  have hstart : ∃ kept, trimEndSlashes (c :: rest) = c :: kept := by
    rw [trimEndSlashes,List.reverse_cons,trimSlashes,List.dropWhile_append]
    split
    next => exact ⟨[],by rw [List.dropWhile_cons_of_neg (by simpa using hc)]; rfl⟩
    next => exact ⟨_,by rw [List.reverse_append]; rfl⟩
  obtain ⟨kept,hkept⟩ := hstart
  rw [hkept,trimSlashes,List.dropWhile_cons_of_neg (by simpa using hc)]

theorem trimSlashes_trimEndSlashes (h : Named path) :
    trimSlashes (trimEndSlashes path) = trimEndSlashes (trimSlashes path) := by
  have hsplit : trimEndSlashes path = path.takeWhile (· = '/') ++ trimEndSlashes (trimSlashes path) := by
    rw [← trimEndSlashes_append _ h.trimSlashes]
    exact congrArg trimEndSlashes List.takeWhile_append_dropWhile.symm
  have hslashes : ∀ c ∈ path.takeWhile (· = '/'), decide (c = '/') = true := fun c hc =>
    decide_eq_true (eq_slash_of_mem_takeWhile hc)
  rw [hsplit,trimSlashes,List.dropWhile_append_of_pos hslashes]
  cases htrim : trimSlashes path with
  | nil => rfl
  | cons c rest =>
    have hc : c ≠ '/' := by
      have hhead := List.head?_dropWhile_not (· = '/') path
      rw [show path.dropWhile (· = '/') = c :: rest from htrim] at hhead
      simpa using hhead
    exact trimSlashes_trimEndSlashes_cons hc rest

theorem joinPaths_root (path : Path) : joinPaths ['/'] path = path := if_pos rfl

theorem joinPaths_of_ne (h : stem ≠ ['/']) (path : Path) :
    joinPaths stem path = trimEndSlashes stem ++ suffixOf path := by
  simp only [joinPaths,if_neg h,suffixOf]
  split
  next => rw [List.append_nil]; rfl
  next => rfl

theorem joinPaths_trimEndSlashes (hstem : stem ≠ ['/']) (h : Named path) (rest : Path) :
    joinPaths stem (trimEndSlashes path ++ rest) = trimEndSlashes (joinPaths stem path) ++ rest := by
  have hsuffix : ∀ {path : Path} (rest : Path), Named path →
      suffixOf (path ++ rest) = '/' :: (trimSlashes path ++ rest) := by
    intro path rest h
    rw [suffixOf,trimSlashes_append h,if_neg (List.append_ne_nil_of_left_ne_nil h.trimSlashes_ne_nil rest)]
  have hwhole := hsuffix [] h
  rw [List.append_nil,List.append_nil] at hwhole
  have htrim : trimEndSlashes ('/' :: trimSlashes path) = '/' :: trimEndSlashes (trimSlashes path) :=
    trimEndSlashes_append ['/'] h.trimSlashes
  have hnamed : Named ('/' :: trimSlashes path) := h.trimSlashes.append_right ['/']
  rw [joinPaths_of_ne hstem,joinPaths_of_ne hstem,hsuffix rest h.trimEndSlashes,hwhole,
    trimEndSlashes_append _ hnamed,htrim,trimSlashes_trimEndSlashes h,List.append_assoc]
  rfl

theorem named_joinPaths (h : Named path) (stem : Path) : Named (joinPaths stem path) := by
  by_cases hstem : stem = ['/']
  · rw [hstem,joinPaths_root]
    exact h
  · have hnonempty := h.trimSlashes_ne_nil
    rw [joinPaths_of_ne hstem,suffixOf,if_neg hnonempty]
    exact (h.trimSlashes.append_right ['/']).append_right _

/-- Joining associates. -/
theorem joinPaths_joinPaths (outer : Path) (hstem : stem = ['/'] ∨ Named stem) (path : Path) :
    joinPaths outer (joinPaths stem path) = joinPaths (joinPaths outer stem) path := by
  by_cases houter : outer = ['/']
  · rw [houter,joinPaths_root,joinPaths_root]
  rcases hstem with rfl | hstem
  · -- the slashes at the end of the outer stem are trimmed here, or when the path is joined
    have hjoined : joinPaths outer ['/'] = trimEndSlashes outer := by
      rw [joinPaths_of_ne houter]
      exact List.append_nil _
    have hidem : trimEndSlashes (trimEndSlashes outer) = trimEndSlashes outer := by
      rw [trimEndSlashes,trimEndSlashes,List.reverse_reverse,trimSlashes,trimSlashes,List.dropWhile_idempotent]
    have hne : trimEndSlashes outer ≠ ['/'] := by
      intro hroot
      rw [hroot] at hidem
      exact absurd hidem (by decide)
    rw [joinPaths_root,hjoined,joinPaths_of_ne houter,joinPaths_of_ne hne,hidem]
  · rw [joinPaths_of_ne hstem.ne_root path,joinPaths_trimEndSlashes houter hstem,
      joinPaths_of_ne (named_joinPaths hstem outer).ne_root]

end Paths

section Collection
variable {H : Type}

/-- One registration, as far as the entries go. -/
def register (routes : List (Path × MethodRouter H)) (entry : Path × MethodRouter H) :
    List (Path × MethodRouter H) :=
  if (routes.map Prod.fst).contains entry.1 then extendEntry entry.1 entry.2 routes else routes ++ [entry]

def collect (entries : List (Path × MethodRouter H)) : List (Path × MethodRouter H) := entries.foldl register []

/-- The paths that are not known yet, each where it comes first. -/
def fresh (known : List Path) : List Path → List Path
  | [] => []
  | path :: rest => if known.contains path then fresh known rest else path :: fresh (known ++ [path]) rest

variable {routes entries : List (Path × MethodRouter H)}

theorem extendEntry_fst (path : Path) (methods : MethodRouter H) (routes : List (Path × MethodRouter H)) :
    (extendEntry path methods routes).map Prod.fst = routes.map Prod.fst := by
  induction routes with
  | nil => rfl
  | cons entry routes ih =>
    rw [extendEntry]
    split
    next => rfl
    next => exact congrArg (entry.1 :: ·) ih

theorem register_old {entry : Path × MethodRouter H} (h : entry.1 ∈ routes.map Prod.fst) :
    register routes entry = extendEntry entry.1 entry.2 routes := if_pos (List.contains_iff_mem.mpr h)

theorem register_new {entry : Path × MethodRouter H} (h : entry.1 ∉ routes.map Prod.fst) :
    register routes entry = routes ++ [entry] := if_neg (mt List.contains_iff_mem.mp h)

theorem register_fst (routes : List (Path × MethodRouter H)) (entry : Path × MethodRouter H) :
    (register routes entry).map Prod.fst = if (routes.map Prod.fst).contains entry.1 then routes.map Prod.fst
      else routes.map Prod.fst ++ [entry.1] := by
  rw [register]
  split
  next => exact extendEntry_fst _ _ _
  next => exact List.map_append

theorem foldl_register_fst (routes entries : List (Path × MethodRouter H)) :
    (entries.foldl register routes).map Prod.fst =
      routes.map Prod.fst ++ fresh (routes.map Prod.fst) (entries.map Prod.fst) := by
  induction entries generalizing routes with
  | nil => exact (List.append_nil _).symm
  | cons entry entries ih =>
    rw [List.foldl_cons,ih,register_fst,List.map_cons,fresh]
    split
    next => rfl
    next => rw [List.append_assoc]; rfl

theorem collect_fst (entries : List (Path × MethodRouter H)) :
    (collect entries).map Prod.fst = fresh [] (entries.map Prod.fst) := foldl_register_fst [] entries

theorem nodup_register (h : (routes.map Prod.fst).Nodup) (entry : Path × MethodRouter H) :
    ((register routes entry).map Prod.fst).Nodup := by
  rw [register_fst]
  split
  next => exact h
  next hnew => exact List.nodup_append_comm.mp (List.nodup_cons.mpr ⟨mt List.contains_iff_mem.mpr hnew,h⟩)

theorem nodup_foldl_register (h : (routes.map Prod.fst).Nodup) (entries : List (Path × MethodRouter H)) :
    ((entries.foldl register routes).map Prod.fst).Nodup := by
  induction entries generalizing routes with
  | nil => exact h
  | cons entry entries ih => exact ih (nodup_register h entry)

theorem foldl_register_of_nodup (h : ((routes ++ entries).map Prod.fst).Nodup) :
    entries.foldl register routes = routes ++ entries := by
  induction entries generalizing routes with
  | nil => exact (List.append_nil _).symm
  | cons entry entries ih =>
    have hnew : entry.1 ∉ routes.map Prod.fst := by
      rw [List.map_append,List.map_cons] at h
      exact fun hold => (List.nodup_append.mp h).2.2 _ hold _ List.mem_cons_self rfl
    rw [List.append_cons] at h
    rw [List.foldl_cons,register_new hnew,ih h,List.append_assoc]
    rfl

theorem collect_of_nodup (h : (entries.map Prod.fst).Nodup) : collect entries = entries :=
  foldl_register_of_nodup h

theorem collect_collect (entries : List (Path × MethodRouter H)) : collect (collect entries) = collect entries :=
  collect_of_nodup (@nodup_foldl_register H [] List.nodup_nil entries)

def rename (f : Path → Path) (entries : List (Path × MethodRouter H)) : List (Path × MethodRouter H) :=
  entries.map fun entry => (f entry.1,entry.2)

variable {f : Path → Path} {among : Set Path}

theorem rename_fst (f : Path → Path) (entries : List (Path × MethodRouter H)) :
    (rename f entries).map Prod.fst = (entries.map Prod.fst).map f := by
  simp [rename,Function.comp_def]

theorem extendEntry_rename (hf : Set.InjOn f among) (hroutes : ∀ entry ∈ routes, entry.1 ∈ among) {path : Path}
    (hpath : path ∈ among) (methods : MethodRouter H) :
    extendEntry (f path) methods (rename f routes) = rename f (extendEntry path methods routes) := by
  induction routes with
  | nil => rfl
  | cons entry routes ih =>
    obtain ⟨hentry,hrest⟩ := List.forall_mem_cons.mp hroutes
    have hsame : f entry.1 = f path ↔ entry.1 = path := hf.eq_iff hentry hpath
    simp only [rename,List.map_cons,extendEntry,hsame]
    split
    next => rfl
    next => exact congrArg (_ :: ·) (ih hrest)

theorem register_rename (hf : Set.InjOn f among) (hroutes : ∀ entry ∈ routes, entry.1 ∈ among)
    {entry : Path × MethodRouter H} (hentry : entry.1 ∈ among) :
    register (rename f routes) (f entry.1,entry.2) = rename f (register routes entry) := by
  have hknown : f entry.1 ∈ (rename f routes).map Prod.fst ↔ entry.1 ∈ routes.map Prod.fst := by
    rw [rename_fst]
    refine ⟨fun hmem => ?_,List.mem_map_of_mem⟩
    obtain ⟨path,hpath,hsame⟩ := List.mem_map.mp hmem
    obtain ⟨other,hother,rfl⟩ := List.mem_map.mp hpath
    rw [← hf (hroutes other hother) hentry hsame]
    exact hpath
  simp only [register,List.contains_iff_mem,hknown]
  split
  next => exact extendEntry_rename hf hroutes hentry entry.2
  next =>
    rw [rename,rename,List.map_append]
    rfl

theorem register_among {entry : Path × MethodRouter H} (hroutes : ∀ entry ∈ routes, entry.1 ∈ among)
    (hentry : entry.1 ∈ among) : ∀ other ∈ register routes entry, other.1 ∈ among := by
  intro other hother
  have hpath := List.mem_map_of_mem (f := Prod.fst) hother
  rw [register_fst] at hpath
  have hcases : other.1 ∈ routes.map Prod.fst ∨ other.1 = entry.1 := by
    split at hpath
    next => exact .inl hpath
    next => simpa using List.mem_append.mp hpath
  rcases hcases with hold | hnew
  · obtain ⟨route,hroute,hsame⟩ := List.mem_map.mp hold
    exact hsame ▸ hroutes route hroute
  · exact hnew ▸ hentry

theorem foldl_register_rename (hf : Set.InjOn f among) (hroutes : ∀ entry ∈ routes, entry.1 ∈ among)
    (hentries : ∀ entry ∈ entries, entry.1 ∈ among) :
    (rename f entries).foldl register (rename f routes) = rename f (entries.foldl register routes) := by
  induction entries generalizing routes with
  | nil => rfl
  | cons entry entries ih =>
    obtain ⟨hentry,hrest⟩ := List.forall_mem_cons.mp hentries
    rw [List.foldl_cons,← ih (register_among hroutes hentry) hrest,← register_rename hf hroutes hentry]
    rfl

/-- A renaming that keeps distinct paths distinct commutes with the collection. -/
theorem collect_rename (hf : Set.InjOn f among) (hentries : ∀ entry ∈ entries, entry.1 ∈ among) :
    collect (rename f entries) = rename f (collect entries) :=
  foldl_register_rename hf (fun _ hmem => absurd hmem List.not_mem_nil) hentries

theorem foldl_register_among (hroutes : ∀ entry ∈ routes, entry.1 ∈ among)
    (hentries : ∀ entry ∈ entries, entry.1 ∈ among) :
    ∀ entry ∈ entries.foldl register routes, entry.1 ∈ among := by
  induction entries generalizing routes with
  | nil => exact hroutes
  | cons entry entries ih =>
    obtain ⟨hentry,hrest⟩ := List.forall_mem_cons.mp hentries
    exact ih (register_among hroutes hentry) hrest

end Collection

section Nest
variable {M : Matchit} {H S : Type}

def insertPaths (M : Matchit) (paths : List Path) : Except (RouteConflict M) M.Matcher :=
  paths.zipIdx.foldlM (fun matcher entry =>
    (M.insert matcher entry.1 entry.2).mapError (RouteConflict.mk entry.1)) M.new

/-- The matchers that are built one after the other, each for one path more. -/
def layPaths (M : Matchit) (known : List Path) (matcher : M.Matcher) :
    List Path → Except (RouteConflict M) M.Matcher
  | [] => .ok matcher
  | path :: rest =>
    if known.contains path then layPaths M known matcher rest
    else do
      let matcher ← insertPaths M (known ++ [path])
      layPaths M (known ++ [path]) matcher rest

theorem layPaths_fresh (known : List Path) (matcher : M.Matcher) (paths : List Path) :
    layPaths M known matcher (fresh known paths) = layPaths M known matcher paths := by
  induction paths generalizing known matcher with
  | nil => rfl
  | cons path paths ih =>
    rw [fresh,layPaths]
    split
    next hold => exact ih known matcher
    next hnew =>
      rw [layPaths,if_neg hnew]
      exact congrArg _ (funext fun matcher => ih (known ++ [path]) matcher)

/-- Routes added one after the other: the entries are collected, and the matcher is the last
one of those that are built. -/
theorem foldlM_route (router : Router M H S) (entries : List (Path × MethodRouter H)) :
    entries.foldlM (fun router entry => router.route entry.1 entry.2) router =
      (layPaths M (router.routes.map Prod.fst) router.matcher (entries.map Prod.fst)).map fun matcher =>
        { router with routes := entries.foldl register router.routes, matcher } := by
  induction entries generalizing router with
  | nil => rfl
  | cons entry entries ih =>
    obtain ⟨path,methods⟩ := entry
    rw [List.foldlM_cons,List.map_cons,layPaths,Router.route]
    dsimp only
    by_cases hold : path ∈ router.routes.map Prod.fst
    · have hregister : register router.routes (path,methods) = extendEntry path methods router.routes :=
        register_old hold
      rw [if_pos hold,if_pos (List.contains_iff_mem.mpr hold)]
      refine (ih _).trans ?_
      rw [extendEntry_fst,List.foldl_cons,hregister]
    · have hregister : register router.routes (path,methods) = router.routes ++ [(path,methods)] := register_new hold
      have hpaths : insertPaths M (router.routes.map Prod.fst ++ [path]) =
          buildMatcher M (router.routes ++ [(path,methods)]) := by
        rw [buildMatcher,List.map_append]
        rfl
      rw [if_neg hold,if_neg (mt List.contains_iff_mem.mp hold),hpaths]
      cases buildMatcher M (router.routes ++ [(path,methods)]) with
      | error conflict => rfl
      | ok matcher =>
        refine (ih _).trans ?_
        rw [List.foldl_cons,hregister]
        simp only [List.map_append,List.map_singleton]
        rfl

/-- The registrations that an entry of a nested router becomes. -/
def nestedRoutes (stem : Path) (entry : Path × MethodRouter H) : List (Path × MethodRouter H) :=
  let path := joinPaths stem entry.1
  if entry.1 = ['/'] ∧ path ≠ ['/'] then [(path ++ ['/'],entry.2),(path,entry.2)] else [(path,entry.2)]

theorem nestEntry_eq (stem : Path) (router : Router M H S) (entry : Path × MethodRouter H) :
    Router.nestEntry stem router entry =
      (nestedRoutes stem entry).foldlM (fun router entry => router.route entry.1 entry.2) router := by
  simp only [Router.nestEntry,nestedRoutes]
  split
  next => simp only [List.foldlM_cons,List.foldlM_nil,bind_pure]
  next => simp only [List.foldlM_cons,List.foldlM_nil,bind_pure,pure_bind]

theorem foldlM_nestEntry (stem : Path) (router : Router M H S) (entries : List (Path × MethodRouter H)) :
    entries.foldlM (Router.nestEntry stem) router =
      (entries.flatMap (nestedRoutes stem)).foldlM (fun router entry => router.route entry.1 entry.2) router := by
  induction entries generalizing router with
  | nil => rfl
  | cons entry entries ih =>
    rw [List.foldlM_cons,List.flatMap_cons,List.foldlM_append,nestEntry_eq]
    exact congrArg _ (funext ih)

/-- A new router with these entries, a fallback and a state. -/
def assembled (M : Matchit) (routes : List (Path × MethodRouter H)) (fallback : Option (Endpoint H))
    (state : Option S) : Except (RouteConflict M) (Router M H S) :=
  (layPaths M [] M.new (routes.map Prod.fst)).map fun matcher => ⟨routes,matcher,fallback,state,none⟩

theorem new_nest (stem : Path) (nested : Router M H S) :
    (Router.new : Router M H S).nest stem nested =
      assembled M (collect (nested.routes.flatMap (nestedRoutes stem))) nested.fallback nested.state := by
  rw [Router.nest,foldlM_nestEntry,foldlM_route,assembled,collect_fst,layPaths_fresh]
  simp only [Router.new,List.map_nil]
  cases layPaths M [] M.new ((nested.routes.flatMap (nestedRoutes stem)).map Prod.fst) <;> rfl

variable {stem outer : Path} {entries : List (Path × MethodRouter H)}

theorem flatMap_nestedRoutes_root (entries : List (Path × MethodRouter H)) :
    entries.flatMap (nestedRoutes ['/']) = entries := by
  have hsingle : nestedRoutes (H := H) ['/'] = fun entry => [entry] := by
    funext entry
    simp only [nestedRoutes,joinPaths_root]
    rw [if_neg fun h => h.2 h.1]
  rw [hsingle]
  exact List.flatMap_singleton' entries

theorem nestedRoutes_joinPaths_root (outer : Path) :
    nestedRoutes (H := H) (joinPaths outer ['/']) = nestedRoutes outer := by
  funext entry
  have hjoined := joinPaths_joinPaths outer (.inl rfl) entry.1
  rw [joinPaths_root] at hjoined
  simp only [nestedRoutes,← hjoined]

theorem flatMap_nestedRoutes_of_ne (h : ∀ entry ∈ entries, entry.1 ≠ ['/']) :
    entries.flatMap (nestedRoutes outer) = rename (joinPaths outer) entries := by
  rw [rename,List.map_eq_flatMap]
  refine List.flatMap_congr fun entry hentry => ?_
  exact if_neg fun hroot => h entry hentry hroot.1

/-- What follows a named stem in the patterns of an entry. -/
def suffixes (path : Path) : List Path := if path = ['/'] then [['/'],[]] else [suffixOf path]

theorem nestedRoutes_named (h : Named stem) (entry : Path × MethodRouter H) :
    nestedRoutes stem entry = (suffixes entry.1).map fun rest => (trimEndSlashes stem ++ rest,entry.2) := by
  have hjoined := joinPaths_of_ne h.ne_root entry.1
  have hne : joinPaths stem entry.1 ≠ ['/'] := by
    rw [hjoined]
    exact (h.trimEndSlashes.append_left _).ne_root
  by_cases hroot : entry.1 = ['/']
  · rw [nestedRoutes,if_pos ⟨hroot,hne⟩,suffixes,if_pos hroot,hjoined,hroot]
    simp [suffixOf,trimSlashes]
  · rw [nestedRoutes,if_neg fun h => hroot h.1,suffixes,if_neg hroot,hjoined]
    rfl

/-- The paths that start with the stem. -/
def Under (stem : Path) : Set Path := {path | ∃ rest, path = trimEndSlashes stem ++ rest}

theorem under_of_mem (h : Named stem) :
    ∀ entry ∈ entries.flatMap (nestedRoutes stem), entry.1 ∈ Under stem := by
  intro entry hentry
  obtain ⟨origin,_,hmem⟩ := List.mem_flatMap.mp hentry
  rw [nestedRoutes_named h] at hmem
  obtain ⟨rest,_,rfl⟩ := List.mem_map.mp hmem
  exact ⟨rest,rfl⟩

theorem injOn_joinPaths (houter : outer ≠ ['/']) (h : Named stem) : Set.InjOn (joinPaths outer) (Under stem) := by
  rintro _ ⟨rest,rfl⟩ _ ⟨other,rfl⟩ hsame
  rw [joinPaths_trimEndSlashes houter h,joinPaths_trimEndSlashes houter h] at hsame
  rw [List.append_cancel_left hsame]

theorem rename_flatMap_nestedRoutes (houter : outer ≠ ['/']) (h : Named stem)
    (entries : List (Path × MethodRouter H)) :
    rename (joinPaths outer) (entries.flatMap (nestedRoutes stem)) =
      entries.flatMap (nestedRoutes (joinPaths outer stem)) := by
  rw [rename,List.map_flatMap]
  refine List.flatMap_congr fun entry _ => ?_
  rw [nestedRoutes_named h,nestedRoutes_named (named_joinPaths h outer),List.map_map]
  refine List.map_congr_left fun rest _ => ?_
  exact congrArg (·,entry.2) (joinPaths_trimEndSlashes houter h rest)

/-- The registrations of two calls come to the same entries as those of one. -/
theorem collect_nestedRoutes (hstem : stem = ['/'] ∨ Named stem) (hnodup : (entries.map Prod.fst).Nodup) :
    collect ((collect (entries.flatMap (nestedRoutes stem))).flatMap (nestedRoutes outer)) =
      collect (entries.flatMap (nestedRoutes (joinPaths outer stem))) := by
  rcases hstem with rfl | hstem
  · rw [flatMap_nestedRoutes_root,collect_of_nodup hnodup,nestedRoutes_joinPaths_root]
  by_cases houter : outer = ['/']
  · rw [houter,flatMap_nestedRoutes_root,joinPaths_root,collect_collect]
  · have hunder := @under_of_mem H stem entries hstem
    have hcollected := foldl_register_among (fun _ hmem => absurd hmem List.not_mem_nil) hunder
    have hne : ∀ entry ∈ collect (entries.flatMap (nestedRoutes stem)), entry.1 ≠ ['/'] := by
      intro entry hentry
      obtain ⟨rest,hrest⟩ := hcollected entry hentry
      rw [hrest]
      exact (hstem.trimEndSlashes.append_left rest).ne_root
    rw [flatMap_nestedRoutes_of_ne hne,← collect_rename (injOn_joinPaths houter hstem) hunder,
      rename_flatMap_nestedRoutes houter hstem,collect_collect]

/-- A router that is nested twice is the one nested once under the joined stem, with the same
entries, matcher, fallback and state, and the same conflict if there is one. -/
theorem nest_nest (build : Build H S) (router inner : Router M H S) (outer stem : Path)
    (hrun : build.run M = .ok router) (hstem : stem = ['/'] ∨ Named stem)
    (hinner : (Router.new : Router M H S).nest stem router = .ok inner) :
    (Router.new : Router M H S).nest outer inner = (Router.new : Router M H S).nest (joinPaths outer stem) router ∧
      ∀ path, joinPaths outer (joinPaths stem path) = joinPaths (joinPaths outer stem) path := by
  refine ⟨?_,joinPaths_joinPaths outer hstem⟩
  have hdenotes := build.denotes router hrun
  have hnodup : (router.routes.map Prod.fst).Nodup := by
    rw [hdenotes.routes,History.entries_fst]
    exact History.nodup_patterns _
  rw [new_nest,assembled] at hinner
  obtain ⟨matcher,_,rfl⟩ := map_eq_ok.mp hinner
  rw [new_nest,new_nest,collect_nestedRoutes hstem hnodup]

/-- A root and a route next to it, with a fallback and a state. -/
def rootedBuild : Build ℕ ℕ :=
  .withState (.fallback (.route (.route .new ['/'] (.new .get { handler := 1 })) ['/','c']
    (.new .post { handler := 2 })) 3) 4

theorem nest_nest_api : ∃ router inner both : Router literalMatchit ℕ ℕ,
    rootedBuild.run literalMatchit = .ok router ∧ Router.new.nest ['/','b'] router = .ok inner ∧
      Router.new.nest ['/','a','/'] inner = Router.new.nest ['/','a','/','b'] router ∧
      Router.new.nest ['/','a','/'] inner = .ok both ∧
      both.endpoint ['/','a','/','b','/'] .get = some { handler := 1 } ∧
      both.endpoint ['/','a','/','b'] .get = some { handler := 1 } ∧ both.state = some 4 :=
  ⟨_,_,_,rfl,rfl,(nest_nest rootedBuild _ _ ['/','a','/'] ['/','b'] rfl (.inr ⟨'b',by decide,by decide⟩) rfl).1,
    rfl,rfl,rfl,rfl⟩

end Nest

end H12Tiny.Web
