import Cdfs.Http.Router

/-! # Which handler a request gets

A routing table is built by any sequence of `add_route` and `add_prefix` calls. The table
of prefix routes stays sorted by falling length, so its first match is a longest one, and
when no prefix is registered twice for a method the order of the calls does not matter.
-/

namespace Cdfs

open Basis

variable {Handler : Type}

/-- A call that registers a handler. -/
inductive Registration (Handler : Type) where
  | addRoute (method : Verb) (path : Bytes) (handler : Handler)
  | addPrefix (method : Verb) (path : Bytes) (handler : Handler)

namespace Registration

/-- The handler registered for exactly this method and path. -/
def exactFor (method : Verb) (rawPath : Bytes) : Registration Handler → Option Handler
  | .addRoute routed path handler => if (routed, path) = (method, rawPath) then some handler else none
  | .addPrefix .. => none

/-- The call is one of `add_route`. -/
def isAddRoute : Registration Handler → Bool
  | .addRoute .. => true
  | .addPrefix .. => false

/-- The handler of the call. -/
def handler : Registration Handler → Handler
  | .addRoute _ _ handler => handler
  | .addPrefix _ _ handler => handler

/-- The entry an `add_prefix` call makes. -/
def prefixEntry : Registration Handler → Option (PrefixRoute Handler)
  | .addRoute .. => none
  | .addPrefix method path handler => some ⟨method, path, handler⟩

end Registration

namespace Router

/-- The effect of a call on the table. -/
def register (sorting : RouteSort Handler) (router : Router Handler) :
    Registration Handler → Router Handler
  | .addRoute method path handler => router.addRoute method path handler
  | .addPrefix method path handler => router.addPrefix sorting method path handler

/-- The table after a sequence of calls. -/
def registered (sorting : RouteSort Handler) (calls : List (Registration Handler)) :
    Router Handler := calls.foldl (register sorting) {}

/-- One more registration. -/
theorem registered_concat (sorting : RouteSort Handler) (calls : List (Registration Handler))
    (call : Registration Handler) :
    registered sorting (calls ++ [call]) = register sorting (registered sorting calls) call :=
  List.foldl_concat ..

/-- The handler last registered by `add_route` for the method and path. -/
def exactHandler (calls : List (Registration Handler)) (method : Verb) (rawPath : Bytes) :
    Option Handler := (calls.filterMap (Registration.exactFor method rawPath)).getLast?

/-- The entries made by the `add_prefix` calls, in their order. -/
def prefixEntries (calls : List (Registration Handler)) : List (PrefixRoute Handler) :=
  calls.filterMap Registration.prefixEntry

/-- The lookup of `dispatch` in the table of exact routes. -/
def findExact (router : Router Handler) (method : Verb) (rawPath : Bytes) : Option Handler :=
  (router.routers.find? fun entry => entry.1 = (method, rawPath)).map Prod.snd

/-- The last route registered for a path counts. -/
theorem findExact_addRoute (router : Router Handler) (routed method : Verb) (path rawPath : Bytes)
    (handler : Handler) :
    (router.addRoute routed path handler).findExact method rawPath =
      if (routed, path) = (method, rawPath) then some handler
      else router.findExact method rawPath := by
  unfold findExact addRoute
  rw [List.find?_cons]
  by_cases same : (routed, path) = (method, rawPath)
  · simp only [same, decide_true, ↓reduceIte, Option.map_some]
  · simp only [same, decide_false, ↓reduceIte, List.find?_filter]
    congr 2
    funext entry
    by_cases found : entry.1 = (method, rawPath)
    · simp [found, Ne.symm same]
    · simp [found]

/-- The exact route found is the one registered last. -/
theorem findExact_registered (sorting : RouteSort Handler) (calls : List (Registration Handler))
    (method : Verb) (rawPath : Bytes) :
    (registered sorting calls).findExact method rawPath = exactHandler calls method rawPath := by
  induction calls using List.reverseRecOn with
  | nil => rfl
  | append_singleton calls call ih =>
      rw [registered_concat, exactHandler, List.filterMap_append]
      cases call with
      | addRoute routed path handler =>
          rw [register, findExact_addRoute, ih]
          by_cases same : (routed, path) = (method, rawPath)
          · simp [Registration.exactFor, same]
          · simp [Registration.exactFor, same, exactHandler]
      | addPrefix routed path handler =>
          rw [List.filterMap_cons_none rfl, List.filterMap_nil, List.append_nil]
          exact ih

/-- The table holds the entries registered, sorted by falling length. -/
theorem prefixRoutes_registered (sorting : RouteSort Handler)
    (calls : List (Registration Handler)) :
    (registered sorting calls).prefixRoutes.Perm (prefixEntries calls) ∧
      (registered sorting calls).prefixRoutes.Pairwise fun first second =>
        second.path.length ≤ first.path.length := by
  induction calls using List.reverseRecOn with
  | nil => exact ⟨.refl _, .nil⟩
  | append_singleton calls call ih =>
      rw [registered_concat, prefixEntries, List.filterMap_append]
      cases call with
      | addRoute routed path handler =>
          rw [List.filterMap_cons_none rfl, List.filterMap_nil, List.append_nil]
          exact ih
      | addPrefix routed path handler =>
          exact ⟨(sorting.sort_perm _).trans (ih.1.append_right _), sorting.sort_sorted _⟩

end Router

/-- The entry serves the method and its prefix starts the path. -/
def PrefixRoute.Matches (entry : PrefixRoute Handler) (method : Verb) (rawPath : Bytes) : Prop :=
  entry.method = method ∧ entry.path <+: rawPath

namespace Router

/-- A matching entry whose prefix is at least as long as that of every matching entry. -/
def LongestMatch (entries : List (PrefixRoute Handler)) (method : Verb) (rawPath : Bytes)
    (entry : PrefixRoute Handler) : Prop :=
  entry ∈ entries ∧ entry.Matches method rawPath ∧
    ∀ other ∈ entries, other.Matches method rawPath → other.path.length ≤ entry.path.length

/-- What the calls promise for a request: the last exact route; else a longest prefix
with the rest of the path; else nothing. -/
inductive Chooses (calls : List (Registration Handler)) (method : Verb) (rawPath : Bytes) :
    Option (Handler × Bytes) → Prop where
  | exact {handler : Handler} (last : exactHandler calls method rawPath = some handler) :
      Chooses calls method rawPath (some (handler, []))
  | byPrefix {entry : PrefixRoute Handler} {suffix : Bytes}
      (noExact : exactHandler calls method rawPath = none)
      (longest : LongestMatch (prefixEntries calls) method rawPath entry)
      (cut : entry.path ++ suffix = rawPath) :
      Chooses calls method rawPath (some (entry.handler, suffix))
  | nothing (noExact : exactHandler calls method rawPath = none)
      (noMatch : ∀ entry ∈ prefixEntries calls, ¬ entry.Matches method rawPath) :
      Chooses calls method rawPath none

/-- The test of the loop. -/
theorem matches_iff (entry : PrefixRoute Handler) (method : Verb) (rawPath : Bytes) :
    (entry.method = method && entry.path.isPrefixOf rawPath) = true ↔
      entry.Matches method rawPath := by
  rw [Bool.and_eq_true_iff, decide_eq_true_iff, List.isPrefixOf_iff_prefix]
  rfl

/-- The first match in a table sorted by falling length is a longest one. -/
theorem longestMatch_of_find? {entries : List (PrefixRoute Handler)} {method : Verb}
    {rawPath : Bytes} {entry : PrefixRoute Handler}
    (sorted : entries.Pairwise fun first second => second.path.length ≤ first.path.length)
    (found : entries.find? (fun entry =>
      entry.method = method && entry.path.isPrefixOf rawPath) = some entry) :
    LongestMatch entries method rawPath entry := by
  obtain ⟨matching, before, after, rfl, earlier⟩ := List.find?_eq_some_iff_append.mp found
  refine ⟨by simp, (matches_iff entry method rawPath).mp matching, ?_⟩
  intro other member otherMatches
  rcases List.mem_append.mp member with member | member
  · have skipped := earlier other member
    rw [(matches_iff other method rawPath).mpr otherMatches] at skipped
    exact absurd skipped (by decide)
  · rcases List.mem_cons.mp member with rfl | member
    · exact Nat.le_refl _
    · exact List.rel_of_pairwise_cons (List.pairwise_append.mp sorted).2.1 member

/-- A choice does not depend on the order of the entries. -/
theorem LongestMatch.perm {entries others : List (PrefixRoute Handler)} {method : Verb}
    {rawPath : Bytes} {entry : PrefixRoute Handler} (same : entries.Perm others)
    (longest : LongestMatch entries method rawPath entry) :
    LongestMatch others method rawPath entry :=
  ⟨same.mem_iff.mp longest.1, longest.2.1, fun other member =>
    longest.2.2 other (same.mem_iff.mpr member)⟩

/-- `route` chooses as the calls promise. -/
theorem chooses_route (sorting : RouteSort Handler) (calls : List (Registration Handler))
    (method : Verb) (rawPath : Bytes) :
    Chooses calls method rawPath ((registered sorting calls).route method rawPath) := by
  obtain ⟨same, sorted⟩ := prefixRoutes_registered sorting calls
  have exactly := findExact_registered sorting calls method rawPath
  unfold findExact at exactly
  unfold route
  cases exactFound : (registered sorting calls).routers.find?
      fun entry => entry.1 = (method, rawPath) with
  | some entry =>
      rw [exactFound] at exactly
      exact .exact exactly.symm
  | none =>
      rw [exactFound] at exactly
      cases found : (registered sorting calls).prefixRoutes.find? fun entry =>
          entry.method = method && entry.path.isPrefixOf rawPath with
      | some entry =>
          have longest := (longestMatch_of_find? sorted found).perm same
          obtain ⟨suffix, cut⟩ := longest.2.1.2
          refine .byPrefix exactly.symm longest ?_
          rw [← cut, List.drop_left]
      | none =>
          refine .nothing exactly.symm fun entry member => ?_
          rw [← matches_iff]
          exact List.find?_eq_none.mp found entry (same.mem_iff.mpr member)

/-- Two longest matches have the same prefix. -/
theorem LongestMatch.path_eq {entries : List (PrefixRoute Handler)} {method : Verb}
    {rawPath : Bytes} {first second : PrefixRoute Handler}
    (firstLongest : LongestMatch entries method rawPath first)
    (secondLongest : LongestMatch entries method rawPath second) : first.path = second.path := by
  have length : first.path.length = second.path.length := Nat.le_antisymm
    (secondLongest.2.2 first firstLongest.1 firstLongest.2.1)
    (firstLongest.2.2 second secondLongest.1 secondLongest.2.1)
  exact (List.prefix_of_prefix_length_le firstLongest.2.1.2 secondLongest.2.1.2
    length.le).eq_of_length length

/-- No method and prefix is registered twice. -/
def DistinctPrefixes (calls : List (Registration Handler)) : Prop :=
  ((prefixEntries calls).map fun entry => (entry.method, entry.path)).Nodup

/-- With distinct prefixes there is one longest match. -/
theorem LongestMatch.eq {calls : List (Registration Handler)} {method : Verb} {rawPath : Bytes}
    {first second : PrefixRoute Handler} (distinct : DistinctPrefixes calls)
    (firstLongest : LongestMatch (prefixEntries calls) method rawPath first)
    (secondLongest : LongestMatch (prefixEntries calls) method rawPath second) :
    first = second := by
  refine List.inj_on_of_nodup_map distinct firstLongest.1 secondLongest.1 ?_
  exact Prod.ext (firstLongest.2.1.1.trans secondLongest.2.1.1.symm)
    (firstLongest.path_eq secondLongest)

/-- With distinct prefixes the promise leaves one choice. -/
theorem Chooses.unique {calls : List (Registration Handler)} {method : Verb} {rawPath : Bytes}
    {first second : Option (Handler × Bytes)} (distinct : DistinctPrefixes calls)
    (left : Chooses calls method rawPath first) (right : Chooses calls method rawPath second) :
    first = second := by
  cases left with
  | exact last =>
      cases right with
      | exact other => rw [last] at other; cases other; rfl
      | byPrefix noExact => rw [last] at noExact; cases noExact
      | nothing noExact => rw [last] at noExact; cases noExact
  | byPrefix noExact longest cut =>
      cases right with
      | exact last => rw [last] at noExact; cases noExact
      | byPrefix _ other otherCut =>
          obtain rfl := longest.eq distinct other
          rw [List.append_cancel_left (cut.trans otherCut.symm)]
      | nothing _ noMatch => exact absurd longest.2.1 (noMatch _ longest.1)
  | nothing noExact noMatch =>
      cases right with
      | exact last => rw [last] at noExact; cases noExact
      | byPrefix _ longest => exact absurd longest.2.1 (noMatch _ longest.1)
      | nothing => rfl

/-- The same `add_route` calls in the same order, and the same `add_prefix` calls in any
order. -/
structure Reordered (calls others : List (Registration Handler)) : Prop where
  routes : others.filter Registration.isAddRoute = calls.filter Registration.isAddRoute
  prefixes : (prefixEntries others).Perm (prefixEntries calls)

/-- Prefix routes do not matter for exact ones. -/
theorem exactHandler_filter (calls : List (Registration Handler)) (method : Verb)
    (rawPath : Bytes) :
    exactHandler (calls.filter Registration.isAddRoute) method rawPath =
      exactHandler calls method rawPath := by
  unfold exactHandler
  rw [List.filterMap_filter]
  congr 2
  funext call
  cases call <;> rfl

/-- Reordering keeps what is promised. -/
theorem Chooses.reordered {calls others : List (Registration Handler)} {method : Verb}
    {rawPath : Bytes} {choice : Option (Handler × Bytes)} (same : Reordered calls others)
    (chosen : Chooses others method rawPath choice) : Chooses calls method rawPath choice := by
  have exactly : exactHandler calls method rawPath = exactHandler others method rawPath := by
    rw [← exactHandler_filter calls, ← same.routes, exactHandler_filter]
  cases chosen with
  | exact last => exact .exact (exactly.trans last)
  | byPrefix noExact longest cut =>
      exact .byPrefix (exactly.trans noExact) (longest.perm same.prefixes) cut
  | nothing noExact noMatch =>
      exact .nothing (exactly.trans noExact) fun entry member =>
        noMatch entry (same.prefixes.mem_iff.mpr member)

/-- With distinct prefixes every order of the calls, and every sorting of ties, chooses
the same. -/
theorem route_reordered {calls others : List (Registration Handler)}
    (distinct : DistinctPrefixes calls) (same : Reordered calls others)
    (sorting otherSorting : RouteSort Handler) (method : Verb) (rawPath : Bytes) :
    (registered otherSorting others).route method rawPath =
      (registered sorting calls).route method rawPath :=
  Chooses.unique distinct ((chooses_route otherSorting others method rawPath).reordered same)
    (chooses_route sorting calls method rawPath)

end Router

end Cdfs
