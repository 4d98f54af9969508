import Cdfs.Basis.Effect
import Cdfs.Http.Routing
import Cdfs.Http.UrlEncoding

/-! # Dispatching a request to its handler

`Router::dispatch` with the handler's call: the query is parsed before a route is looked
up, and nothing between it and the session catches what the parser throws. A handler is
given a sender; the replies sent are collected in the exchange.
-/

namespace Cdfs

open Basis

/-- What a request can change: the counter of requests, the replies sent, and whatever
the handlers work on. -/
structure Exchange (World : Type) where
  world : World
  totalRequests : UInt64 := 0
  sent : List Reply := []

/-- A handler at work, or the router itself. -/
abbrev Action (World : Type) := EStateM Exn (Exchange World)

variable {World : Type}

/-- The sender a session hands to the router. -/
def sender (reply : Reply) : Action World Unit :=
  modify fun exchange => { exchange with sent := exchange.sent ++ [reply] }

/-- A registered handler; a function object can be empty. -/
abbrev HandlerFunction (World : Type) := Option (HttpContext → Action World Unit)

/-- What calling an empty function object throws. -/
def badFunctionCall : Exn := .other (bytes "bad_function_call")

namespace Router

/-- `g_total_requests++`. -/
def countRequest : Action World Unit :=
  modify fun exchange => { exchange with totalRequests := exchange.totalRequests + 1 }

/-- `dispatch`. Only the entries of prefix routes are tested for an empty handler. -/
def dispatchRequest (router : Router (HandlerFunction World)) (request : HttpRequest) :
    Action World Unit := do
  countRequest
  match router.dispatch request with
  | .error thrown => throw thrown
  | .ok none => sender .notFound
  | .ok (some (some handler, ctx)) => handler ctx
  | .ok (some (none, ctx)) =>
      if (router.findExact request.method ctx.path).isSome then throw badFunctionCall
      else sender (.error (bytes "Internal Server Error") 404)

/-- The context of a request routed with this rest of the path. -/
def requestContext (request : HttpRequest) (query : OrderedMap Bytes Bytes) (suffix : Bytes) :
    HttpContext where
  path := (UrlUtils.splitTarget request.target).1
  query := query
  pathSuffix := suffix
  contentType := request.contentType
  body := request.body

/-- Call the handler chosen, or send the page for a path without route. -/
def perform (request : HttpRequest) (query : OrderedMap Bytes Bytes) :
    Option ((HttpContext → Action World Unit) × Bytes) → Action World Unit
  | some (handler, suffix) => handler (requestContext request query suffix)
  | none => sender .notFound

/-- The query is parsed before the route is looked for. -/
theorem dispatch_eq {Handler : Type} (router : Router Handler) (request : HttpRequest) :
    router.dispatch request = (UrlUtils.parseQuery (UrlUtils.splitTarget request.target).2).map
      fun query => (router.route request.method (UrlUtils.splitTarget request.target).1).map
        fun found => (found.1, requestContext request query found.2) := rfl

/-- The handler registered by every call is not empty. -/
def NonemptyHandlers (calls : List (Registration (HandlerFunction World))) : Prop :=
  ∀ call ∈ calls, call.handler.isSome = true

/-- The choice in terms of the functions themselves. -/
def wrap (choice : Option ((HttpContext → Action World Unit) × Bytes)) :
    Option (HandlerFunction World × Bytes) :=
  choice.map fun chosen => (some chosen.1, chosen.2)

/-- A handler chosen is one registered. -/
theorem Chooses.registered {Handler : Type} {calls : List (Registration Handler)} {method : Verb}
    {rawPath : Bytes} {handler : Handler} {suffix : Bytes}
    (chosen : Chooses calls method rawPath (some (handler, suffix))) :
    ∃ call ∈ calls, call.handler = handler := by
  cases chosen with
  | exact last =>
      obtain ⟨call, member, made⟩ := List.mem_filterMap.mp (List.mem_of_getLast? last)
      refine ⟨call, member, ?_⟩
      cases call with
      | addRoute routed path handler =>
          by_cases same : (routed, path) = (method, rawPath)
          · rw [Registration.exactFor, if_pos same] at made
            exact Option.some.inj made
          · rw [Registration.exactFor, if_neg same] at made
            cases made
      | addPrefix => cases made
  | byPrefix _ longest _ =>
      obtain ⟨call, member, made⟩ := List.mem_filterMap.mp longest.1
      refine ⟨call, member, ?_⟩
      cases call with
      | addRoute => cases made
      | addPrefix routed path handler =>
          cases made
          rfl

/-- A table of nonempty handlers makes a choice among them. -/
theorem route_eq_wrap {calls : List (Registration (HandlerFunction World))}
    (nonempty : NonemptyHandlers calls) (sorting : RouteSort (HandlerFunction World))
    (method : Verb) (rawPath : Bytes) :
    ∃ choice, (Router.registered sorting calls).route method rawPath = wrap choice := by
  have chosen := chooses_route sorting calls method rawPath
  cases routed : (Router.registered sorting calls).route method rawPath with
  | none => exact ⟨none, rfl⟩
  | some found =>
      rw [routed] at chosen
      obtain ⟨call, member, same⟩ := Chooses.registered chosen
      obtain ⟨handler, some⟩ := Option.isSome_iff_exists.mp (nonempty call member)
      exact ⟨.some (handler, found.2), by rw [wrap, Option.map_some, ← some, same]⟩

/-- With a query that parses, the handler of the route is performed. -/
theorem dispatchRequest_of_route {router : Router (HandlerFunction World)} {request : HttpRequest}
    {query : OrderedMap Bytes Bytes} {choice : Option ((HttpContext → Action World Unit) × Bytes)}
    (parses : UrlUtils.parseQuery (UrlUtils.splitTarget request.target).2 = .ok query)
    (routed : router.route request.method (UrlUtils.splitTarget request.target).1 = wrap choice) :
    router.dispatchRequest request = countRequest >>= fun _ => perform request query choice := by
  unfold dispatchRequest
  rw [dispatch_eq, parses, routed]
  cases choice <;> rfl

/-- A request whose query parses is handled as the calls promise; with distinct prefixes
it is handled alike after every order of the `add_prefix` calls and under every sorting. -/
theorem dispatchRequest_registered {calls : List (Registration (HandlerFunction World))}
    (nonempty : NonemptyHandlers calls) (sorting : RouteSort (HandlerFunction World))
    (request : HttpRequest) {query : OrderedMap Bytes Bytes}
    (parses : UrlUtils.parseQuery (UrlUtils.splitTarget request.target).2 = .ok query) :
    ∃ choice,
      Chooses calls request.method (UrlUtils.splitTarget request.target).1 (wrap choice) ∧
      (Router.registered sorting calls).dispatchRequest request =
        (countRequest >>= fun _ => perform request query choice) ∧
      (DistinctPrefixes calls → ∀ otherSorting others, Reordered calls others →
        (Router.registered otherSorting others).dispatchRequest request =
          (countRequest >>= fun _ => perform request query choice)) := by
  obtain ⟨choice, routed⟩ := route_eq_wrap nonempty sorting request.method
    (UrlUtils.splitTarget request.target).1
  refine ⟨choice, routed ▸ chooses_route sorting calls _ _,
    dispatchRequest_of_route parses routed, ?_⟩
  intro distinct otherSorting others same
  exact dispatchRequest_of_route parses
    ((route_reordered distinct same sorting otherSorting _ _).trans routed)

/-- Ties keep their order: the merge sort of the library. -/
def mergeSorting (Handler : Type) : RouteSort Handler where
  sort := fun routes => routes.mergeSort fun first second =>
    decide (second.path.length ≤ first.path.length)
  sort_perm := fun routes => List.mergeSort_perm routes _
  sort_sorted := fun routes => by
    refine (List.pairwise_mergeSort ?_ ?_ routes).imp fun ordered => of_decide_eq_true ordered
    · intro first second third before after
      exact decide_eq_true ((of_decide_eq_true after).trans (of_decide_eq_true before))
    · intro first second
      simpa using Nat.le_total second.path.length first.path.length

/-- A handler that only sends a reply with its name. -/
def named (name : String) : HandlerFunction Unit := some fun _ => sender (.success (bytes name) .null)

/-- Two nested prefixes and an exact route under one of them. -/
def sampleCalls : List (Registration (HandlerFunction Unit)) :=
  [.addPrefix .get (bytes "/group1/") (named "files"),
   .addRoute .get (bytes "/group1/status") (named "status"),
   .addPrefix .get (bytes "/group1/view/") (named "view")]

/-- A request below both prefixes. -/
def sampleRequest : HttpRequest where
  method := .get
  target := bytes "/group1/view/a?size=1"

/-- The longest registered prefix is chosen, in every order of registration. -/
theorem dispatchRequest_registered_sampleCalls :
    ∃ choice,
      Chooses sampleCalls .get (bytes "/group1/view/a") (wrap choice) ∧
      (Router.registered (mergeSorting _) sampleCalls).dispatchRequest sampleRequest =
        (countRequest >>= fun _ =>
          perform sampleRequest (UrlUtils.lastWins [(bytes "size", bytes "1")]) choice) ∧
      (DistinctPrefixes sampleCalls → ∀ otherSorting others, Reordered sampleCalls others →
        (Router.registered otherSorting others).dispatchRequest sampleRequest =
          (countRequest >>= fun _ =>
            perform sampleRequest (UrlUtils.lastWins [(bytes "size", bytes "1")]) choice)) :=
  dispatchRequest_registered (by simp [NonemptyHandlers, sampleCalls, named, Registration.handler])
    (mergeSorting _) sampleRequest rfl

/-- The action returns, and it has sent exactly one reply. -/
def OneReply (action : Action World Unit) (exchange : Exchange World) : Prop :=
  Ends action exchange fun result final =>
    result = .ok () ∧ ∃ reply, final.sent = exchange.sent ++ [reply]

/-- The handler is there, never throws and sends exactly one reply. -/
def Answers (handler : HandlerFunction World) : Prop :=
  ∃ run, handler = some run ∧ ∀ ctx exchange, OneReply (run ctx) exchange

/-- Every registered handler answers. -/
structure AllAnswer (router : Router (HandlerFunction World)) : Prop where
  routes : ∀ entry ∈ router.routers, Answers entry.2
  prefixes : ∀ entry ∈ router.prefixRoutes, Answers entry.handler

/-- A handler that sends one reply. -/
theorem oneReply_sender (reply : Reply) (exchange : Exchange World) :
    OneReply (sender reply) exchange :=
  Ends.modify ⟨rfl, reply, rfl⟩

/-- A route found leads to a registered handler. -/
theorem AllAnswer.of_route {router : Router (HandlerFunction World)} (answering : AllAnswer router)
    {method : Verb} {rawPath suffix : Bytes} {handler : HandlerFunction World}
    (routed : router.route method rawPath = some (handler, suffix)) : Answers handler := by
  unfold route at routed
  split at routed
  · rename_i entry found
    cases routed
    exact answering.routes entry (List.mem_of_find?_eq_some found)
  · obtain ⟨entry, found, same⟩ := Option.map_eq_some_iff.mp routed
    cases same
    exact answering.prefixes entry (List.mem_of_find?_eq_some found)

/-- Counting the request sends nothing. -/
theorem oneReply_countRequest_bind {next : Unit → Action World Unit} {exchange : Exchange World}
    (answered : ∀ exchange, OneReply (next ()) exchange) :
    OneReply (countRequest >>= next) exchange :=
  answered { exchange with totalRequests := exchange.totalRequests + 1 }

/-- What the parser throws leaves `dispatch`. -/
theorem not_oneReply_of_throws {router : Router (HandlerFunction World)} {request : HttpRequest}
    {thrown : Exn}
    (throws : UrlUtils.parseQuery (UrlUtils.splitTarget request.target).2 = .error thrown)
    (exchange : Exchange World) : ¬ OneReply (router.dispatchRequest request) exchange := by
  unfold dispatchRequest
  rw [dispatch_eq, throws]
  rintro ⟨returned, _⟩
  cases returned

/-- With a query that parses, an answering router sends one reply. -/
theorem oneReply_of_parses {router : Router (HandlerFunction World)} (answering : AllAnswer router)
    {request : HttpRequest} {query : OrderedMap Bytes Bytes}
    (parses : UrlUtils.parseQuery (UrlUtils.splitTarget request.target).2 = .ok query)
    (exchange : Exchange World) : OneReply (router.dispatchRequest request) exchange := by
  cases routed : router.route request.method (UrlUtils.splitTarget request.target).1 with
  | none =>
      have nothing : router.route request.method (UrlUtils.splitTarget request.target).1 =
          wrap none := routed
      rw [dispatchRequest_of_route parses nothing]
      exact oneReply_countRequest_bind (oneReply_sender _)
  | some found =>
      obtain ⟨run, same, answers⟩ := answering.of_route routed
      have chosen : router.route request.method (UrlUtils.splitTarget request.target).1 =
          wrap (some (run, found.2)) := by
        rw [routed, wrap, Option.map_some, ← same]
      rw [dispatchRequest_of_route parses chosen]
      exact oneReply_countRequest_bind (answers _)

/-- A request is answered exactly once if and only if the escape sequences of its query
are well formed. -/
theorem oneReply_dispatchRequest_iff {router : Router (HandlerFunction World)}
    (answering : AllAnswer router) (request : HttpRequest) (exchange : Exchange World) :
    OneReply (router.dispatchRequest request) exchange ↔
      UrlUtils.QueryWellEscaped (UrlUtils.splitTarget request.target).2 := by
  rw [← UrlUtils.isOk_parseQuery_iff]
  cases parsed : UrlUtils.parseQuery (UrlUtils.splitTarget request.target).2 with
  | ok query => exact iff_of_true (oneReply_of_parses answering parsed exchange) rfl
  | error thrown =>
      exact iff_of_false (not_oneReply_of_throws parsed exchange) Bool.false_ne_true

/-- A table with one route. -/
def sampleRouter : Router (HandlerFunction Unit) where
  routers := [((.get, bytes "/ping"), named "pong")]

/-- The handler of the sample router answers. -/
theorem allAnswer_sampleRouter : AllAnswer sampleRouter where
  routes := by
    intro entry member
    obtain rfl := List.mem_singleton.mp member
    exact ⟨_, rfl, fun _ => oneReply_sender _⟩
  prefixes := by
    intro entry member
    cases member

/-- An escaped space in the query parses. -/
theorem oneReply_sampleRouter :
    OneReply (sampleRouter.dispatchRequest { method := .get, target := bytes "/ping?a=1%20b" })
      { world := () } :=
  (oneReply_dispatchRequest_iff allAnswer_sampleRouter _ _).mpr
    ((UrlUtils.isOk_parseQuery_iff _).mp rfl)

/-- The request `GET /ping?a=%zz` is not answered at all: the exception escapes. -/
theorem not_oneReply_of_malformed_query :
    AllAnswer sampleRouter ∧
      ¬ OneReply (sampleRouter.dispatchRequest { method := .get, target := bytes "/ping?a=%zz" })
        { world := () } :=
  ⟨allAnswer_sampleRouter, not_oneReply_of_throws rfl _⟩

end Router

end Cdfs
