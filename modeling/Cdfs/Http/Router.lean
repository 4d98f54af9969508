import Cdfs.Basis.Json
import Cdfs.Http.Multipart
import Cdfs.Http.UrlUtils

/-! # Requests, replies and routing

What the handlers see of a request (`server/HttpContext.h`), the replies they send, and
the routing table of `server/Router.cc`: exact routes first, then the prefix routes in
the order of the table, which `add_prefix` keeps sorted by falling length.
-/

namespace Cdfs

open Basis

/-- The request methods the routes distinguish. -/
inductive Verb where
  | get
  | post
  | other (name : Bytes)
  deriving DecidableEq, Repr

/-- A request as it was read from the connection. -/
structure HttpRequest where
  method : Verb
  target : Bytes
  contentType : Bytes := []
  body : Bytes := []

/-- What a handler is given: the request, its query parameters, and the rest of the
path behind a prefix route. -/
structure HttpContext where
  path : Bytes := []
  query : OrderedMap Bytes Bytes := OrderedMap.empty
  pathSuffix : Bytes := []
  contentType : Bytes := []
  body : Bytes := []

namespace HttpContext

/-- `get_form`: an empty form when the body cannot be parsed. -/
def getForm (ctx : HttpContext) : MultipartForm := (Multipart.parse ctx.contentType ctx.body).getD {}

/-- `is_multipart`. -/
def isMultipart (ctx : HttpContext) : Bool :=
  (find ctx.contentType (bytes "multipart/form-data") 0).isSome

/-- A query parameter; absent and empty are treated alike. -/
def queryParam (ctx : HttpContext) (key : Bytes) : Bytes := (ctx.query.get key).getD []

/-- The context of a request that posts a form as browsers write it. -/
def ofParts (parts : List Multipart.FormPart) : HttpContext where
  contentType := bytes "multipart/form-data; boundary=b"
  body := Multipart.encodeParts (bytes "b") parts

end HttpContext

/-- A reply: a JSON object with `status`, `message` and `data`, a file, or the page of the
router for a path without route. -/
inductive Reply where
  | success (message : Bytes) (data : Json)
  | error (message : Bytes) (status : Nat)
  | file (entry : Node) (contentType contentDisposition : Bytes)
  | notFound

/-- The JSON object of a reply. -/
def Reply.json : Reply → Option Json
  | .success message data => some (.object
      [(bytes "status", .str (bytes "ok")), (bytes "message", .str message), (bytes "data", data)])
  | .error message _ => some (.object
      [(bytes "status", .str (bytes "fail")), (bytes "message", .str message), (bytes "data", .null)])
  | _ => none

/-- Printing the reply throws: a string of it is not UTF-8. -/
def Reply.unprintable (codec : JsonCodec) (reply : Reply) : Bool :=
  reply.json.any fun json => (codec.dump json).isNone

/-- The exception of the JSON library for such a string. -/
def invalidUtf8 : Exn := .other (bytes "[json.exception.type_error.316] invalid UTF-8 byte")

/-- An entry of the table of prefix routes. -/
structure PrefixRoute (Handler : Type) where
  method : Verb
  path : Bytes
  handler : Handler

/-- A sorting function by falling length; ties may end up in any order. -/
structure RouteSort (Handler : Type) where
  sort : List (PrefixRoute Handler) → List (PrefixRoute Handler)
  sort_perm : ∀ routes, (sort routes).Perm routes
  sort_sorted : ∀ routes, (sort routes).Pairwise fun first second =>
    second.path.length ≤ first.path.length

/-- The routing table. -/
structure Router (Handler : Type) where
  routers : List ((Verb × Bytes) × Handler) := []
  prefixRoutes : List (PrefixRoute Handler) := []

namespace Router

variable {Handler : Type}

/-- `add_route`: a later handler replaces an earlier one. -/
def addRoute (router : Router Handler) (method : Verb) (path : Bytes) (handler : Handler) :
    Router Handler :=
  { router with routers :=
      ((method, path), handler) :: router.routers.filter fun entry => entry.1 ≠ (method, path) }

/-- `add_prefix`. -/
def addPrefix (sorting : RouteSort Handler) (router : Router Handler) (method : Verb) (path : Bytes)
    (handler : Handler) : Router Handler :=
  { router with prefixRoutes :=
      sorting.sort (router.prefixRoutes ++ [⟨method, path, handler⟩]) }

/-- The handler for a method and path, with the rest of the path behind a prefix. -/
def route (router : Router Handler) (method : Verb) (rawPath : Bytes) : Option (Handler × Bytes) :=
  match router.routers.find? fun entry => entry.1 = (method, rawPath) with
  | some entry => some (entry.2, [])
  | none =>
      (router.prefixRoutes.find? fun entry =>
        entry.method = method && entry.path.isPrefixOf rawPath).map fun entry =>
          (entry.handler, rawPath.drop entry.path.length)

/-- `dispatch` up to the call of the handler: an exception when the query does not parse,
none when there is no route. -/
def dispatch (router : Router Handler) (request : HttpRequest) :
    Except Exn (Option (Handler × HttpContext)) :=
  let (rawPath, rawQuery) := UrlUtils.splitTarget request.target
  (UrlUtils.parseQuery rawQuery).map fun query =>
    (router.route request.method rawPath).map fun found =>
      (found.1, { path := rawPath, query, pathSuffix := found.2, contentType := request.contentType,
                  body := request.body })

end Router

end Cdfs
