import Cdfs.Controller.FileCtlRules

/-! # Downloads

What a GET serves with the routes of the server (`Cdfs.FileCtl.serves_dispatch_iff`): the
path behind `/group1` is put behind the root directory, whatever it is.
-/

namespace Cdfs

open Basis FsPath

namespace FileCtl

variable {env : Env} {server : Server}

/-- The reply serves a file with this content. -/
def Serves (result : Except Exn Reply) (content : Bytes) : Prop :=
  ∃ contentType disposition, result = .ok (.file (.file content) contentType disposition)

/-- Opening for reading, if the call does not fail, finds the entry. -/
theorem openRead_ends {host : Host} {machine : Machine}
    (opens : host.fault machine.calls = .none) (path : Bytes) :
    Ends (Fs.openRead host path) machine fun result _ => ∃ opened, result = .ok opened ∧
      ∀ entry, opened = .opened entry ↔ machine.disk.look path = some entry := by
  unfold Fs.openRead
  apply Fs.ends_begin
  rw [opens]
  apply Fs.ends_disk
  have same : (Fs.begun machine [path]).disk = machine.disk := rfl
  rw [same]
  cases found : machine.disk.look path with
  | some entry =>
      refine ⟨.opened entry, rfl, fun other => ?_⟩
      rw [Opened.opened.injEq, Option.some.injEq]
  | none =>
      refine ⟨_, rfl, fun entry => iff_of_false ?_ nofun⟩
      split
      · exact nofun
      · exact nofun

theorem not_serves_of_send {reply : Reply} (content : Bytes)
    (other : ∀ entry contentType disposition, reply ≠ .file entry contentType disposition) :
    Ends (send env reply) server fun result _ => ¬ Serves result content := by
  refine (send_ends reply).mono ?_
  rintro result final ⟨_, sent⟩ ⟨contentType, disposition, rfl⟩
  rcases sent with sent | thrown
  · exact other _ _ _ (Except.ok.inj sent).symm
  · cases thrown

/-- A download serves the file at the root directory followed by the rest of the path. -/
theorem serves_handleDownload_iff (opens : env.host.fault server.machine.calls = .none)
    (ctx : HttpContext) (content : Bytes) :
    Serves (reply (handleDownload env ctx) server) content ↔ ctx.pathSuffix ≠ [] ∧
      server.machine.disk.look (env.config.rootDir ++ ctx.pathSuffix) = some (.file content) := by
  have ends : Ends (handleDownload env ctx) server fun result _ =>
      Serves result content ↔ ctx.pathSuffix ≠ [] ∧
        server.machine.disk.look (env.config.rootDir ++ ctx.pathSuffix) = some (.file content) := by
    unfold handleDownload
    refine Ends.ite (fun empty => ?_) fun nonempty => ?_
    · refine (not_serves_of_send content ?_).mono fun _ _ silent =>
        iff_of_false silent fun both => both.1 empty
      exact fun _ _ _ => nofun
    · apply Ends.bind (onDisk_ends (openRead_ends opens _))
      · rintro opened middle ⟨⟨_, returned, found⟩, _⟩
        cases returned
        have unopened (closed : ∀ entry, opened ≠ .opened entry) {answer : Reply}
            (other : ∀ entry contentType disposition,
              answer ≠ .file entry contentType disposition) :
            Ends (send env answer) middle fun result _ => Serves result content ↔
              ctx.pathSuffix ≠ [] ∧ server.machine.disk.look
                (env.config.rootDir ++ ctx.pathSuffix) = some (.file content) :=
          (not_serves_of_send content other).mono fun _ _ silent =>
            iff_of_false silent fun both => closed _ ((found _).mpr both.2)
        cases opened with
        | notFound => exact unopened nofun fun _ _ _ => nofun
        | failed => exact unopened nofun fun _ _ _ => nofun
        | opened entry =>
            have there := (found entry).mp rfl
            constructor
            · rintro ⟨_, _, served⟩
              cases served
              exact ⟨nonempty, there⟩
            · rintro ⟨_, other⟩
              rw [there] at other
              cases other
              exact ⟨_, _, rfl⟩
      · rintro thrown final ⟨⟨_, returned, _⟩, _⟩
        cases returned
  exact reply_after_of_ends ends

theorem prefixRoutes_routes (sorting : RouteSort Route) :
    (routes sorting).prefixRoutes = [⟨.get, bytes "/group1", .download⟩] :=
  List.perm_singleton.mp (sorting.sort_perm [⟨.get, bytes "/group1", .download⟩])

/-- A GET of a path that goes down at least one directory is for the download or has no
route. -/
theorem route_get (sorting : RouteSort Route) {rawPath : Bytes}
    (deep : ∀ name, (47 : UInt8) ∉ name → rawPath ≠ 47 :: name) :
    (routes sorting).route .get rawPath =
      if bytes "/group1" <+: rawPath then some (.download, rawPath.drop 7) else none := by
  have exact_none : ((routes sorting).routers.find? fun entry => entry.1 = (.get, rawPath)) = none := by
    have other (name : Bytes) (plain : (47 : UInt8) ∉ name) : 47 :: name ≠ rawPath :=
      (deep name plain).symm
    have listed : (routes sorting).routers = [((.post, bytes "/merge"), .merge),
        ((.get, bytes "/status"), .status), ((.get, bytes "/upload_chunk"), .chunkUpload),
        ((.get, bytes "/check_chunk"), .checkChunk), ((.post, bytes "/upload"), .upload),
        ((.post, bytes "/check"), .check)] := by rfl
    rw [listed, List.find?_eq_none]
    simp only [List.mem_cons, List.not_mem_nil, or_false, forall_eq_or_imp, forall_eq,
      Prod.mk.injEq, reduceCtorEq, false_and, not_false_eq_true, true_and, and_true,
      decide_eq_true_eq]
    exact ⟨other (bytes "status") (by decide), other (bytes "upload_chunk") (by decide),
      other (bytes "check_chunk") (by decide)⟩
  rw [Router.route, exact_none, prefixRoutes_routes]
  dsimp only
  by_cases routed : bytes "/group1" <+: rawPath
  · rw [if_pos routed, List.find?_cons_of_pos (by simpa using routed)]
    rfl
  · rw [if_neg routed, List.find?_cons_of_neg (by simpa using routed)]
    rfl

/-- What a GET serves. -/
theorem serves_dispatch_iff (opens : env.host.fault server.machine.calls = .none)
    (sorting : RouteSort Route) (status : HttpContext → Handler Reply) {target : Bytes} (content : Bytes)
    (deep : ∀ name, (47 : UInt8) ∉ name → (UrlUtils.splitTarget target).1 ≠ 47 :: name) :
    Serves (reply (dispatch env sorting status { method := .get, target }) server) content ↔
      (UrlUtils.parseQuery (UrlUtils.splitTarget target).2).isOk = true ∧
      bytes "/group1" <+: (UrlUtils.splitTarget target).1 ∧
      (UrlUtils.splitTarget target).1.drop 7 ≠ [] ∧
      server.machine.disk.look
        (env.config.rootDir ++ (UrlUtils.splitTarget target).1.drop 7) = some (.file content) := by
  unfold dispatch Router.dispatch
  dsimp only
  cases UrlUtils.parseQuery (UrlUtils.splitTarget target).2 with
  | error thrown =>
      refine iff_of_false ?_ fun all => nomatch all.1
      rintro ⟨_, _, served⟩
      cases served
  | ok query =>
      rw [Except.map, route_get sorting deep]
      by_cases routed : bytes "/group1" <+: (UrlUtils.splitTarget target).1
      · rw [if_pos routed]
        refine (serves_handleDownload_iff opens _ content).trans ?_
        exact ⟨fun both => ⟨rfl, routed, both⟩, fun all => all.2.2⟩
      · rw [if_neg routed]
        refine iff_of_false ?_ fun all => routed all.2.1
        rintro ⟨_, _, served⟩
        cases served

end FileCtl

end Cdfs
