import Cdfs.Controller.ServerRuns

/-! # The worker threads

`test/server_test.cc` starts the server: every worker thread runs the event loop inside a
`try`, and an exception that a handler lets through ends the loop of the worker that ran
the handler. Nothing starts another worker. A request whose query does not parse throws
before any handler is called, so as many of them as there are workers stop the server for
good, whatever is requested in between (`Cdfs.FileCtl.workers_of_requests`).
-/

namespace Cdfs

open Basis

namespace FileCtl

variable (env : Env) (sorting : RouteSort Route) (status : HttpContext → Handler Reply)

/-- The server with the workers whose event loops still run. -/
structure WorkerPool where
  server : Server
  workers : Nat

/-- A request is taken by some worker that is left. -/
def poolStep (pool : WorkerPool) (request : HttpRequest) : WorkerPool :=
  if pool.workers = 0 then pool
  else
    match (dispatch env sorting status request).run pool.server with
    | .ok _ server => { pool with server }
    | .error _ server => { server, workers := pool.workers - 1 }

/-- The pool after requests. -/
def poolRun : WorkerPool → List HttpRequest → WorkerPool := run (poolStep env sorting status)

/-- An exception escapes from the request. -/
def escapes (server : Server) (request : HttpRequest) : Bool :=
  !(reply (dispatch env sorting status request) server).isOk

/-- How many of the requests let an exception through, handled one after the other. -/
def escapeCount : Server → List HttpRequest → Nat
  | _, [] => 0
  | server, request :: requests =>
      (escapes env sorting status server request).toNat +
        escapeCount (serverStep env sorting status server request) requests

/-- The query of the request does not parse. -/
def malformed (request : HttpRequest) : Bool :=
  !(UrlUtils.parseQuery (UrlUtils.splitTarget request.target).2).isOk

variable {env sorting status} {server : Server} {workers : Nat}

/-- A request costs the worker that takes it if an exception escapes. -/
theorem poolStep_succ (request : HttpRequest) :
    poolStep env sorting status ⟨server, workers + 1⟩ request =
      ⟨serverStep env sorting status server request,
        workers + 1 - (escapes env sorting status server request).toNat⟩ := by
  unfold poolStep escapes serverStep reply after
  rw [if_neg (Nat.succ_ne_zero workers)]
  dsimp only
  cases (dispatch env sorting status request).run server <;> rfl

/-- Without workers no request is handled. -/
theorem poolRun_zero (requests : List HttpRequest) :
    poolRun env sorting status ⟨server, 0⟩ requests = ⟨server, 0⟩ := by
  induction requests with
  | nil => rfl
  | cons request requests ih => exact ih

/-- A pool that is left in the end has handled all requests; the workers missing are the
exceptions escaped. -/
theorem poolRun_eq (requests : List HttpRequest) :
    (poolRun env sorting status ⟨server, workers⟩ requests).workers =
        workers - escapeCount env sorting status server requests ∧
      (0 < (poolRun env sorting status ⟨server, workers⟩ requests).workers →
        (poolRun env sorting status ⟨server, workers⟩ requests).server =
          serverRun env sorting status server requests) := by
  induction requests generalizing server workers with
  | nil => exact ⟨rfl, fun _ => rfl⟩
  | cons request requests ih =>
      cases workers with
      | zero =>
          have idle := @poolRun_zero env sorting status server (request :: requests)
          rw [idle]
          exact ⟨(Nat.zero_sub _).symm, fun left => absurd left (lt_irrefl 0)⟩
      | succ workers =>
          have first := @poolStep_succ env sorting status server workers request
          have rest := @ih (serverStep env sorting status server request)
            (workers + 1 - (escapes env sorting status server request).toNat)
          have taken : poolRun env sorting status ⟨server, workers + 1⟩ (request :: requests) =
              poolRun env sorting status ⟨serverStep env sorting status server request,
                workers + 1 - (escapes env sorting status server request).toNat⟩ requests := by
            rw [← first]
            rfl
          rw [taken, escapeCount, ← Nat.sub_sub]
          exact rest

/-- A request whose query does not parse throws before it reaches a handler. -/
theorem escapes_of_malformed {request : HttpRequest} (broken : malformed request = true)
    (server : Server) : escapes env sorting status server request = true ∧
      serverStep env sorting status server request = server := by
  unfold malformed at broken
  unfold escapes serverStep dispatch
  rw [Router.dispatch_eq]
  cases parsed : UrlUtils.parseQuery (UrlUtils.splitTarget request.target).2 with
  | ok query =>
      rw [parsed] at broken
      cases broken
  | error thrown => exact ⟨rfl, rfl⟩

/-- Every request that does not parse is among the exceptions. -/
theorem countP_malformed_le (server : Server) (requests : List HttpRequest) :
    requests.countP malformed ≤ escapeCount env sorting status server requests := by
  induction requests generalizing server with
  | nil => exact Nat.le_refl 0
  | cons request requests ih =>
      have later := ih (serverStep env sorting status server request)
      rw [List.countP_cons, escapeCount]
      by_cases broken : malformed request = true
      · rw [if_pos broken, (escapes_of_malformed broken server).1, Bool.toNat_true]
        omega
      · rw [if_neg broken]
        omega

/-- **Exceptions use up the workers.** As many workers are left as exceptions have not
escaped; while one is left the server has handled every request; and when as many requests
did not parse as there were workers, nothing is handled any more. -/
theorem workers_of_requests (server : Server) (workers : Nat) (requests : List HttpRequest) :
    let final := poolRun env sorting status ⟨server, workers⟩ requests
    final.workers = workers - escapeCount env sorting status server requests ∧
      (0 < final.workers → final.server = serverRun env sorting status server requests) ∧
      (workers ≤ requests.countP malformed →
        ∀ more, poolRun env sorting status final more = final) := by
  intro final
  obtain ⟨left, handled⟩ := @poolRun_eq env sorting status server workers requests
  refine ⟨left, handled, fun many more => ?_⟩
  have none : final.workers = 0 := by
    have escaped := @countP_malformed_le env sorting status server requests
    rw [left]
    omega
  have empty : final = ⟨final.server, 0⟩ := by
    rw [← none]
  rw [empty]
  exact poolRun_zero more

/-- One worker, an upload and a query that ends in the middle of an escape sequence. -/
theorem workers_of_brokenQuery :
    let final := poolRun sampleEnv (Router.mergeSorting _) sampleStatus ⟨sampleServer, 1⟩
      (sampleTraffic ++ [{ method := .get, target := bytes "/check_chunk?md5=%zz" }])
    ∀ more, poolRun sampleEnv (Router.mergeSorting _) sampleStatus final more = final :=
  (workers_of_requests sampleServer 1 _).2.2 (by decide +kernel)

end FileCtl

end Cdfs
