import Cdfs.Basis.Bytes
import Cdfs.Basis.Run

/-! # Accepting connections

`cServer::start_accept` (`server/cServer.cc`): the completion handler of an accept starts
a session and accepts again. After an error it accepts again too, but goes on as if there
had been none, so every error adds an outstanding accept and a session without connection.
-/

namespace Cdfs

open Basis

/-- A completed accept: its error, and what starting the session throws. -/
structure Completion where
  error : Option Bytes := none
  thrown : Option Bytes := none
  deriving DecidableEq, Repr

/-- The accepts waiting for a connection, and the completions a session was started for. -/
structure AcceptLoop where
  outstanding : Nat := 0
  sessions : List Completion := []
  deriving DecidableEq, Repr

namespace AcceptLoop

/-- `start_accept`. -/
def startAccept (server : AcceptLoop) : AcceptLoop :=
  { server with outstanding := server.outstanding + 1 }

/-- The completion handler. An exception ends it where it is thrown. -/
def onAccept (server : AcceptLoop) (completion : Completion) : AcceptLoop :=
  let completed := { server with outstanding := server.outstanding - 1 }
  let reported := if completion.error.isSome then completed.startAccept else completed
  if completion.thrown.isSome then reported
  else startAccept { reported with sessions := reported.sessions ++ [completion] }

/-- The server after these completions, in their order. -/
def serve (completions : List Completion) : AcceptLoop :=
  run onAccept (startAccept {}) completions

/-- One accept is outstanding, and sessions were started for connections only. -/
structure Sound (server : AcceptLoop) : Prop where
  outstanding : server.outstanding = 1
  connected : ∀ completion ∈ server.sessions, completion.error = none

/-- An accept that completes without exception is replaced, after an error twice. -/
theorem onAccept_of_started {server : AcceptLoop} {completion : Completion}
    (waiting : 0 < server.outstanding) (started : completion.thrown = none) :
    onAccept server completion =
      { outstanding := server.outstanding + if completion.error.isSome then 1 else 0,
        sessions := server.sessions ++ [completion] } := by
  unfold onAccept startAccept
  rw [started]
  cases completion.error <;> simp <;> omega

/-- Every error of a run is still there as an additional outstanding accept. -/
theorem serve_eq {completions : List Completion}
    (started : ∀ completion ∈ completions, completion.thrown = none) :
    serve completions =
      { outstanding := 1 + completions.countP fun completion => completion.error.isSome,
        sessions := completions } := by
  induction completions using List.reverseRecOn with
  | nil => rfl
  | append_singleton completions completion ih =>
      rw [List.forall_mem_append, List.forall_mem_singleton] at started
      unfold serve at ih ⊢
      rw [run_concat, ih started.1, onAccept_of_started (by simp) started.2, List.countP_append,
        List.countP_singleton, Nat.add_assoc]

/-- The loop is sound in every state of a run if and only if no accept of it failed. -/
theorem sound_iff {completions : List Completion}
    (started : ∀ completion ∈ completions, completion.thrown = none) :
    (∀ taken, taken <+: completions → Sound (serve taken)) ↔
      ∀ completion ∈ completions, completion.error = none := by
  constructor
  · intro sound
    have final := (sound completions List.prefix_rfl).connected
    rw [serve_eq started] at final
    exact final
  · intro connected taken early
    have good : ∀ completion ∈ taken, completion.error = none :=
      fun completion member => connected completion (early.subset member)
    rw [serve_eq fun completion member => started completion (early.subset member)]
    refine ⟨?_, good⟩
    rw [Nat.add_eq_left, List.countP_eq_zero]
    intro completion member
    simp [good completion member]

theorem sound_of_connections : Sound (serve [{}, {}]) :=
  (sound_iff (by decide)).mpr (by decide) _ List.prefix_rfl

/-- After one failed accept two are outstanding, and a session runs without connection. -/
theorem not_sound_of_error :
    serve [{ error := some (bytes "Too many open files") }] =
        { outstanding := 2, sessions := [{ error := some (bytes "Too many open files") }] } ∧
      ¬ Sound (serve [{ error := some (bytes "Too many open files") }]) :=
  ⟨rfl, fun sound => absurd sound.outstanding (by decide)⟩

end AcceptLoop

end Cdfs
