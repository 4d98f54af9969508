import Cdfs.Basis.Run

/-! # The upload limiter

`handleUpload` counts itself in when it starts and refuses to go on when twenty
calls were counted before it. Only the refused call counts itself out again: the
body of the handler returns, throws or replies without touching the counter. Calls
overlap in any order; `Cdfs.UploadLimiter.exact_iff` says that the counter is the
number of calls in progress throughout a run exactly when no admitted call of the
run ends.
-/

namespace Cdfs

open Basis

/-- `MAX_CONCURRENT_UPLOADS`. -/
def maxConcurrentUploads : Int32 := 20

/-- The entry of `handleUpload`: the counter before and after `fetch_add`, and
whether the call goes on. -/
def enterUpload (concurrentUploads : Int32) : Bool × Int32 :=
  (!decide (maxConcurrentUploads ≤ concurrentUploads), concurrentUploads + 1)

/-- The counter after the busy branch has restored it. -/
def restoreUploads (concurrentUploads : Int32) : Int32 := concurrentUploads - 1

/-- The ways a `handleUpload` call ends. -/
inductive UploadExit where
  | busy
  | deduplicated
  | notMultipart
  | emptyContent
  | refusedExtension
  | success
  | exception
  deriving DecidableEq, Repr

/-- The counter after an exit. -/
def leaveUpload (concurrentUploads : Int32) : UploadExit → Int32
  | .busy => restoreUploads concurrentUploads
  | _ => concurrentUploads

/-- A call: past the check, turned away by it, or ended. -/
inductive UploadCall where
  | admitted
  | refused
  | ended (exit : UploadExit)
  deriving DecidableEq, Repr

/-- A step of some call: it arrives, or it ends through an exit. -/
inductive UploadStep where
  | arrive
  | finish (call : Nat) (exit : UploadExit)
  deriving DecidableEq, Repr

/-- The counter and all calls so far, in the order of their arrival. -/
structure UploadLimiter where
  concurrentUploads : Int32 := 0
  calls : List UploadCall := []
  deriving DecidableEq, Repr

/-- The call can end through the exit. -/
def UploadCall.mayEnd : UploadCall → UploadExit → Bool
  | .admitted, exit => exit ≠ .busy
  | .refused, exit => exit = .busy
  | .ended _, _ => false

/-- The call has not ended. -/
def UploadCall.inProgress : UploadCall → Bool
  | .ended _ => false
  | _ => true

namespace UploadLimiter

/-- The number of calls in progress. -/
def inProgress (limiter : UploadLimiter) : Nat := limiter.calls.countP UploadCall.inProgress

/-- One step; an exit that the call cannot take is ignored. -/
def step (limiter : UploadLimiter) : UploadStep → UploadLimiter
  | .arrive =>
      let (goesOn, counter) := enterUpload limiter.concurrentUploads
      { concurrentUploads := counter
        calls := limiter.calls ++ [if goesOn then .admitted else .refused] }
  | .finish call exit =>
      if limiter.calls[call]?.any (·.mayEnd exit) then
        { concurrentUploads := leaveUpload limiter.concurrentUploads exit
          calls := limiter.calls.set call (.ended exit) }
      else limiter

/-- The counter is the number of calls in progress, and a call arriving while fewer
than the maximum are in progress goes on. -/
structure Exact (limiter : UploadLimiter) : Prop where
  counter : limiter.concurrentUploads = Int32.ofNat limiter.inProgress
  admits : (limiter.inProgress : Int) < maxConcurrentUploads.toInt →
    (enterUpload limiter.concurrentUploads).1 = true

/-- The step does not end an admitted call. -/
def KeepsAdmitted (limiter : UploadLimiter) (label : UploadStep) : Prop :=
  ∀ call exit, label = .finish call exit → exit ≠ .busy → limiter.calls[call]? ≠ some .admitted

variable {limiter : UploadLimiter}

theorem exact_of_counter (counter : limiter.concurrentUploads = Int32.ofNat limiter.inProgress) :
    Exact limiter := by
  refine ⟨counter, fun few => ?_⟩
  have small : limiter.inProgress < 20 := by
    have max : maxConcurrentUploads.toInt = 20 := by decide
    omega
  rw [counter]
  generalize limiter.inProgress = number at small
  interval_cases number <;> decide

theorem inProgress_arrive :
    (limiter.step .arrive).inProgress = limiter.inProgress + 1 := by
  simp only [step, inProgress, List.countP_append, List.countP_singleton]
  cases (enterUpload limiter.concurrentUploads).1 <;> rfl

/-- Ending a call in progress takes one off their number. -/
theorem inProgress_set_ended {call : Nat} {current : UploadCall} (exit : UploadExit)
    (found : limiter.calls[call]? = some current) (running : current.inProgress = true) :
    (limiter.calls.set call (.ended exit)).countP UploadCall.inProgress + 1 =
      limiter.inProgress := by
  obtain ⟨inside, rfl⟩ := List.getElem?_eq_some_iff.mp found
  have positive : 0 < limiter.calls.countP UploadCall.inProgress :=
    List.countP_pos_iff.mpr ⟨_, List.getElem_mem inside, running⟩
  rw [List.countP_set inside, running]
  simp only [UploadCall.inProgress, Bool.false_eq_true, ↓reduceIte, inProgress]
  omega

theorem keepsAdmitted_finish {call : Nat} {exit : UploadExit} :
    KeepsAdmitted limiter (.finish call exit) ↔
      (exit ≠ .busy → limiter.calls[call]? ≠ some .admitted) := by
  constructor
  · exact fun keeps => keeps call exit rfl
  · rintro keeps _ _ finished
    cases finished
    exact keeps

/-- An exit that the call cannot take changes nothing. -/
theorem step_finish_of_not {call : Nat} {exit : UploadExit}
    (blocked : limiter.calls[call]?.any (·.mayEnd exit) = false) :
    limiter.step (.finish call exit) = limiter := by
  rw [step, blocked, if_neg Bool.false_ne_true]

/-- The counter after an exit of a call in progress, when it was exact before. -/
theorem concurrentUploads_finish (exact : Exact limiter) {call : Nat} {current : UploadCall}
    {exit : UploadExit} (found : limiter.calls[call]? = some current)
    (may : current.mayEnd exit = true) (running : current.inProgress = true) :
    (limiter.step (.finish call exit)).concurrentUploads =
      leaveUpload (Int32.ofNat (limiter.step (.finish call exit)).inProgress + 1) exit := by
  simp only [step, found, Option.any_some, may, ↓reduceIte]
  rw [inProgress, exact.counter, ← inProgress_set_ended exit found running, Int32.ofNat_add]
  rfl

/-- From an exact counter, a step leads to an exact counter exactly when it ends no
admitted call. -/
theorem keepsAdmitted_iff (exact : Exact limiter) (label : UploadStep) :
    KeepsAdmitted limiter label ↔ Exact (limiter.step label) := by
  cases label with
  | arrive =>
      refine iff_of_true (fun _ _ finished => by cases finished) (exact_of_counter ?_)
      rw [inProgress_arrive, Int32.ofNat_add, ← exact.counter]
      rfl
  | finish call exit =>
      rw [keepsAdmitted_finish]
      by_cases blocked : limiter.calls[call]?.any (·.mayEnd exit) = false
      · rw [step_finish_of_not blocked]
        refine iff_of_true (fun released admitted => ?_) exact
        simp only [admitted, Option.any_some, UploadCall.mayEnd, ne_eq, decide_not,
          Bool.not_eq_false', decide_eq_true_eq] at blocked
        exact released blocked
      · obtain ⟨current, found, may⟩ : ∃ current, limiter.calls[call]? = some current ∧
            current.mayEnd exit = true := by
          simpa only [Bool.not_eq_false, Option.any_eq_true] using blocked
        cases current with
        | admitted =>
            have released : exit ≠ .busy := by simpa only [UploadCall.mayEnd, decide_eq_true_eq] using may
            have kept := concurrentUploads_finish exact found may rfl
            refine iff_of_false (fun keeps => keeps released found) fun after => ?_
            have same : leaveUpload (Int32.ofNat (limiter.step (.finish call exit)).inProgress + 1)
                exit = Int32.ofNat (limiter.step (.finish call exit)).inProgress + 1 := by
              cases exit <;> first | rfl | exact absurd rfl released
            rw [same, after.counter] at kept
            exact absurd (Int32.left_eq_add.mp kept) (by decide)
        | refused =>
            have busy : exit = .busy := by simpa only [UploadCall.mayEnd, decide_eq_true_eq] using may
            have kept := concurrentUploads_finish exact found may rfl
            refine iff_of_true (fun released => absurd busy released) (exact_of_counter ?_)
            rw [kept, busy]
            exact Int32.add_sub_cancel _ _
        | ended _ => cases may

/-- **The counter is exact throughout a run exactly when no admitted call ends in
it.** Every exit other than the busy reply leaves the counter one too high. -/
theorem exact_iff (labels : List UploadStep) :
    (∀ taken, taken <+: labels → Exact (run step {} taken)) ↔
      Permitted step KeepsAdmitted {} labels :=
  (permitted_iff_forall_run Exact (exact_of_counter rfl)
    (fun _ label exact => keepsAdmitted_iff exact label) labels).symm

/-- Twenty uploads that succeed one after the other: nothing is in progress, and the
next one is refused. -/
theorem not_exact_of_finished_uploads :
    ¬ ∀ labels : List UploadStep, Exact (run step {} labels) := by
  intro exact
  have idle := exact ((List.range 20).flatMap fun call => [.arrive, .finish call .success])
  exact absurd (idle.admits (by decide +kernel)) (by decide +kernel)

end UploadLimiter

end Cdfs
