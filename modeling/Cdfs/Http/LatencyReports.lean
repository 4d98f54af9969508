import Cdfs.Http.LatencyMax

/-! # Reports of the maximum latency

The handler for `/status` (`controller/SystemCtl.h`) takes the maximum out of
`g_max_latency_us` and leaves zero for the next period, while sessions are in the middle
of their updates. No latency falls between two reports: what is measured after a report is
no more than some value reported since, or than what the register holds
(`Cdfs.LatencyMonitor.reports_of_run`).
-/

namespace Cdfs

open Basis

variable {Session : Type} [DecidableEq Session]

namespace Latencies

variable {duration : Session → Int64} {state : Latencies Session}

/-- What a step of a session does. -/
inductive Updated (duration : Session → Int64) (state : Latencies Session) (session : Session) :
    Latencies Session → Prop where
  | loads (phase : state.phase session = .measured) :
      Updated duration state session (state.move session (.testing state.maxLatency))
  | skips (phase : state.phase session = .measured) (small : (duration session).toInt ≤ 0) :
      Updated duration state session (state.move session .done)
  | tests {currentMax : Int32} (phase : state.phase session = .testing currentMax)
      (larger : currentMax.toInt < (duration session).toInt) :
      Updated duration state session (state.move session (.exchanging currentMax))
  | leaves {currentMax : Int32} (phase : state.phase session = .testing currentMax)
      (covered : (duration session).toInt ≤ currentMax.toInt) :
      Updated duration state session (state.move session .done)
  | swaps (phase : state.phase session = .exchanging state.maxLatency) :
      Updated duration state session
        { state.move session .done with maxLatency := (duration session).toInt32 }
  | reloads {currentMax : Int32} (phase : state.phase session = .exchanging currentMax) :
      Updated duration state session (state.move session (.testing state.maxLatency))
  | rests (phase : state.phase session = .done) : Updated duration state session state

/-- A step updates the reported latencies in one of the ways of `Updated`, whether the
exchange of the loop succeeds or fails spuriously. -/
theorem updated_step (duration : Session → Int64) (state : Latencies Session) (session : Session)
    (spurious : Bool) : Updated duration state session (step duration state (session, spurious)) := by
  cases phase : state.phase session with
  | measured =>
      simp only [step, phase, gt_iff_lt]
      split
      · exact .loads phase
      · rename_i small
        exact .skips phase (Int64.le_iff_toInt_le.mp (Int64.not_lt.mp small))
  | testing currentMax =>
      simp only [step, phase, gt_iff_lt, Int64.lt_iff_toInt_lt, Int32.toInt_toInt64]
      split
      · rename_i larger
        exact .tests phase larger
      · rename_i covered
        exact .leaves phase (Int.not_lt.mp covered)
  | exchanging currentMax =>
      simp only [step, phase]
      split
      · rename_i swaps
        rw [← swaps.1] at phase
        exact .swaps phase
      · exact .reloads phase
  | done =>
      simp only [step, phase]
      exact .rests phase

end Latencies

/-- The register with the values reported so far. -/
structure LatencyMonitor (Session : Type) extends Latencies Session where
  reports : List Int32 := []

/-- A step of `on_write` in some session, or `g_max_latency_us.exchange(0)`. -/
inductive MonitorStep (Session : Type) where
  | update (session : Session) (spurious : Bool)
  | report

namespace LatencyMonitor

/-- Before the first response and the first report. -/
def start : LatencyMonitor Session := { Latencies.start 0 with }

/-- The state after a step. -/
def step (duration : Session → Int64) (state : LatencyMonitor Session) :
    MonitorStep Session → LatencyMonitor Session
  | .update session spurious =>
      { state with toLatencies := state.toLatencies.step duration (session, spurious) }
  | .report => { state with maxLatency := 0, reports := state.reports ++ [state.maxLatency] }

/-- The value of the register and the values reported after so many reports. -/
def recent (count : Nat) (state : LatencyMonitor Session) : List Int32 :=
  state.maxLatency :: state.reports.drop count

variable {duration : Session → Int64} {state : LatencyMonitor Session} {count : Nat}

/-- The register is never negative, and an exchange puts a greater value into it. -/
structure Inv (duration : Session → Int64) (state : LatencyMonitor Session) : Prop where
  positive : 0 ≤ state.maxLatency.toInt
  exchanges : ∀ session currentMax, state.phase session = .exchanging currentMax →
    currentMax.toInt < (duration session).toInt

omit [DecidableEq Session] in
/-- At the start the register is zero and no session is about to exchange. -/
theorem inv_start : Inv duration (start : LatencyMonitor Session) where
  positive := le_rfl
  exchanges := fun _ _ exchanging => by cases exchanging

/-- A duration that replaces the maximum fits into the 32 bits it is stored in. -/
theorem toInt_toInt32_of_exchange {value : Int64} {currentMax : Int32}
    (larger : currentMax.toInt < value.toInt) (small : value.toInt < 2 ^ 31) :
    value.toInt32.toInt = value.toInt := by
  have lower := currentMax.le_toInt
  rw [Int64.toInt_toInt32]
  exact Int.bmod_eq_of_le (by omega) (by omega)

/-- A step keeps the invariant: only an exchange raises the register, to a value that fits. -/
theorem Inv.step (inv : Inv duration state) (range : ∀ session, (duration session).toInt < 2 ^ 31)
    (label : MonitorStep Session) : Inv duration (step duration state label) := by
  cases label with
  | report => exact ⟨le_rfl, inv.exchanges⟩
  | update session spurious =>
      have updated := state.toLatencies.updated_step duration session spurious
      have moved {phase : LatencyPhase} (known : ∀ currentMax, phase = .exchanging currentMax →
          currentMax.toInt < (duration session).toInt) (other : Session) (currentMax : Int32)
          (exchanging : (state.toLatencies.move session phase).phase other = .exchanging currentMax) :
          currentMax.toInt < (duration other).toInt := by
        rw [Latencies.phase_move] at exchanging
        split at exchanging
        · rename_i same
          exact same ▸ known currentMax exchanging
        · exact inv.exchanges other currentMax exchanging
      unfold LatencyMonitor.step
      dsimp only
      generalize state.toLatencies.step duration (session, spurious) = next at updated
      cases updated with
      | loads => exact ⟨inv.positive, moved fun _ impossible => by cases impossible⟩
      | skips => exact ⟨inv.positive, moved fun _ impossible => by cases impossible⟩
      | tests _ larger =>
          refine ⟨inv.positive, moved fun _ same => ?_⟩
          cases same
          exact larger
      | leaves => exact ⟨inv.positive, moved fun _ impossible => by cases impossible⟩
      | swaps phase =>
          have larger := inv.exchanges session _ phase
          refine ⟨?_, moved fun _ impossible => by cases impossible⟩
          change 0 ≤ (duration session).toInt32.toInt
          rw [toInt_toInt32_of_exchange larger (range session)]
          exact inv.positive.trans larger.le
      | reloads => exact ⟨inv.positive, moved fun _ impossible => by cases impossible⟩
      | rests => exact ⟨inv.positive, inv.exchanges⟩

/-! ## Latencies are covered -/

/-- A value reported lately, or the register, is at least as great. -/
def Covered (count : Nat) (state : LatencyMonitor Session) (value : Int) : Prop :=
  ∃ later ∈ state.recent count, value ≤ later.toInt

omit [DecidableEq Session] in
/-- What the register reaches is covered. -/
theorem covered_maxLatency (count : Nat) (state : LatencyMonitor Session) {value : Int}
    (below : value ≤ state.maxLatency.toInt) : Covered count state value :=
  ⟨_, List.mem_cons_self, below⟩

omit [DecidableEq Session] in
/-- A report moves the register to the end of the list and sets it to zero. -/
theorem recent_report (early : count ≤ state.reports.length) :
    recent count { state with maxLatency := 0, reports := state.reports ++ [state.maxLatency] } =
      0 :: (state.reports.drop count ++ [state.maxLatency]) := by
  rw [recent, List.drop_append_of_le_length early]

/-- What is covered stays covered: the register only rises, or it is reported. -/
theorem Covered.step (inv : Inv duration state)
    (range : ∀ session, (duration session).toInt < 2 ^ 31) (early : count ≤ state.reports.length)
    {value : Int} (covered : Covered count state value) (label : MonitorStep Session) :
    Covered count (step duration state label) value := by
  obtain ⟨later, member, below⟩ := covered
  cases label with
  | report =>
      refine ⟨later, ?_, below⟩
      rw [LatencyMonitor.step, recent_report early]
      rcases List.mem_cons.mp member with rfl | old
      · exact List.mem_cons_of_mem _ (List.mem_append_right _ List.mem_cons_self)
      · exact List.mem_cons_of_mem _ (List.mem_append_left _ old)
  | update session spurious =>
      have raised : state.maxLatency.toInt ≤
          (state.toLatencies.step duration (session, spurious)).maxLatency.toInt := by
        have updated := state.toLatencies.updated_step duration session spurious
        generalize state.toLatencies.step duration (session, spurious) = next at updated
        cases updated with
        | swaps phase =>
            have larger := inv.exchanges session _ phase
            change state.maxLatency.toInt ≤ (duration session).toInt32.toInt
            rw [toInt_toInt32_of_exchange larger (range session)]
            exact larger.le
        | loads | skips | tests | leaves | reloads | rests => exact le_rfl
      rcases List.mem_cons.mp member with rfl | old
      · exact covered_maxLatency _ _ (below.trans raised)
      · exact ⟨later, List.mem_cons_of_mem _ old, below⟩

/-- A value the session has read, and its duration once it is done, are covered. -/
def Follows (duration : Session → Int64) (count : Nat) (session : Session)
    (state : LatencyMonitor Session) : Prop :=
  match state.phase session with
  | .measured => True
  | .testing currentMax => Covered count state currentMax.toInt
  | .exchanging _ => True
  | .done => Covered count state (duration session).toInt

/-- A step keeps what a session has read or measured covered, whoever takes the step. -/
theorem Follows.step (inv : Inv duration state)
    (range : ∀ session, (duration session).toInt < 2 ^ 31) (early : count ≤ state.reports.length)
    {session : Session} (follows : Follows duration count session state)
    (label : MonitorStep Session) : Follows duration count session (step duration state label) := by
  have covered {value : Int} (covered : Covered count state value) :=
    covered.step inv range early label
  -- The session stays in its phase.
  have kept (same : (LatencyMonitor.step duration state label).phase session = state.phase session) :
      Follows duration count session (LatencyMonitor.step duration state label) := by
    unfold Follows at follows ⊢
    rw [same]
    cases phase : state.phase session with
    | measured => trivial
    | testing currentMax =>
        rw [phase] at follows
        exact covered follows
    | exchanging => trivial
    | done =>
        rw [phase] at follows
        exact covered follows
  cases label with
  | report => exact kept rfl
  | update mover spurious =>
      have updated := state.toLatencies.updated_step duration mover spurious
      by_cases own : session = mover
      · subst own
        unfold Follows LatencyMonitor.step at *
        dsimp only at *
        generalize state.toLatencies.step duration (session, spurious) = next at *
        cases updated with
        | loads phase =>
            rw [Latencies.phase_move, if_pos rfl]
            exact covered_maxLatency _ _ le_rfl
        | skips phase small =>
            rw [Latencies.phase_move, if_pos rfl]
            exact covered_maxLatency _ _ (small.trans inv.positive)
        | tests =>
            rw [Latencies.phase_move, if_pos rfl]
            trivial
        | leaves phase below =>
            rw [phase] at follows
            rw [Latencies.phase_move, if_pos rfl]
            obtain ⟨later, member, least⟩ := covered follows
            exact ⟨later, member, below.trans least⟩
        | swaps phase =>
            have larger := inv.exchanges session _ phase
            rw [show ({ state.toLatencies.move session .done with
              maxLatency := (duration session).toInt32 } : Latencies Session).phase session = .done by
                rw [Latencies.phase_move, if_pos rfl]]
            refine covered_maxLatency _ _ ?_
            change (duration session).toInt ≤ (duration session).toInt32.toInt
            rw [toInt_toInt32_of_exchange larger (range session)]
        | reloads =>
            rw [Latencies.phase_move, if_pos rfl]
            exact covered_maxLatency _ _ le_rfl
        | rests phase =>
            rw [phase] at follows ⊢
            exact covered follows
      · refine kept ?_
        unfold LatencyMonitor.step
        dsimp only
        generalize state.toLatencies.step duration (mover, spurious) = next at *
        cases updated with
        | rests => rfl
        | loads | skips | tests | leaves | swaps | reloads =>
            exact (Latencies.phase_move ..).trans (if_neg own)

/-! ## Reported values are latencies -/

/-- A session that is done stays done. -/
theorem done_step {session : Session} (done : state.phase session = .done)
    (label : MonitorStep Session) : (step duration state label).phase session = .done := by
  cases label with
  | report => exact done
  | update mover spurious =>
      have updated := state.toLatencies.updated_step duration mover spurious
      unfold LatencyMonitor.step
      dsimp only
      generalize state.toLatencies.step duration (mover, spurious) = next at updated
      have moved {phase : LatencyPhase} (busy : state.phase mover ≠ .done) :
          (state.toLatencies.move mover phase).phase session = .done := by
        have other : session ≠ mover := by
          rintro rfl
          exact busy done
        rw [Latencies.phase_move, if_neg other, done]
      cases updated with
      | rests => exact done
      | loads phase | skips phase | tests phase | leaves phase | swaps phase | reloads phase =>
          exact moved (by rw [phase]; nofun)

/-- Behind an earlier state: the values are the one it held, zero, or durations of sessions
that have ended since. -/
structure Genuine (duration : Session → Int64) (before state : LatencyMonitor Session) : Prop where
  finished : ∀ session, before.phase session = .done → state.phase session = .done
  reports : before.reports.length ≤ state.reports.length
  source : ∀ value ∈ state.recent before.reports.length, value = before.maxLatency ∨ value = 0 ∨
    ∃ session, before.phase session ≠ .done ∧ state.phase session = .done ∧
      value.toInt = (duration session).toInt

omit [DecidableEq Session] in
/-- Without a step there is only the value held. -/
theorem Genuine.refl (state : LatencyMonitor Session) : Genuine duration state state where
  finished := fun _ done => done
  reports := le_rfl
  source := by
    intro value member
    rw [recent, List.drop_length, List.mem_singleton] at member
    exact .inl member

/-- A step adds zero to the values, or the duration of the session it ends. -/
theorem Genuine.step {before : LatencyMonitor Session} (genuine : Genuine duration before state)
    (inv : Inv duration state) (range : ∀ session, (duration session).toInt < 2 ^ 31)
    (label : MonitorStep Session) : Genuine duration before (step duration state label) := by
  have kept {value : Int32} (member : value ∈ state.recent before.reports.length) :
      value = before.maxLatency ∨ value = 0 ∨ ∃ session, before.phase session ≠ .done ∧
        (LatencyMonitor.step duration state label).phase session = .done ∧
          value.toInt = (duration session).toInt := by
    rcases genuine.source value member with held | zero | ⟨session, busy, done, own⟩
    · exact .inl held
    · exact .inr (.inl zero)
    · exact .inr (.inr ⟨session, busy, done_step done label, own⟩)
  cases label with
  | report =>
      refine ⟨genuine.finished, genuine.reports.trans ?_, fun value member => ?_⟩
      · rw [LatencyMonitor.step, List.length_append]
        exact Nat.le_add_right _ _
      · rw [LatencyMonitor.step, recent_report genuine.reports] at member
        rcases List.mem_cons.mp member with rfl | member
        · exact .inr (.inl rfl)
        · rcases List.mem_append.mp member with old | last
          · exact kept (List.mem_cons_of_mem _ old)
          · rw [List.mem_singleton.mp last]
            exact kept List.mem_cons_self
  | update mover spurious =>
      refine ⟨fun session done => done_step (genuine.finished session done) _, genuine.reports,
        fun value member => ?_⟩
      rcases List.mem_cons.mp member with rfl | old
      · have updated := state.toLatencies.updated_step duration mover spurious
        have held := kept List.mem_cons_self
        unfold LatencyMonitor.step at held ⊢
        dsimp only at held ⊢
        generalize state.toLatencies.step duration (mover, spurious) = next at updated held ⊢
        cases updated with
        | swaps phase =>
            have larger := inv.exchanges mover _ phase
            refine .inr (.inr ⟨mover, fun done => ?_, ?_, toInt_toInt32_of_exchange larger (range mover)⟩)
            · rw [genuine.finished mover done] at phase
              cases phase
            · exact (Latencies.phase_move ..).trans (if_pos rfl)
        | loads | skips | tests | leaves | reloads | rests => exact held
      · exact kept (List.mem_cons_of_mem _ old)

/-! ## Runs -/

/-- The invariant holds in every interleaving. -/
theorem inv_run (inv : Inv duration state) (range : ∀ session, (duration session).toInt < 2 ^ 31)
    (labels : List (MonitorStep Session)) : Inv duration (run (step duration) state labels) := by
  induction labels generalizing state with
  | nil => exact inv
  | cons label labels ih => exact ih (inv.step range label)

/-- The values behind a run are the one held before, zero, or durations of its sessions. -/
theorem genuine_run {before : LatencyMonitor Session} (genuine : Genuine duration before state)
    (inv : Inv duration state) (range : ∀ session, (duration session).toInt < 2 ^ 31)
    (labels : List (MonitorStep Session)) :
    Genuine duration before (run (step duration) state labels) := by
  induction labels generalizing state with
  | nil => exact genuine
  | cons label labels ih => exact ih (genuine.step inv range label) (inv.step range label)

/-- A session stays covered in every interleaving. -/
theorem follows_run {before : LatencyMonitor Session} {session : Session}
    (follows : Follows duration before.reports.length session state)
    (genuine : Genuine duration before state) (inv : Inv duration state)
    (range : ∀ session, (duration session).toInt < 2 ^ 31) (labels : List (MonitorStep Session)) :
    Follows duration before.reports.length session (run (step duration) state labels) := by
  induction labels generalizing state with
  | nil => exact follows
  | cons label labels ih =>
      exact ih (follows.step inv range genuine.reports label) (genuine.step inv range label)
        (inv.step range label)

/-- **No latency falls between two reports, and none is made up.** Between any two moments
of any interleaving: the latency of a session that begins and ends its update there is no
more than a value reported there or than what the register holds in the end; and these
values are the one held in the beginning, zero, or latencies of sessions that ended there. -/
theorem reports_of_run (range : ∀ session, (duration session).toInt < 2 ^ 31)
    (earlier later : List (MonitorStep Session)) :
    let before := run (step duration) start earlier
    let final := run (step duration) before later
    (∀ session, before.phase session = .measured → final.phase session = .done →
      Covered before.reports.length final (duration session).toInt) ∧
    ∀ value ∈ final.recent before.reports.length, value = before.maxLatency ∨ value = 0 ∨
      ∃ session, before.phase session ≠ .done ∧ final.phase session = .done ∧
        value.toInt = (duration session).toInt := by
  intro before final
  have inv : Inv duration before := inv_run inv_start range earlier
  have genuine : Genuine duration before before := Genuine.refl before
  constructor
  · intro session measured done
    have fresh : Follows duration before.reports.length session before := by
      unfold Follows
      rw [measured]
      trivial
    have followed := follows_run fresh genuine inv range later
    unfold Follows at followed
    rw [show (run (step duration) before later).phase session = .done from done] at followed
    exact followed
  · exact (genuine_run genuine inv range later).source

/-- A report is taken between the exchanges of two sessions. -/
def sampleReports : List (MonitorStep Bool) :=
  [.update true false, .update true false, .update false false, .update true false, .report,
    .update false false, .update false false, .update false false, .update false false,
    .update false false]

/-- The state after them. -/
def sampleMonitor : LatencyMonitor Bool := run (step Latencies.sampleDuration) start sampleReports

/-- A duration of 9 is reported once, and the next period starts with 4. -/
theorem reports_of_sampleReports :
    sampleMonitor.reports = [9] ∧ sampleMonitor.maxLatency = 4 ∧ Covered 0 sampleMonitor 9 := by
  refine ⟨by decide +kernel, by decide +kernel, ?_⟩
  exact (@reports_of_run Bool inferInstance Latencies.sampleDuration (by decide) [] sampleReports).1 true rfl
    (by decide +kernel : sampleMonitor.phase true = .done)

end LatencyMonitor

end Cdfs
