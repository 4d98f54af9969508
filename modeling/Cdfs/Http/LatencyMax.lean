import Cdfs.Basis.Run

/-! # The maximum latency

Every session that has written its response raises `g_max_latency_us` to its own duration
in a compare-and-exchange loop. Sessions interleave in any order and an exchange may fail
for no reason; a failed exchange reads the current value before the next test. The value
never falls, and once all loops have ended it is the maximum.
-/

namespace Cdfs

open Basis

/-- Where a session is in the update: before the load, at the loop test or at the exchange
with the value read last, or past the loop. -/
inductive LatencyPhase where
  | measured
  | testing (currentMax : Int32)
  | exchanging (currentMax : Int32)
  | done
  deriving DecidableEq, Repr

/-- `g_max_latency_us` and the phases of all sessions. -/
structure Latencies (Session : Type) where
  maxLatency : Int32
  phase : Session → LatencyPhase

namespace Latencies

variable {Session : Type} [DecidableEq Session]

/-- The session goes to a phase. -/
def move (state : Latencies Session) (session : Session) (phase : LatencyPhase) :
    Latencies Session :=
  { state with phase := Function.update state.phase session phase }

/-- A step of `on_write` in some session; the flag makes an exchange fail spuriously. -/
def step (duration : Session → Int64) (state : Latencies Session) :
    Session × Bool → Latencies Session
  | (session, spurious) =>
      match state.phase session with
      | .measured =>
          if duration session > 0 then state.move session (.testing state.maxLatency)
          else state.move session .done
      | .testing currentMax =>
          if duration session > currentMax.toInt64 then state.move session (.exchanging currentMax)
          else state.move session .done
      | .exchanging currentMax =>
          if state.maxLatency = currentMax ∧ spurious = false then
            { state.move session .done with maxLatency := (duration session).toInt32 }
          else state.move session (.testing state.maxLatency)
      | .done => state

/-- All sessions before their update. -/
def start (maxLatency : Int32) : Latencies Session := ⟨maxLatency, fun _ => .measured⟩

variable {duration : Session → Int64} {initial : Int32} {state : Latencies Session}

@[simp] theorem maxLatency_move (state : Latencies Session) (session : Session)
    (phase : LatencyPhase) : (state.move session phase).maxLatency = state.maxLatency := rfl

@[simp] theorem phase_move (state : Latencies Session) (session other : Session)
    (phase : LatencyPhase) :
    (state.move session phase).phase other = if other = session then phase else state.phase other :=
  Function.update_apply ..

/-- What a session in a phase knows of the value: it is no less than a value read for the
test, and no less than the duration when the session is done; the value read for an
exchange is less than the duration. -/
def Fits (duration maxLatency : Int) : LatencyPhase → Prop
  | .measured => True
  | .testing currentMax => currentMax.toInt ≤ maxLatency
  | .exchanging currentMax => currentMax.toInt < duration
  | .done => duration ≤ maxLatency

/-- What fits below the register fits below a greater one. -/
theorem Fits.mono {duration maxLatency larger : Int} {phase : LatencyPhase}
    (fits : Fits duration maxLatency phase) (raised : maxLatency ≤ larger) :
    Fits duration larger phase := by
  cases phase with
  | measured => trivial
  | testing currentMax => exact le_trans fits raised
  | exchanging currentMax => exact fits
  | done => exact le_trans fits raised

/-- The value is the initial one or some duration, at least the initial one, and all
phases fit. -/
structure Inv (duration : Session → Int64) (initial : Int32) (state : Latencies Session) :
    Prop where
  source : state.maxLatency.toInt ∈
    insert initial.toInt (Set.range fun session => (duration session).toInt)
  above : initial.toInt ≤ state.maxLatency.toInt
  fits : ∀ session, Fits (duration session).toInt state.maxLatency.toInt (state.phase session)

omit [DecidableEq Session] in
/-- Before the first response nothing is above the register. -/
theorem inv_start : Inv duration initial (start initial : Latencies Session) :=
  ⟨Set.mem_insert .., le_rfl, fun _ => trivial⟩

/-- A session moves to a phase that fits. -/
theorem Inv.move (inv : Inv duration initial state) {session : Session} {phase : LatencyPhase}
    (fits : Fits (duration session).toInt state.maxLatency.toInt phase) :
    Inv duration initial (state.move session phase) where
  source := inv.source
  above := inv.above
  fits := by
    intro other
    rw [phase_move]
    split
    · rename_i same
      exact same ▸ fits
    · exact inv.fits other

omit [DecidableEq Session] in
/-- The value is raised to the duration of a session. -/
theorem Inv.raise (inv : Inv duration initial state) {maxLatency : Int32} {session : Session}
    (raised : state.maxLatency.toInt ≤ maxLatency.toInt)
    (own : maxLatency.toInt = (duration session).toInt) :
    Inv duration initial { state with maxLatency } where
  source := .inr ⟨session, own.symm⟩
  above := inv.above.trans raised
  fits := fun other => (inv.fits other).mono raised

/-- A duration below 2^31 is stored as it is. -/
theorem toInt_toInt32_of_small {value : Int64} (positive : 0 < value.toInt)
    (small : value.toInt < 2 ^ 31) : value.toInt32.toInt = value.toInt := by
  rw [Int64.toInt_toInt32]
  exact Int.bmod_eq_of_le (by omega) (by omega)

/-- A step keeps the invariant and does not lower the value. -/
theorem Inv.step (inv : Inv duration initial state)
    (range : ∀ session, 0 < (duration session).toInt ∧ (duration session).toInt < 2 ^ 31)
    (label : Session × Bool) :
    Inv duration initial (step duration state label) ∧
      state.maxLatency.toInt ≤ (Latencies.step duration state label).maxLatency.toInt := by
  obtain ⟨session, spurious⟩ := label
  have fits := inv.fits session
  cases phase : state.phase session with
  | measured =>
      have positive : duration session > 0 := Int64.lt_iff_toInt_lt.mpr (range session).1
      simp only [Latencies.step, phase, if_pos positive]
      exact ⟨inv.move le_rfl, le_rfl⟩
  | testing currentMax =>
      rw [phase] at fits
      simp only [Latencies.step, phase, gt_iff_lt, Int64.lt_iff_toInt_lt, Int32.toInt_toInt64]
      by_cases larger : currentMax.toInt < (duration session).toInt
      · rw [if_pos larger]
        exact ⟨inv.move larger, le_rfl⟩
      · rw [if_neg larger]
        exact ⟨inv.move (le_trans (Int.not_lt.mp larger) fits), le_rfl⟩
  | exchanging currentMax =>
      rw [phase] at fits
      simp only [Latencies.step, phase]
      by_cases swaps : state.maxLatency = currentMax ∧ spurious = false
      · -- The exchange finds the value it read, which is less than the duration.
        have written := toInt_toInt32_of_small (range session).1 (range session).2
        have raised : state.maxLatency.toInt ≤ (duration session).toInt32.toInt := by
          rw [written, swaps.1]
          exact le_of_lt fits
        have moved := (inv.raise raised written).move (written ▸ le_rfl :
          Fits (duration session).toInt (duration session).toInt32.toInt .done)
        rw [if_pos swaps]
        exact ⟨moved, raised⟩
      · rw [if_neg swaps]
        exact ⟨inv.move le_rfl, le_rfl⟩
  | done =>
      simp only [Latencies.step, phase]
      exact ⟨inv, le_rfl⟩

/-- A run keeps the invariant and does not lower the value. -/
theorem Inv.run (inv : Inv duration initial state)
    (range : ∀ session, 0 < (duration session).toInt ∧ (duration session).toInt < 2 ^ 31)
    (labels : List (Session × Bool)) :
    Inv duration initial (run (Latencies.step duration) state labels) ∧
      state.maxLatency.toInt ≤ (run (Latencies.step duration) state labels).maxLatency.toInt := by
  induction labels generalizing state with
  | nil => exact ⟨inv, le_rfl⟩
  | cons label labels ih =>
      obtain ⟨kept, raised⟩ := inv.step range label
      obtain ⟨later, higher⟩ := ih kept
      exact ⟨later, raised.trans higher⟩

/-- **The maximum is not lost.** In every interleaving the value never falls, and once all
sessions are done it is the greatest of the initial value and the durations. -/
theorem isGreatest_of_done
    (range : ∀ session, 0 < (duration session).toInt ∧ (duration session).toInt < 2 ^ 31)
    (initial : Int32) (labels : List (Session × Bool)) :
    (∀ more, (run (step duration) (start initial) labels).maxLatency.toInt ≤
      (run (step duration) (start initial) (labels ++ more)).maxLatency.toInt) ∧
    ((∀ session, (run (step duration) (start initial) labels).phase session = .done) →
      IsGreatest (insert initial.toInt (Set.range fun session => (duration session).toInt))
        (run (step duration) (start initial) labels).maxLatency.toInt) := by
  obtain ⟨inv, _⟩ := (inv_start : Inv duration initial (start initial)).run range labels
  constructor
  · intro more
    rw [run_append]
    exact (inv.run range more).2
  · intro done
    refine ⟨inv.source, ?_⟩
    rintro value (rfl | ⟨session, rfl⟩)
    · exact inv.above
    · have fits := inv.fits session
      rw [done session] at fits
      exact fits

/-- Two sessions read the same value; the exchange of the shorter one fails, once for no
reason and once because the other was faster. -/
def sampleLabels : List (Bool × Bool) :=
  [(true, false), (false, false), (true, false), (false, false), (false, true), (false, false),
    (true, false), (false, false), (false, false), (false, false)]

def sampleDuration (session : Bool) : Int64 := if session then 9 else 4

/-- Two sessions that measure at the same time: the greater duration is left. -/
theorem isGreatest_of_done_sample :
    IsGreatest (insert (2 : Int32).toInt (Set.range fun session => (sampleDuration session).toInt))
      (run (step sampleDuration) (start 2) sampleLabels).maxLatency.toInt :=
  (isGreatest_of_done (by decide) 2 sampleLabels).2 (by decide +kernel)

end Latencies

end Cdfs
