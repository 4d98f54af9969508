import Mathlib.Tactic

/-! # Runs of a labelled step function

A system takes labelled steps; which labels may be taken can depend on the state.
`Basis.Reachable` collects the states of all finite runs and carries the
induction rule for invariants. `Basis.run` is the final state of a given list of
steps, for statements about the whole list.
-/

namespace Basis

variable {State Label : Type}

/-- The states reached from `start` by finitely many allowed steps. -/
inductive Reachable (step : State → Label → State) (allowed : State → Label → Prop)
    (start : State) : State → Prop where
  | start : Reachable step allowed start start
  | step {state : State} {label : Label} (reached : Reachable step allowed start state)
      (permitted : allowed state label) : Reachable step allowed start (step state label)

variable {step : State → Label → State} {allowed : State → Label → Prop} {start state : State}

/-- A predicate that holds at the start and is kept by every allowed step holds
of every reachable state. -/
theorem Reachable.invariant (predicate : State → Prop) (initial : predicate start)
    (preserved : ∀ state label, predicate state → allowed state label →
      predicate (step state label))
    (reached : Reachable step allowed start state) : predicate state := by
  induction reached with
  | start => exact initial
  | step _ permitted ih => exact preserved _ _ ih permitted

theorem Reachable.trans {middle : State} (first : Reachable step allowed start middle)
    (second : Reachable step allowed middle state) : Reachable step allowed start state := by
  induction second with
  | start => exact first
  | step _ permitted ih => exact ih.step permitted

/-- Fewer steps are allowed in the one system than in the other. -/
theorem Reachable.mono {other : State → Label → Prop} (reached : Reachable step allowed start state)
    (weaker : ∀ state label, allowed state label → other state label) :
    Reachable step other start state := by
  induction reached with
  | start => exact .start
  | step _ permitted ih => exact ih.step (weaker _ _ permitted)

/-- The state after a list of steps. -/
def run (step : State → Label → State) (start : State) (labels : List Label) : State :=
  labels.foldl step start

@[simp] theorem run_nil (step : State → Label → State) (start : State) :
    run step start [] = start := rfl

theorem run_append (step : State → Label → State) (start : State) (first second : List Label) :
    run step start (first ++ second) = run step (run step start first) second :=
  List.foldl_append

/-- The step taken last in a nonempty list of steps. -/
theorem run_concat (step : State → Label → State) (start : State) (labels : List Label)
    (label : Label) :
    run step start (labels ++ [label]) = step (run step start labels) label := by
  rw [run_append]
  rfl

/-- Every step of the list is allowed in the state it is taken in. -/
def Permitted (step : State → Label → State) (allowed : State → Label → Prop) :
    State → List Label → Prop
  | _, [] => True
  | state, label :: labels => allowed state label ∧ Permitted step allowed (step state label) labels

instance decidablePermitted [∀ state label, Decidable (allowed state label)] :
    (state : State) → (labels : List Label) → Decidable (Permitted step allowed state labels)
  | _, [] => .isTrue trivial
  | state, label :: labels =>
      have := decidablePermitted (step state label) labels
      inferInstanceAs (Decidable (allowed state label ∧ _))

/-- A list of allowed steps leads to a reachable state. -/
theorem Reachable.run {labels : List Label} (reached : Reachable step allowed start state)
    (permitted : Permitted step allowed state labels) :
    Reachable step allowed start (run step state labels) := by
  induction labels generalizing state with
  | nil => exact reached
  | cons label labels ih => exact ih (reached.step permitted.1) permitted.2

/-- Steps allowed in every state are permitted from any state. -/
theorem permitted_of_forall {always : Label → Prop} {labels : List Label}
    (all : ∀ label ∈ labels, always label) :
    Permitted step (fun _ label => always label) state labels := by
  induction labels generalizing state with
  | nil => trivial
  | cons label labels ih =>
      rw [List.forall_mem_cons] at all
      exact ⟨all.1, ih all.2⟩

theorem Permitted.of_append {first second : List Label}
    (permitted : Permitted step allowed state (first ++ second)) :
    Permitted step allowed state first := by
  induction first generalizing state with
  | nil => trivial
  | cons label first ih => exact ⟨permitted.1, ih permitted.2⟩

/-- The later steps are allowed where the earlier ones lead. -/
theorem Permitted.behind {first second : List Label}
    (permitted : Permitted step allowed state (first ++ second)) :
    Permitted step allowed (run step state first) second := by
  induction first generalizing state with
  | nil => exact permitted
  | cons label first ih => exact ih permitted.2

/-- When the allowed steps from a state with a property are exactly those that keep
it, all steps of a list are allowed if and only if every state on the way has the
property. -/
theorem permitted_iff_forall_run (predicate : State → Prop) (initial : predicate state)
    (exact : ∀ state label, predicate state → (allowed state label ↔ predicate (step state label)))
    (labels : List Label) :
    Permitted step allowed state labels ↔
      ∀ taken, taken <+: labels → predicate (run step state taken) := by
  induction labels generalizing state with
  | nil =>
      refine iff_of_true trivial fun taken early => ?_
      rw [List.prefix_nil.mp early]
      exact initial
  | cons label labels ih =>
      constructor
      · rintro ⟨permitted, rest⟩ taken early
        have kept := (exact state label initial).mp permitted
        rcases List.prefix_cons_iff.mp early with rfl | ⟨later, rfl, shorter⟩
        · exact initial
        · exact (ih kept).mp rest later shorter
      · intro always
        have kept : predicate (step state label) :=
          always [label] ((List.prefix_cons_inj label).mpr List.nil_prefix)
        exact ⟨(exact state label initial).mpr kept, (ih kept).mpr fun taken early =>
          always (label :: taken) ((List.prefix_cons_inj label).mpr early)⟩

end Basis
