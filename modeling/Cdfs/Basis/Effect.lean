import Mathlib.Tactic

/-! # Postconditions of stateful computations that may throw

A computation of `EStateM` started in a state ends with a value or an exception and a
final state. `Basis.Ends` says that the end satisfies a postcondition; the rules take
a computation apart along its binds and handlers, so that a function is verified from
the postconditions of the functions it calls. An exception keeps the state reached so
far.
-/

namespace Basis

variable {ε σ α β : Type}

/-- The computation, started in the state, ends as the postcondition says. -/
def Ends (computation : EStateM ε σ α) (state : σ) (post : Except ε α → σ → Prop) : Prop :=
  match computation.run state with
  | .ok value final => post (.ok value) final
  | .error thrown final => post (.error thrown) final

/-- What the computation, started in the state, returns or throws. -/
def outcome (computation : EStateM ε σ α) (state : σ) : Except ε α :=
  match computation.run state with
  | .ok value _ => .ok value
  | .error thrown _ => .error thrown

namespace Ends

variable {computation : EStateM ε σ α} {state : σ} {mid post : Except ε α → σ → Prop}

/-- A weaker statement about the end. -/
theorem mono (ends : Ends computation state mid)
    (weaker : ∀ result final, mid result final → post result final) :
    Ends computation state post := by
  unfold Ends at ends ⊢
  cases ended : computation.run state with
  | ok value final =>
      rw [ended] at ends
      exact weaker _ _ ends
  | error thrown final =>
      rw [ended] at ends
      exact weaker _ _ ends

/-- Two postconditions hold together. -/
theorem and (first : Ends computation state mid) (second : Ends computation state post) :
    Ends computation state fun result final => mid result final ∧ post result final := by
  unfold Ends at first second ⊢
  cases ended : computation.run state with
  | ok value final =>
      rw [ended] at first second
      exact ⟨first, second⟩
  | error thrown final =>
      rw [ended] at first second
      exact ⟨first, second⟩

/-- The result that a computation ends with is its outcome. -/
theorem outcome (ends : Ends computation state post) :
    Ends computation state fun result final =>
      result = Basis.outcome computation state ∧ post result final := by
  unfold Ends Basis.outcome at *
  cases ended : computation.run state with
  | ok value final =>
      rw [ended] at ends
      exact ⟨rfl, ends⟩
  | error thrown final =>
      rw [ended] at ends
      exact ⟨rfl, ends⟩

/-- Every computation ends. -/
theorem any (computation : EStateM ε σ α) (state : σ) :
    Ends computation state fun _ _ => True := by
  unfold Ends
  split <;> trivial

/-- What follows from every end does hold. -/
theorem const {claim : Prop} (ends : Ends computation state mid)
    (follows : ∀ result final, mid result final → claim) : claim := by
  unfold Ends at ends
  split at ends
  · exact follows _ _ ends
  · exact follows _ _ ends

theorem pure {value : α} (holds : post (.ok value) state) :
    Ends (Pure.pure value : EStateM ε σ α) state post := holds

theorem throw {thrown : ε} (holds : post (.error thrown) state) :
    Ends (MonadExcept.throw thrown : EStateM ε σ α) state post := holds

theorem get {post : Except ε σ → σ → Prop} (holds : post (.ok state) state) :
    Ends (MonadState.get : EStateM ε σ σ) state post := holds

theorem modify {change : σ → σ} {post : Except ε PUnit → σ → Prop}
    (holds : post (.ok ⟨⟩) (change state)) :
    Ends (modify change : EStateM ε σ PUnit) state post := holds

/-- Both branches, each under its condition. -/
theorem ite {condition : Prop} [Decidable condition] {other : EStateM ε σ α}
    (holds : condition → Ends computation state post)
    (fails : ¬ condition → Ends other state post) :
    Ends (if condition then computation else other) state post := by
  by_cases decided : condition
  · rw [if_pos decided]
    exact holds decided
  · rw [if_neg decided]
    exact fails decided

/-- A sequence: the second part starts where the first one returned. -/
theorem bind {next : α → EStateM ε σ β} {post : Except ε β → σ → Prop}
    (first : Ends computation state mid)
    (returned : ∀ value final, mid (.ok value) final → Ends (next value) final post)
    (thrown : ∀ thrown final, mid (.error thrown) final → post (.error thrown) final) :
    Ends (computation >>= next) state post := by
  unfold Ends at first
  cases ended : computation.run state with
  | ok value final =>
      rw [ended] at first
      have rest := returned value final first
      unfold Ends at rest ⊢
      change (match EStateM.bind computation next state with
        | .ok value final => post (.ok value) final
        | .error thrown final => post (.error thrown) final)
      unfold EStateM.bind
      rw [show computation state = .ok value final from ended]
      exact rest
  | error exception final =>
      rw [ended] at first
      have rest := thrown exception final first
      unfold Ends
      change (match EStateM.bind computation next state with
        | .ok value final => post (.ok value) final
        | .error thrown final => post (.error thrown) final)
      unfold EStateM.bind
      rw [show computation state = .error exception final from ended]
      exact rest

/-- A handler starts in the state in which the exception was thrown. -/
theorem tryCatch {handle : ε → EStateM ε σ α}
    (first : Ends computation state mid)
    (returned : ∀ value final, mid (.ok value) final → post (.ok value) final)
    (thrown : ∀ thrown final, mid (.error thrown) final → Ends (handle thrown) final post) :
    Ends (tryCatch computation handle) state post := by
  unfold Ends at first
  cases ended : computation.run state with
  | ok value final =>
      rw [ended] at first
      have rest := returned value final first
      unfold Ends
      change (match EStateM.tryCatch computation handle state with
        | .ok value final => post (.ok value) final
        | .error thrown final => post (.error thrown) final)
      unfold EStateM.tryCatch
      rw [show computation state = .ok value final from ended]
      exact rest
  | error exception final =>
      rw [ended] at first
      have rest := thrown exception final first
      unfold Ends at rest ⊢
      change (match EStateM.tryCatch computation handle state with
        | .ok value final => post (.ok value) final
        | .error thrown final => post (.error thrown) final)
      unfold EStateM.tryCatch
      rw [show computation state = .error exception final from ended]
      exact rest

end Ends

end Basis
