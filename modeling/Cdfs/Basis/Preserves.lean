import Cdfs.Basis.Effect

/-! # Relations between the start and the end of a computation

A reflexive and transitive relation on states that every step of a computation respects
relates its start to its end, whatever it returns or throws (`Basis.Preserves`).
-/

namespace Basis

variable {ε σ α β : Type}

/-- From every state the computation leads to a related one. -/
def Preserves (relation : σ → σ → Prop) (computation : EStateM ε σ α) : Prop :=
  ∀ state, Ends computation state fun _ final => relation state final

namespace Preserves

variable {relation : σ → σ → Prop} {computation : EStateM ε σ α}

/-- A stronger relation is kept. -/
theorem mono {stronger : σ → σ → Prop} (preserves : Preserves stronger computation)
    (weaker : ∀ state final, stronger state final → relation state final) :
    Preserves relation computation :=
  fun state => (preserves state).mono fun _ _ => weaker state _

section Refl

variable [Std.Refl relation]

theorem pure (value : α) : Preserves relation (Pure.pure value : EStateM ε σ α) :=
  fun state => Ends.pure (Std.Refl.refl state)

theorem throw (thrown : ε) : Preserves relation (MonadExcept.throw thrown : EStateM ε σ α) :=
  fun state => Ends.throw (Std.Refl.refl state)

theorem get : Preserves relation (MonadState.get : EStateM ε σ σ) :=
  fun state => Ends.get (Std.Refl.refl state)

end Refl

theorem modify {change : σ → σ} (related : ∀ state, relation state (change state)) :
    Preserves relation (modify change : EStateM ε σ PUnit) :=
  fun state => Ends.modify (related state)

/-- Either branch of a condition. -/
theorem ite {condition : Prop} [Decidable condition] {other : EStateM ε σ α}
    (holds : Preserves relation computation) (fails : Preserves relation other) :
    Preserves relation (if condition then computation else other) :=
  fun state => Ends.ite (fun _ => holds state) fun _ => fails state

variable [IsTrans σ relation]

/-- One computation after the other, by transitivity. -/
theorem bind {next : α → EStateM ε σ β} (first : Preserves relation computation)
    (rest : ∀ value, Preserves relation (next value)) : Preserves relation (computation >>= next) := by
  intro state
  apply Ends.bind (first state)
  · intro value middle before
    exact (rest value middle).mono fun _ _ after => IsTrans.trans _ _ _ before after
  · exact fun _ _ related => related

/-- A computation and what its `catch` does, by transitivity. -/
theorem tryCatch {handle : ε → EStateM ε σ α} (first : Preserves relation computation)
    (rest : ∀ thrown, Preserves relation (handle thrown)) :
    Preserves relation (tryCatch computation handle) := by
  intro state
  apply Ends.tryCatch (first state)
  · exact fun _ _ related => related
  · intro thrown middle before
    exact (rest thrown middle).mono fun _ _ after => IsTrans.trans _ _ _ before after

end Preserves

end Basis
