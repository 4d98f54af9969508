import Cdfs.Basis.Run

/-! # Histories of operations that take effect at once

Calls on a shared object overlap, and each of them takes effect by operations that
happen at once. A history lists these effects in their order, with the call each
belongs to and the answer it gave. It is explained by the object alone when the
operations, performed one after the other, give the same answers and lead to the same
state (`Basis.Replays`).
-/

namespace Basis

/-- An operation that has taken effect for a call. -/
structure Effect (Call Op Answer : Type) where
  call : Call
  op : Op
  answer : Answer

variable {Call Op Answer State : Type}

/-- Performed one after the other, the operations of the history give its answers and
lead from the start to the state. -/
inductive Replays (perform : State → Op → Answer × State) (start : State) :
    List (Effect Call Op Answer) → State → Prop where
  | start : Replays perform start [] start
  | effect {history : List (Effect Call Op Answer)} {state : State}
      (replayed : Replays perform start history state) (call : Call) (op : Op) :
      Replays perform start (history ++ [⟨call, op, (perform state op).1⟩]) (perform state op).2

namespace Replays

variable {perform : State → Op → Answer × State} {start state : State}
  {history : List (Effect Call Op Answer)}

/-- A further effect that is what the object does. -/
theorem snoc (replayed : Replays perform start history state) (call : Call) {op : Op}
    {answer : Answer} {next : State} (performed : perform state op = (answer, next)) :
    Replays perform start (history ++ [⟨call, op, answer⟩]) next := by
  have extended := replayed.effect call op
  rwa [performed] at extended

end Replays

variable [DecidableEq Call]

/-- The operations a call has taken effect by, with their answers. -/
def doneBy (call : Call) (history : List (Effect Call Op Answer)) : List (Op × Answer) :=
  (history.filter fun effect => effect.call = call).map fun effect => (effect.op, effect.answer)

@[simp] theorem doneBy_nil (call : Call) :
    doneBy call ([] : List (Effect Call Op Answer)) = [] := rfl

@[simp] theorem doneBy_snoc_self (call : Call) (history : List (Effect Call Op Answer)) (op : Op)
    (answer : Answer) :
    doneBy call (history ++ [⟨call, op, answer⟩]) = doneBy call history ++ [(op, answer)] := by
  rw [doneBy, List.filter_append, List.map_append]
  simp [doneBy]

theorem doneBy_snoc_of_ne {call other : Call} (different : other ≠ call)
    (history : List (Effect Call Op Answer)) (op : Op) (answer : Answer) :
    doneBy call (history ++ [⟨other, op, answer⟩]) = doneBy call history := by
  rw [doneBy, List.filter_append, List.map_append]
  simp [doneBy, different]

end Basis
