import Offload.Failure

/-!
# Outcomes

An outcome is the one terminal message of an invocation: the function's value, or the record of
its failure. A task is incomplete until its outcome is known; from then on its state is the
outcome's.
-/

namespace Offload

/-- The result of one invocation. -/
inductive Outcome (α : Type) where
  | success (value : α)
  | failure (failure : Failure)
  deriving Repr, DecidableEq

/-- Where a task stands. -/
inductive TaskState
  | incomplete
  | success
  | error
  deriving Repr, DecidableEq

namespace TaskState

/-- A task ends in success or error. -/
def isTerminal : TaskState → Bool
  | .incomplete => false
  | .success | .error => true

/-- The word for a state. -/
def text : TaskState → String
  | .incomplete => "incomplete"
  | .success => "success"
  | .error => "error"

end TaskState

namespace Outcome

variable {α : Type}

/-- Whether the function returned a value. -/
def isSuccess : Outcome α → Bool
  | .success _ => true
  | .failure _ => false

/-- The value of a success. -/
def value? : Outcome α → Option α
  | .success v => some v
  | .failure _ => none

/-- The record of a failure. -/
def failure? : Outcome α → Option Failure
  | .success _ => none
  | .failure f => some f

/-- The state that the outcome puts a task into. -/
def state : Outcome α → TaskState
  | .success _ => .success
  | .failure _ => .error

theorem isTerminal_state (o : Outcome α) : o.state.isTerminal = true := by
  cases o <;> rfl

end Outcome

end Offload
