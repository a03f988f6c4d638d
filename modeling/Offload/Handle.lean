import Offload.Identity
import Offload.TaskError
import Offload.Termination.Report

/-!
# Handles

A handle is the caller's view of one call. It is incomplete until an outcome is published on it
and keeps the first outcome for good. A caller registers callbacks, one for a value and one for a
failure; registering again replaces.

Publishing hands out the callback that the outcome calls for, in a `Completion`, and empties both
places. Whoever published fires the completion later. A callback that is registered in between, and
that the outcome calls for, runs at once in place of the one handed out: `callbackToFire?` gives
nothing then. The operations below are the handle's critical sections; running a callback is no part
of them.
-/

namespace Offload

/-- The two kinds of callback. -/
inductive CallbackKind
  /-- Runs with the value of a success. -/
  | onComplete
  /-- Runs with the record of a failure. -/
  | onError
  deriving Repr, DecidableEq

/-- The kind of callback that an outcome calls for. -/
def Outcome.callbackKind {α : Type} : Outcome α → CallbackKind
  | .success _ => .onComplete
  | .failure _ => .onError

/-- What is known of one call. The callbacks are values of the type `κ`. -/
structure Handle (α κ : Type) where
  identity : Identity
  /-- The pid of the worker, if it is a process. -/
  pid : Option Nat := none
  settled : Option (Outcome α) := none
  onComplete : Option κ := none
  onError : Option κ := none
  /-- Whether a callback ran in place of the one handed out. -/
  replaced : Bool := false
  termination : Option Report := none

/-- An outcome with the callback that was registered for it when it was published. -/
structure Completion (α κ : Type) where
  outcome : Outcome α
  callback : Option κ

/-- What becomes of a callback when it is registered. -/
inductive Registration (α : Type) where
  /-- It is kept until an outcome is published. -/
  | kept
  /-- It runs at once. -/
  | runs (outcome : Outcome α)
  /-- It never runs. -/
  | dropped

namespace Handle

variable {α κ : Type}

/-- A handle that knows no outcome. -/
def new (identity : Identity) (pid : Option Nat) : Handle α κ :=
  { identity, pid }

/-- Where the task stands. -/
def state (h : Handle α κ) : TaskState :=
  (h.settled.map Outcome.state).getD .incomplete

/-- Whether the outcome is known. -/
def isFinished (h : Handle α κ) : Bool :=
  h.state.isTerminal

/-- The value of a success. -/
def value? (h : Handle α κ) : Option α :=
  h.settled.bind Outcome.value?

/-- The record of a failure. -/
def failure? (h : Handle α κ) : Option Failure :=
  h.settled.bind Outcome.failure?

/-- The failure as an error for the caller, or the error that there is none. -/
def burst (h : Handle α κ) : TaskError :=
  match h.failure? with
  | some failure => .failed failure
  | none => .nothingToBurst h.state

/-- What waiting for the outcome gives: nothing for as long as there is none, then the value of a
success or `none` for a failure. -/
def wait? (h : Handle α κ) : Option (Option α) :=
  h.settled.map Outcome.value?

/-- The place of a kind of callback. -/
def slot (h : Handle α κ) : CallbackKind → Option κ
  | .onComplete => h.onComplete
  | .onError => h.onError

/-- Fill the place of a kind of callback. -/
def setSlot (h : Handle α κ) (kind : CallbackKind) (callback : κ) : Handle α κ :=
  match kind with
  | .onComplete => { h with onComplete := some callback }
  | .onError => { h with onError := some callback }

/-- Register a callback. -/
def register (h : Handle α κ) (kind : CallbackKind) (callback : κ) :
    Registration α × Handle α κ :=
  match h.settled with
  | none => (.kept, h.setSlot kind callback)
  | some outcome =>
    if outcome.callbackKind = kind then (.runs outcome, { h with replaced := true })
    else (.dropped, h)

/-- Publish an outcome. A second outcome is ignored and gives no completion. -/
def publish (h : Handle α κ) (outcome : Outcome α) : Option (Completion α κ) × Handle α κ :=
  match h.settled with
  | some _ => (none, h)
  | none =>
    (some ⟨outcome, h.slot outcome.callbackKind⟩,
      { h with settled := some outcome, onComplete := none, onError := none })

/-- The callback of a completion, unless another one ran in its place. -/
def callbackToFire? (h : Handle α κ) (completion : Completion α κ) : Option κ :=
  if h.replaced then none else completion.callback

/-- Record the report of a termination. -/
def noteTermination (h : Handle α κ) (report : Report) : Handle α κ :=
  { h with termination := some report }

end Handle

end Offload
