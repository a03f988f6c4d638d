import Offload.Outcome

/-!
# Errors

The errors that reach a caller. Each constructor is a cause; `message` words it. A failure of the
wrapped function is carried whole by `failed` and by no other error.
-/

namespace Offload

/-- The kind of an input or output error. -/
inductive IoKind
  | unexpectedEof
  | brokenPipe
  | wouldBlock
  | interrupted
  | invalidInput
  | other (name : String)
  deriving Repr, DecidableEq

/-- The name of a kind. -/
def IoKind.name : IoKind → String
  | .unexpectedEof => "UnexpectedEof"
  | .brokenPipe => "BrokenPipe"
  | .wouldBlock => "WouldBlock"
  | .interrupted => "Interrupted"
  | .invalidInput => "InvalidInput"
  | .other name => name

/-- What can go wrong between a call and its outcome. -/
inductive TaskError
  /-- A call over the limit was refused. -/
  | limitExceeded (task : String) (limit : Nat)
  /-- The wrapped function failed. -/
  | failed (failure : Failure)
  /-- A failure was asked for, and there is none. -/
  | nothingToBurst (state : TaskState)
  /-- No worker could be started. -/
  | spawn (reason : String)
  /-- No result channel could be made. -/
  | channel (reason : String)
  /-- An outcome could not be encoded or decoded. -/
  | codec (reason : String)
  /-- The settings were rejected. -/
  | configuration (reason : String)
  /-- The platform lacks what the call needs. -/
  | notSupported (reason : String)
  /-- The system reported an error. -/
  | io (kind : IoKind)
  deriving Repr, DecidableEq

namespace TaskError

/-- The wording of an error. -/
def message : TaskError → String
  | .limitExceeded task limit =>
    "Concurrency limit exceeded: '" ++ task ++ "' only allows " ++ toString limit ++
      " concurrent execution(s)"
  | .failed failure => "Task failed: " ++ failure.text
  | .nothingToBurst state =>
    "Nothing to burst: task is " ++ state.text ++ ", not in error state"
  | .spawn reason => "Failed to start worker: " ++ reason
  | .channel reason => "Result channel error: " ++ reason
  | .codec reason => "Outcome encoding error: " ++ reason
  | .configuration reason => "Invalid configuration: " ++ reason
  | .notSupported reason => "Operation not supported: " ++ reason
  | .io kind => "IO error: " ++ kind.name

/-- The failure of the wrapped function, if the error carries one. -/
def failure? : TaskError → Option Failure
  | .failed failure => some failure
  | _ => none

end TaskError

end Offload
