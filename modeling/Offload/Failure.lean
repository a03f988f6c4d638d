import Offload.Text.Path

/-!
# Failures

What is left of an error or a panic once it has left the worker: its kind, the name of its type,
its message and the messages of its sources. The error value itself stays behind.
-/

namespace Offload

/-- How a wrapped function failed. -/
inductive FailureKind
  /-- It returned an error. -/
  | error
  /-- It panicked. -/
  | panic
  deriving Repr, DecidableEq

/-- The record of a failure that travels to the caller. -/
structure Failure where
  kind : FailureKind
  typeName : String
  message : String
  sources : List String := []
  deriving Repr, DecidableEq

/-- What a panic carries: a text, or a value of another type, whose text is unknown. -/
inductive Payload
  | text (message : String)
  | other
  deriving Repr, DecidableEq

/-- The text of a panic. -/
def Payload.message : Payload → String
  | .text message => message
  | .other => "Box<dyn Any>"

namespace Failure

/-- The failure of a function that returned an error of the type `typeName`. -/
def ofError (typeName message : String) (sources : List String := []) : Failure :=
  ⟨.error, typeName, message, sources⟩

/-- The failure of a function that panicked. -/
def ofPanic (payload : Payload) : Failure :=
  ⟨.panic, "panic", payload.message, []⟩

/-- The failure that stands in for an outcome that could not be encoded. -/
def standIn (reason : String) : Failure :=
  ⟨.error, "isotask::error::TaskError", "outcome could not be encoded: " ++ reason, []⟩

/-- Whether the function panicked. -/
def isPanic (f : Failure) : Bool :=
  f.kind == .panic

/-- The last segment of the type's name up to its first angle bracket. -/
def shortType (f : Failure) : String :=
  String.ofList (Text.lastSegment (f.typeName.toList.takeWhile (· != '<')))

/-- One line for the failure itself and one line for each source. -/
def text (f : Failure) : String :=
  let head := match f.kind with
    | .panic => "worker panicked: " ++ f.message
    | .error => f.shortType ++ ": " ++ f.message
  f.sources.foldl (fun line source => line ++ "\n  caused by: " ++ source) head

end Failure

end Offload
