import Offload.Channel.InProcess
import Offload.Channel.Pipe
import Offload.Worker.Conclusion

/-!
# The bodies of workers

What a worker does with the end of the wrapped function. A worker process sends the outcome through
its pipe and exits with a code that tells how the sending went. A worker thread sends the outcome
through its channel. Only the call of the function is guarded against panics: a panic of the code
that the function left behind leaves the body.
-/

namespace Offload.Worker

open Offload.Channel (InProcess Pipe)
open Wire (Codec)

variable {α : Type}

/-- The exit code of a worker whose outcome was sent. -/
def exitSent : Nat := 0

/-- The exit code of a worker whose outcome could not be written to the pipe. -/
def exitSendFailed : Nat := 70

/-- The exit code of a worker whose outcome could not be encoded. -/
def exitEncodeFailed : Nat := 71

/-- The exit code for the result of the sending. -/
def exitCode : Except TaskError Unit → Nat
  | .ok () => exitSent
  | .error (.codec _) => exitEncodeFailed
  | .error _ => exitSendFailed

/-- How the body of a worker process is left. -/
inductive Departure
  | exits (code : Nat)
  /-- A panic goes on into the code of the caller. -/
  | unwinds (payload : Payload)
  deriving Repr, DecidableEq

/-- The body of a worker process. -/
def processBody (c : Codec α) (pipe : Pipe) (conclusion : Conclusion α) : Departure × Pipe :=
  match conclusion.outcome with
  | .error payload => (.unwinds payload, { pipe with senderHeld := false })
  | .ok outcome =>
    match conclusion.writingPanic with
    | some payload => (.unwinds payload, { pipe with senderHeld := false })
    | none =>
      let (result, pipe) := pipe.send c outcome
      (.exits (exitCode result), pipe)

/-- The body of a worker thread. A panic takes the sender with it. -/
def threadBody (channel : InProcess α) (conclusion : Conclusion α) : InProcess α :=
  match conclusion.outcome with
  | .error _ => { channel with senderHeld := false }
  | .ok outcome => (channel.send outcome).2

end Offload.Worker
