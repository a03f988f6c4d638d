import Offload.Channel.Receive
import Offload.Duration
import Offload.Frame

/-!
# Result pipes

The outcome of a worker process travels through a pipe as one frame. Sending uses the sender up,
so a worker reports at most once. The receiver takes one frame: its first answer other than
"nothing yet" is its last, and from then on it answers that the sender is gone, whatever the pipe
still holds.

The receiver waits until the pipe is readable, which it is when it holds bytes or when no sender is
left, and reads a whole frame then.
-/

namespace Offload.Channel

open Wire (Bytes Codec)

variable {α : Type}

/-- The state of a pipe: what reads on it will answer, and which ends are held. -/
structure Pipe where
  content : Source := []
  senderHeld : Bool := true
  receiverHeld : Bool := true
  deriving Repr, DecidableEq

namespace Pipe

/-- The bytes that a pipe holds without being read. -/
def capacity : Nat :=
  65536

/-- The number of bytes that were not read. -/
def unread (pipe : Pipe) : Nat :=
  pipe.content.foldl (fun
    | n, .chunk bytes => n + bytes.length
    | n, .fails _ => n) 0

/-- Write the bytes and let go of the sender. -/
def write (pipe : Pipe) (bytes : Bytes) : Except TaskError Unit × Pipe :=
  let pipe := { pipe with senderHeld := false }
  if pipe.receiverHeld then
    (.ok (), { pipe with content := pipe.content ++ Source.ofBytes bytes })
  else
    (.error (.io .brokenPipe), pipe)

/-- Send the one outcome and let go of the sender. An outcome that cannot be encoded is replaced by
the failure that says why; if that cannot be encoded either, nothing is written. -/
def send (c : Codec α) (pipe : Pipe) (outcome : Outcome α) : Except TaskError Unit × Pipe :=
  match Frame.encodeOrStandIn c outcome with
  | .ok frame => pipe.write frame
  | .error fault => (.error fault.toError, { pipe with senderHeld := false })

/-- Whether a read would not block. -/
def readable (pipe : Pipe) : Bool :=
  !pipe.content.isEmpty || !pipe.senderHeld

/-- The milliseconds that a wait for readability asks for, at most the greatest signed number of
32 bits. -/
def waitMillis (timeout : Duration) : Nat :=
  min timeout.millis (2 ^ 31 - 1)

/-- The answer that an attempt to read a frame stands for. -/
def ofRead : Except TaskError (Option (Outcome α)) → Answer α
  | .ok (some outcome) => .ok (some outcome)
  | .ok none => .error .disconnected
  | .error (.io .unexpectedEof) => .error .disconnected
  | .error e => .error (.corrupt e.message)

/-- The receiver of a pipe. -/
structure Receiver where
  finished : Bool := false
  deriving Repr, DecidableEq

/-- One attempt to receive, on a pipe that was found readable or not. -/
def Receiver.attempt (c : Codec α) (receiver : Receiver) (isReadable : Bool) (content : Source) :
    Answer α × Receiver × Source :=
  if receiver.finished then (.error .disconnected, receiver, content)
  else if isReadable then
    let (frame, content) := Frame.read c content
    (ofRead frame, ⟨true⟩, content)
  else (.ok none, receiver, content)

/-- One attempt to receive. -/
def receive (c : Codec α) (receiver : Receiver) (pipe : Pipe) : Answer α × Receiver × Pipe :=
  let (answer, receiver, content) := receiver.attempt c pipe.readable pipe.content
  (answer, receiver, { pipe with content })

end Pipe

end Offload.Channel
