import Offload.Channel.InProcess
import Offload.Channel.Pipe

/-!
# Channels in use

The two ends of a channel, used step by step. An end that was used up or dropped answers so.

A writer in the background fills a pipe up to its capacity and goes on as the pipe is read. It
fails if the receiver is dropped while more bytes are left than the pipe holds.
-/

namespace Offload.Channel

open Wire (Bytes Codec)

variable {α : Type}

/-- A step on the ends of a channel. -/
inductive Step (α : Type) where
  | send (outcome : Outcome α)
  | dropSender
  | dropReceiver
  | receive
  /-- The sender's end writes these bytes and closes. -/
  | writeBytes (bytes : Bytes)
  | sendInBackground (outcome : Outcome α)
  /-- What the sending in the background came to. -/
  | join

/-- The answer to a step. -/
inductive Reply (α : Type) where
  | sent
  | sending
  | written
  | dropped
  | noSender
  | noReceiver
  | receiverGone
  | failed (error : TaskError)
  | received (answer : Answer α)

/-- The reply that the result of a sending is. -/
def Reply.ofSend : Except TaskError Unit → Reply α
  | .ok () => .sent
  | .error e => .failed e

namespace InProcess

/-- One step on the ends of a channel inside a process. -/
def step (channel : InProcess α) : Step α → Reply α × InProcess α
  | .send outcome | .sendInBackground outcome =>
    if channel.senderHeld then
      let (delivered, channel) := channel.send outcome
      (if delivered then .sent else .receiverGone, channel)
    else (.noSender, channel)
  | .dropSender => (.dropped, { channel with senderHeld := false })
  | .dropReceiver => (.dropped, { channel with receiverHeld := false })
  | .receive =>
    if channel.receiverHeld then
      let (answer, channel) := channel.receive
      (.received answer, channel)
    else (.noReceiver, channel)
  | .writeBytes _ | .join => (.noSender, channel)

end InProcess

namespace Pipe

/-- A pipe with its receiver, and the result of the sending in the background, if there was one. -/
structure Session where
  pipe : Pipe := {}
  receiver : Receiver := {}
  background : Option (Except TaskError Unit) := none

/-- One step on the ends of a pipe. -/
def Session.step (c : Codec α) (s : Session) : Step α → Reply α × Session
  | .send outcome =>
    if s.pipe.senderHeld then
      let (result, pipe) := s.pipe.send c outcome
      (.ofSend result, { s with pipe })
    else (.noSender, s)
  | .sendInBackground outcome =>
    if s.pipe.senderHeld then
      let (result, pipe) := s.pipe.send c outcome
      (.sending, { s with pipe, background := some result })
    else (.noSender, s)
  | .join =>
    match s.background with
    | some result => (.ofSend result, { s with background := none })
    | none => (.noSender, s)
  | .writeBytes bytes =>
    if s.pipe.senderHeld then (.written, { s with pipe := (s.pipe.write bytes).2 })
    else (.noSender, s)
  | .dropSender => (.dropped, { s with pipe := { s.pipe with senderHeld := false } })
  | .dropReceiver =>
    let background :=
      if s.pipe.receiverHeld && capacity < s.pipe.unread then
        s.background.map fun _ => .error (.io .brokenPipe)
      else s.background
    (.dropped, { s with pipe := { s.pipe with receiverHeld := false }, background })
  | .receive =>
    if s.pipe.receiverHeld then
      let (answer, receiver, pipe) := s.pipe.receive c s.receiver
      (.received answer, { s with receiver, pipe })
    else (.noReceiver, s)

end Pipe

end Offload.Channel
