import Offload.Channel.Receive

/-!
# Channels inside a process

Outcomes are passed as values, unencoded, in the order they were sent.
-/

namespace Offload.Channel

variable {α : Type}

/-- The state of a channel: the outcomes on their way, and which ends are held. -/
structure InProcess (α : Type) where
  pending : List (Outcome α) := []
  senderHeld : Bool := true
  receiverHeld : Bool := true

namespace InProcess

/-- Send the one outcome and let go of the sender. Tells whether a receiver is there. -/
def send (channel : InProcess α) (outcome : Outcome α) : Bool × InProcess α :=
  if channel.receiverHeld then
    (true, { channel with pending := channel.pending ++ [outcome], senderHeld := false })
  else
    (false, { channel with senderHeld := false })

/-- The next outcome, if one is there. -/
def receive (channel : InProcess α) : Answer α × InProcess α :=
  match channel.pending with
  | outcome :: rest => (.ok (some outcome), { channel with pending := rest })
  | [] =>
    if channel.senderHeld then (.ok none, channel)
    else (.error .disconnected, channel)

end InProcess

end Offload.Channel
