import Offload.Outcome

/-!
# Receiving an outcome

What a receiver of outcomes can answer, whatever the channel: nothing yet, the outcome, or that
there will be none.
-/

namespace Offload.Channel

/-- Why a receiver can give no outcome any more. -/
inductive Loss
  /-- Every sender is gone, and no outcome came. -/
  | disconnected
  /-- Bytes came that are no outcome. -/
  | corrupt (reason : String)
  deriving Repr, DecidableEq

/-- The wording of a loss. -/
def Loss.message : Loss → String
  | disconnected => "worker went away without reporting an outcome"
  | corrupt reason => "corrupt outcome frame: " ++ reason

/-- The answer of a receiver. -/
abbrev Answer (α : Type) := Except Loss (Option (Outcome α))

end Offload.Channel
