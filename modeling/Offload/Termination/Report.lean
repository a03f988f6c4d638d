import Offload.Duration

/-!
# Reports of a termination

What is known of a worker after it was told to stop.
-/

namespace Offload

/-- How far a worker has come on its way out. -/
inductive Stage
  | running
  | stopRequested
  | killRequested
  /-- It has exited and was reaped. -/
  | dead
  /-- It was not reaped in the time allowed after the forced kill. -/
  | unresponsive
  deriving Repr, DecidableEq

/-- The word for a stage. -/
def Stage.text : Stage → String
  | .running => "running"
  | .stopRequested => "graceful-stop-requested"
  | .killRequested => "force-kill-requested"
  | .dead => "dead"
  | .unresponsive => "unresponsive"

/-- The report of one termination. -/
structure Report where
  pid : Nat
  stage : Stage
  /-- Whether the forced kill was needed. -/
  escalated : Bool := false
  elapsed : Duration := .ofMillis 0
  deriving DecidableEq

/-- Whether the worker is gone. -/
def Report.isDead (r : Report) : Bool :=
  r.stage == .dead

end Offload
