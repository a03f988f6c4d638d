import Offload.Duration

/-!
# Termination policies

How long a worker gets to stop on its own, and how long to wait for it after a forced kill.
-/

namespace Offload

/-- The timing of a termination. -/
structure TerminationPolicy where
  /-- The time that a worker gets to exit after it was asked to stop. -/
  gracePeriod : Duration := .ofMillis 5000
  /-- The time to wait for the worker after the forced kill. -/
  killWait : Duration := .ofMillis 1000
  deriving DecidableEq

namespace TerminationPolicy

/-- The longest time that a termination may take, if it is a duration. -/
def longest? (p : TerminationPolicy) : Option Duration :=
  p.gracePeriod.add? p.killWait

/-- What is said of a policy whose longest time is no duration. -/
def overflowMessage : String :=
  "overflow when adding durations"

end TerminationPolicy

end Offload
