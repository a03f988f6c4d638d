import Offload.Limit
import Offload.Termination.Policy

/-!
# Settings

How the calls of a wrapped function are run.
-/

namespace Offload

/-- The settings of a wrapped function. -/
structure Settings where
  /-- How many calls may be in flight at once. -/
  limit : Limit := .unbounded
  /-- Whether the worker process is terminated once its outcome is known. -/
  terminateOnReturn : Bool := false
  /-- How long one attempt to receive the outcome may take. -/
  pollInterval : Duration := .ofMillis 100
  termination : TerminationPolicy := {}
  deriving DecidableEq

namespace Settings

/-- The settings of a function for which nothing was chosen. -/
def default : Settings := {}

/-- The same settings with another grace period. -/
def withGracePeriod (s : Settings) (d : Duration) : Settings :=
  { s with termination := { s.termination with gracePeriod := d } }

/-- The same settings with another time to wait after a kill. -/
def withKillWait (s : Settings) (d : Duration) : Settings :=
  { s with termination := { s.termination with killWait := d } }

end Settings

end Offload
