import Offload.Settings
import Offload.Text.Blank
import Offload.Text.Numeral

/-!
# Settings from the environment

Three environment variables override settings, each a number of milliseconds. A variable that is
missing, malformed or zero changes nothing, and no variable changes the setting of another.
-/

namespace Offload

namespace Settings

/-- The variables that override settings. -/
inductive Variable
  | pollInterval
  | gracePeriod
  | killWait
  deriving Repr, DecidableEq

/-- The name of a variable. -/
def Variable.name : Variable → String
  | .pollInterval => "ISOTASK_POLL_INTERVAL_MS"
  | .gracePeriod => "ISOTASK_GRACE_PERIOD_MS"
  | .killWait => "ISOTASK_KILL_WAIT_MS"

/-- The text of each variable that has one. -/
abbrev Environment := String → Option String

/-- A text as a positive number of milliseconds. Blanks around the numeral do not matter. -/
def millis? (text : String) : Option Duration :=
  match Text.unsigned (2 ^ 64 - 1) (Text.trimBlanks text.toList) with
  | .ok 0 => none
  | .ok ms => some (.ofMillis (UInt64.ofNat ms))
  | .error _ => none

/-- The duration that the environment gives for a variable. -/
def Variable.read (v : Variable) (env : Environment) : Option Duration :=
  (env v.name).bind millis?

/-- The settings with what the environment overrides. -/
def override (s : Settings) (env : Environment) : Settings where
  limit := s.limit
  terminateOnReturn := s.terminateOnReturn
  pollInterval := (Variable.pollInterval.read env).getD s.pollInterval
  termination.gracePeriod := (Variable.gracePeriod.read env).getD s.termination.gracePeriod
  termination.killWait := (Variable.killWait.read env).getD s.termination.killWait

/-- The default settings with what the environment overrides. -/
def ofEnvironment (env : Environment) : Settings :=
  default.override env

end Settings

end Offload
