import Offload.Cli.Line
import Offload.Cli.Request
import Offload.Settings.Environment
import Offload.Task.Session

/-!
# Running the commands

Each command wraps a function, calls it, and prints what became of the call. The settings come from
a file, if one is named, and from the environment, which overrides the file.
-/

namespace Offload.Cli

open Offload.Task (Session)

/-- What running a command comes to. -/
structure Result where
  lines : List Line := []
  /-- How long it takes. -/
  takes : Duration := .ofMillis 0
  /-- What went wrong, and the causes of that. -/
  fault : Option String := none

/-- The exit code of the program. -/
def Result.code (r : Result) : Nat :=
  if r.fault.isSome then 1 else 0

/-- A text whose further lines are set in by four blanks. -/
def indented (s : String) : String :=
  "    " ++ String.ofList (s.toList.flatMap fun c =>
    if c = '\n' then ['\n', ' ', ' ', ' ', ' '] else [c])

/-- The wording of an error, with what was being done. -/
def faultText (doing : String) (cause : TaskError) : String :=
  "Error: " ++ doing ++ "\n\nCaused by:\n" ++ indented cause.message

/-- A command that failed, with what was being done. -/
def Result.failed (doing : String) (cause : TaskError) : Result :=
  { fault := some (faultText doing cause) }

/-! ### Settings -/

/-- The settings of a run, given the name and the content of the file with the settings. -/
def settingsOf (file : Option (String × Except (Option String) Wire.Bytes))
    (environment : Settings.Environment) : Except String Settings :=
  match file with
  | none => .ok (.ofEnvironment environment)
  | some (path, content) =>
    match Settings.load path content with
    | .ok settings => .ok (settings.override environment)
    | .error e => .error (faultText ("Failed to load config from " ++ path) e)

/-! ### Functions -/

/-- A task of a function of the given name. -/
def taskOf (path : Offload.Path) (name : String) (settings : Settings) : Task :=
  let (task, _) := Task.wrap path ⟨name⟩ false settings 0 {}
  task.renamed name

/-- Returns twice a number of seconds after it has slept for them. It ends when its gate, which
stands for the end of the sleep, is opened. -/
def doubling (secs : UInt64) : Behaviour :=
  { gate := some "awake"
    act := .concludes (.returns ((Wire.Dynamic.ofInt? (2 * secs).toNat).getD .null)) }

/-- Returns an error. -/
def rejecting (value : Int) : Behaviour :=
  { act := .fails "isotask::ValueError"
      (toString value ++ " is not an acceptable value") }

/-- Returns, and keeps its process alive with requests to stop ignored. -/
def outlasting : Behaviour :=
  { ignoresStop := true, linger := some .forever, act := .concludes (.returns .null) }

/-- A number. -/
def numberText : Wire.Dynamic → String
  | .int n => toString n.val
  | _ => ""

/-- A number that may be missing. -/
def optionText : Option Wire.Dynamic → String
  | some v => "Some(" ++ numberText v ++ ")"
  | none => "None"

/-! ### Commands -/

/-- Make a call under the name `handle` and let it go on as far as it can. -/
def start (s : Session) (task : Task) (b : Behaviour) (handle : String) :
    Except TaskError Session :=
  match s.callTask task b handle with
  | (.failed e, _) => .error e
  | (_, s) => .ok s.settle

/-- Let the sleep of a call end. -/
def wake (s : Session) : Session :=
  (s.step (.openGate "awake")).2

/-- A number of seconds. -/
def seconds (secs : UInt64) : Duration :=
  .saturating (secs.toNat * 1000000000)

/-- Sleep on a path, and print the value with the time that it took. -/
def sleepOn (path : Offload.Path) (doing : String) (settings : Settings) (secs : UInt64) : Result :=
  match start {} (taskOf path "sleep_then_double" settings) (doubling secs) "call" with
  | .error e => .failed doing e
  | .ok s =>
    match ((wake s).call? "call").bind (·.handle.value?) with
    | some value =>
      { lines := [[.text (numberText value), .text " (after ", .time (seconds secs), .text ")"]]
        takes := seconds secs }
    | none => { fault := some "Error: worker failed" }

/-- Call a function that returns an error, and print the error. -/
def failing (settings : Settings) : Result :=
  match start {} (taskOf .process "raise_value_error" settings) (rejecting (-1)) "call" with
  | .error e => .failed "Failed to start worker" e
  | .ok s =>
    match s.call? "call" with
    | none => {}
    | some c =>
      let waited : Line := [.text "wait() -> ", .text (optionText c.handle.value?)]
      match c.handle.burst.failure? with
      | some f =>
        { lines := [waited,
            [.text "burst() -> ", .text f.shortType, .text (" [" ++ f.message ++ "]")]] }
      | none =>
        { lines := [waited]
          fault := some ("Error: expected a captured failure, got: " ++ c.handle.burst.message) }

/-- Make two calls where one is allowed, and print how the second one is refused. -/
def limiting (settings : Settings) : Result :=
  let task := (taskOf .process "sleep_then_double" settings).withLimit (.atMost 1)
  match start {} task (doubling 1) "first" with
  | .error e => .failed "Failed to start first worker" e
  | .ok s =>
    match s.callTask task (doubling 1) "second" with
    | (.failed (.limitExceeded name limit), s) =>
      let value := ((wake s).call? "first").bind (·.handle.value?)
      { lines := [
          [.text ("second call rejected: '" ++ name ++ "' allows " ++ toString limit ++
            " in flight")],
          [.text ("first call -> " ++ optionText value)]]
        takes := seconds 1 }
    | (.failed e, _) => .failed "Second call failed unexpectedly" e
    | _ => { fault := some "Error: second call was admitted despite max_concurrent = 1" }

/-- Call a function that leaves a stubborn process behind, and print how that was terminated. -/
def lingering (settings : Settings) (graceMillis : UInt64) : Result :=
  let task := (taskOf .process "return_and_linger"
    (settings.withGracePeriod (.ofMillis graceMillis))).terminatingOnReturn true
  match start {} task outlasting "call" with
  | .error e => .failed "Failed to start worker" e
  | .ok s =>
    match (s.call? "call").bind (·.handle.termination) with
    | some r =>
      let escalated := if r.escalated then "true" else "false"
      { lines := [[.text "worker ", .pid r.pid, .text (" -> " ++ r.stage.text ++ " after "),
          .time r.elapsed, .text (" (escalated: " ++ escalated ++ ")")]]
        takes := r.elapsed }
    | none => { fault := some "Error: worker reported but was not terminated" }

/-- Run a command with its number. -/
def CommandName.run (c : CommandName) (settings : Settings) (number : UInt64) : Result :=
  match c with
  | .sleep => sleepOn .process "Failed to start worker" settings number
  | .thread => sleepOn .thread "Failed to start worker thread" settings number
  | .fail => failing settings
  | .limit => limiting settings
  | .linger => lingering settings number

/-- Run a command with the settings of a file and of the environment. -/
def CommandName.execute (c : CommandName) (number : UInt64)
    (file : Option (String × Except (Option String) Wire.Bytes))
    (environment : Settings.Environment) : Result :=
  match settingsOf file environment with
  | .ok settings => c.run settings number
  | .error fault => { fault := some fault }

end Offload.Cli
