import Offload.Power
import Offload.Text.Numeral

/-!
# Requests on the command line

The arguments are options of the program, the name of a command, and options of the command. An
option that takes a value takes the rest of its own argument after an equals sign, or the next
argument, if that one does not begin with a dash; each option is given once at most. The option that
names the settings may stand on both sides of the command, where the later one counts, and has a
variable of the environment to fall back on.

A value is checked when the next option comes, or at the end. Options that ask for help are answered
at once, so they win over what comes after them, and those of a command win over an unchecked value
before it.
-/

namespace Offload.Cli

/-- The commands. -/
inductive CommandName
  | sleep
  | fail
  | limit
  | linger
  | thread
  deriving Repr, DecidableEq

/-- The commands in order. -/
def CommandName.all : List CommandName :=
  [sleep, fail, limit, linger, thread]

/-- The word for a command. -/
def CommandName.text : CommandName → String
  | .sleep => "sleep"
  | .fail => "fail"
  | .limit => "limit"
  | .linger => "linger"
  | .thread => "thread"

/-- The command of a word. -/
def CommandName.ofText? (word : String) : Option CommandName :=
  all.find? fun c => c.text == word

/-- An option of a command that takes a number. -/
structure NumberOption where
  name : String
  default : UInt64
  about : String

/-- The option of a command that takes a number, if it has one. -/
def CommandName.number? : CommandName → Option NumberOption
  | .sleep | .thread => some ⟨"secs", 1, "Seconds to sleep"⟩
  | .linger => some ⟨"grace-ms", 500, "Grace period before the forced kill (milliseconds)"⟩
  | .fail | .limit => none

/-- What a page of help is about. -/
inductive Page
  | program
  | command (name : CommandName)
  | help
  deriving Repr, DecidableEq

/-- What the arguments ask for. -/
inductive Request
  /-- Run a command with its number, with the settings of a file if one is named. -/
  | run (config : Option String) (command : CommandName) (number : UInt64)
  | help (page : Page)
  | version
  deriving Repr, DecidableEq

/-! ### Words -/

/-- An argument by its form. -/
inductive Word
  /-- Nothing after it is an option. -/
  | escape
  | long (name : String) (attached : Option String)
  /-- Letters after one dash. The first one counts. -/
  | short (letter : Char)
  | plain (text : String)
  deriving Repr, DecidableEq

/-- The text before the first equals sign, and the text after it if there is one. -/
def splitEquals (cs : List Char) : String × Option String :=
  (String.ofList (cs.takeWhile (· ≠ '=')),
    match cs.dropWhile (· ≠ '=') with
    | [] => none
    | _ :: value => some (String.ofList value))

/-- The form of an argument. -/
def Word.ofText (argument : String) : Word :=
  match argument.toList with
  | ['-', '-'] => .escape
  | '-' :: '-' :: rest =>
    let (name, attached) := splitEquals rest
    .long name attached
  | '-' :: letter :: _ => .short letter
  | _ => .plain argument

/-! ### Options of one level -/

/-- The options that take a value. -/
inductive ValueOption
  | config
  | number
  deriving Repr, DecidableEq

/-- A place where options may stand: before the command, or after it. -/
inductive Level
  | program
  | command (name : CommandName)
  deriving Repr, DecidableEq

/-- The page of help on a level. -/
def Level.page : Level → Page
  | .program => .program
  | .command name => .command name

/-- The option of a name that takes a value. -/
def Level.option? (l : Level) (name : String) : Option ValueOption :=
  if name = "config" then some .config
  else match l with
    | .program => none
    | .command c => if c.number?.any (·.name == name) then some .number else none

/-- The options that take no value. -/
inductive Flag
  | help
  | version
  deriving Repr, DecidableEq

/-- The flag of a name. -/
def Flag.ofName? : String → Option Flag
  | "help" => some .help
  | "version" => some .version
  | _ => none

/-- The flag of a letter. -/
def Flag.ofLetter? : Char → Option Flag
  | 'h' => some .help
  | 'V' => some .version
  | _ => none

/-- What a flag asks for. Only the program has a version. -/
def Level.request? (l : Level) : Flag → Option Request
  | .help => some (.help l.page)
  | .version => if l = .program then some .version else none

/-- The values that were given on a level. -/
structure Given where
  config : Option String := none
  number : Option UInt64 := none
  deriving Repr, DecidableEq

/-- Take the value of an option. The name of a file is not empty. -/
def Given.add? (g : Given) (value : String) : ValueOption → Option Given
  | .config => if g.config.isSome ∨ value = "" then none else some { g with config := some value }
  | .number =>
    match g.number, Text.unsigned (2 ^ 64 - 1) value.toList with
    | none, .ok n => some { g with number := some (UInt64.ofNat n) }
    | _, _ => none

/-- How far the last option is. -/
inductive Pending
  | nothing
  /-- The option has no value so far. -/
  | awaiting (option : ValueOption)
  /-- The value of the option is unchecked. -/
  | filled (option : ValueOption) (value : String)
  deriving Repr, DecidableEq

/-- Finish the last option. -/
def Pending.close? (p : Pending) (g : Given) : Option Given :=
  match p with
  | .nothing => some g
  | .awaiting _ => none
  | .filled o value => g.add? value o

/-- What the arguments of one level come to. -/
inductive Reading
  | ended (pending : Pending) (given : Given)
  /-- A word that no option takes, and the arguments after it. -/
  | word (pending : Pending) (given : Given) (text : String) (rest : List String)
  | asks (request : Request)
  | fault
  deriving Repr, DecidableEq

/-- Answer a flag once the last option is finished. -/
def Reading.answer (p : Pending) (g : Given) : Option Request → Reading
  | some request => if (p.close? g).isSome then .asks request else .fault
  | none => .fault

/-- Read the arguments of one level. -/
def Level.read (l : Level) (p : Pending) (g : Given) : List String → Reading
  | [] => .ended p g
  | argument :: rest =>
    match Word.ofText argument with
    | .escape => if rest.isEmpty then .ended p g else .fault
    | .short letter => .answer p g ((Flag.ofLetter? letter).bind l.request?)
    | .plain text =>
      match p with
      | .awaiting o => l.read (.filled o text) g rest
      | _ => .word p g text rest
    | .long name attached =>
      match l.option? name, attached with
      | some o, some value =>
        match (p.close? g).bind (·.add? value o) with
        | some g => l.read .nothing g rest
        | none => .fault
      | some o, none =>
        match p.close? g with
        | some g => l.read (.awaiting o) g rest
        | none => .fault
      | none, some _ => .fault
      | none, none => .answer p g ((Flag.ofName? name).bind l.request?)

/-! ### The whole command line -/

/-- The variable that names the settings if no option does. -/
def configVariable : String := "ISOTASK_CONFIG"

/-- The settings that a level names, or those that the variable names. An empty name is refused. -/
def Given.config? (g : Given) (fallback : Option String) : Option (Option String) :=
  match g.config, fallback with
  | some config, _ => some (some config)
  | none, some "" => none
  | none, other => some other

/-- The page that the words after the request for help name. -/
def Page.ofWords? : List String → Option Page
  | [] => some .program
  | ["help"] => some .help
  | [word] => (CommandName.ofText? word).map Page.command
  | _ => none

/-- Read the arguments of a command, where `before` finishes what came before it. -/
def readCommand (command : CommandName) (before : Option Given) (fallback : Option String)
    (arguments : List String) : Option Request :=
  match (Level.command command).read .nothing {} arguments with
  | .asks request => some request
  | .ended p g => do
    let after ← p.close? g
    let config ← after.config? fallback
    let before ← before
    let outer ← before.config? fallback
    let number := after.number.getD ((command.number?.map (·.default)).getD 0)
    return .run (if after.config.isSome then config else outer) command number
  | .word .. | .fault => none

/-- What the arguments ask for, where `fallback` names the settings if no option does. There
is no request in wrong arguments. -/
def Request.ofArguments? (arguments : List String) (fallback : Option String) : Option Request :=
  match Level.program.read .nothing {} arguments with
  | .asks request => some request
  | .word p g word rest =>
    if word = "help" then (Page.ofWords? rest).map Request.help
    else do readCommand (← CommandName.ofText? word) (p.close? g) fallback rest
  | .ended .. | .fault => none

end Offload.Cli
