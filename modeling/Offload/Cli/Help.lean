import Offload.Cli.Request

/-!
# Pages of help

A page says what it is about, how to write the command, and lists commands and options in columns.
-/

namespace Offload.Cli

/-- What the program does. -/
def about : String := "Run functions in worker processes and threads"

/-- The name and version of the program. -/
def versionText : String := "isotask 0.4.27\n"

/-- What a command does. -/
def CommandName.about : CommandName → String
  | .sleep => "Sleep in a worker process, then return twice the input"
  | .fail => "Raise an error in a worker process and burst it"
  | .limit => "Show a second call being rejected at max_concurrent = 1"
  | .linger =>
    "Return from a worker that ignores SIGTERM and keeps running, then terminate it"
  | .thread => "Same as `sleep`, on a worker thread"

/-- What the command that shows help does. -/
def helpAbout : String := "Print this message or the help of the given subcommand(s)"

/-- Rows of two columns, the second one two blanks after the longest entry of the first. -/
def rows (entries : List (String × String)) : String :=
  let width := (entries.map fun e => e.1.length).foldl max 0
  "".intercalate (entries.map fun (left, right) =>
    "  " ++ left ++ "".pushn ' ' (width - left.length + 2) ++ right ++ "\n")

/-- The option that names the settings, with what its variable holds. -/
def configRow (config : Option String) : String × String :=
  ("    --config <FILE>",
    "Execution config file (TOML). ISOTASK_* environment variables override it [env: " ++
      configVariable ++ "=" ++ config.getD "" ++ "]")

/-- The option that asks for help. -/
def helpRow : String × String := ("-h, --help", "Print help")

/-- The option of a command that takes a number. -/
def NumberOption.row (o : NumberOption) : String × String :=
  let value := o.name.map fun c => if c = '-' then '_' else c.toUpper
  ("    --" ++ o.name ++ " <" ++ value ++ ">",
    o.about ++ " [default: " ++ toString o.default.toNat ++ "]")

/-- A page. -/
def Page.text (config : Option String) : Page → String
  | .program =>
    Cli.about ++ "\n\nUsage: isotask [OPTIONS] <COMMAND>\n\nCommands:\n" ++
      rows ((CommandName.all.map fun c => (c.text, c.about)) ++ [("help", helpAbout)]) ++
      "\nOptions:\n" ++
      rows [configRow config, helpRow, ("-V, --version", "Print version")]
  | .command c =>
    c.about ++ "\n\nUsage: isotask " ++ c.text ++ " [OPTIONS]\n\nOptions:\n" ++
      rows ((c.number?.map NumberOption.row).toList ++ [configRow config, helpRow])
  | .help =>
    helpAbout ++ "\n\nUsage: isotask help [COMMAND]...\n\nArguments:\n" ++
      rows [("[COMMAND]...", "Print help for the subcommand(s)")]

end Offload.Cli
