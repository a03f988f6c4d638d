import Offload.Duration

/-!
# Lines of output

A line is made of pieces, so that whoever prints it decides how a measured time or a pid is shown.
`Piece.shown` writes a time in the largest unit that it fills, with two decimals.
-/

namespace Offload.Cli

/-- A piece of a line. -/
inductive Piece where
  | text (s : String)
  | time (d : Duration)
  | pid (n : Nat)

/-- A line, without its end. -/
abbrev Line := List Piece

/-- The number of hundredths of a unit, to the nearest, and of two that are as near the even one. -/
def hundredths (amount unit : Nat) : Nat :=
  let whole := amount * 100 / unit
  let rest := amount * 100 % unit
  if unit < 2 * rest ∨ (2 * rest = unit ∧ whole % 2 = 1) then whole + 1 else whole

/-- A number of hundredths as a decimal with two places. -/
def decimal (n : Nat) : String :=
  toString (n / 100) ++ "." ++ toString (n / 10 % 10) ++ toString (n % 10)

/-- The units of time from the largest to the smallest, with their nanoseconds. -/
def units : List (String × Nat) :=
  [("s", 1000000000), ("ms", 1000000), ("µs", 1000), ("ns", 1)]

/-- A time in the largest unit that it fills. -/
def timeText (d : Duration) : String :=
  let (name, nanos) := (units.find? fun u => decide (u.2 ≤ d.nanos)).getD ("ns", 1)
  decimal (hundredths d.nanos nanos) ++ name

/-- A piece as it is printed. -/
def Piece.shown : Piece → String
  | .text s => s
  | .time d => timeText d
  | .pid n => toString n

/-- The text of some lines, where `shown` says how a piece is printed. -/
def linesText (shown : Piece → String) (lines : List Line) : String :=
  "".intercalate (lines.map fun line => "".intercalate (line.map shown) ++ "\n")

end Offload.Cli
