import Offload.Toml.DateTime
import Offload.Toml.Entries
import Offload.Toml.Number
import Offload.Toml.Quoted

/-!
# Keys and values of a TOML document

A key is a row of segments, joined by points. A value is a text, a number, a date, a truth value, an
array or a table in one line.

The language bounds neither how deep arrays and such tables nest, nor how many segments a key has,
nor how great a number is. A reader that has to end with what it is given bounds all three
(`Bounds.kept`). The scanners are those of both: without the bounds they read what the language has
(`Bounds.lifted`), with as many levels as the text has characters to open them, and more. So their
recursion is on the levels that are left in either case.
-/

namespace Offload.Toml

/-- A character of a segment without quotes. -/
def isBare (c : Char) : Bool :=
  c.isAlphanum || c == '_' || c == '-'

/-- The levels to which a reader lets arrays and tables nest, and the segments that a key has at
most. -/
def depthLimit : Nat := 79

/-- Whether a document is read within the bounds of a reader, or as the language has it. -/
inductive Bounds
  | kept
  | lifted
  deriving Repr, DecidableEq

/-- The levels for a text, and the segments for a key in front of it. A text opens no more levels
than it has characters. -/
def Bounds.levels (bounds : Bounds) (cs : List Char) : Nat :=
  match bounds with
  | kept => depthLimit
  | lifted => depthLimit + cs.length

/-- Whether a number is in range. -/
def Bounds.admits (bounds : Bounds) (value : Value) : Bool :=
  match bounds with
  | kept => value.fits
  | lifted => true

/-- One segment of a key. -/
def segment? (cs : List Char) : Option (String × List Char) :=
  match quoted? cs with
  | some found => some found
  | none =>
    let bare := cs.takeWhile isBare
    if bare.isEmpty then none else some (String.ofList bare, cs.dropWhile isBare)

/-- The segments of a key, with at most `fuel` of them. Blanks around a segment do not matter. -/
def segments? : (fuel : Nat) → Scan (List String)
  | 0, _ => none
  | fuel + 1, cs => do
    let (segment, cs) ← segment? (skipBlanks cs)
    match skipBlanks cs with
    | '.' :: cs =>
      let (more, cs) ← segments? fuel cs
      return (segment :: more, cs)
    | cs => return ([segment], cs)

/-- A key as its last segment and those in front. -/
def key? (bounds : Bounds) (cs : List Char) : Option ((List String × String) × List Char) := do
  let (path, cs) ← segments? (bounds.levels cs) cs
  let last ← path.getLast?
  return ((path.dropLast, last), cs)

/-- The text behind a word. -/
def word? (word : List Char) (cs : List Char) : Option (List Char) :=
  if word.isPrefixOf cs then some (cs.drop word.length) else none

/-- The rest of an array. -/
def arrayBody (item : Scan Value) : (fuel : Nat) → List Char → Option (List Char)
  | 0, _ => none
  | fuel + 1, cs =>
    match skipLayout false cs with
    | ']' :: rest => some rest
    | cs => do
      let (_, cs) ← item cs
      match skipLayout false cs with
      | ']' :: rest => some rest
      | ',' :: rest => arrayBody item fuel rest
      | _ => none

/-- A key, an equals sign and a value. -/
def pair? (bounds : Bounds) (item : Scan Value) (cs : List Char) :
    Option ((List String × String × Value) × List Char) := do
  let ((path, key), cs) ← key? bounds cs
  let cs ← expect? '=' cs
  let (value, cs) ← item (skipBlanks cs)
  return ((path, key, value), cs)

/-- The rest of a table in one line that has entries. -/
def tableBody (bounds : Bounds) (item : Scan Value) :
    (fuel : Nat) → Entries → List Char → Option (List Char)
  | 0, _, _ => none
  | fuel + 1, es, cs => do
    let ((path, key, value), cs) ← pair? bounds item cs
    let es ← es.defineAt path key value
    match skipBlanks cs with
    | '}' :: rest => some rest
    | ',' :: rest => tableBody bounds item fuel es rest
    | _ => none

/-- A float, or else an integer, of any size. -/
def numeral? (cs : List Char) : Option (Value × List Char) :=
  match float? cs with
  | some (overflows, rest) => some (.float overflows, rest)
  | none => (integer? cs).map fun (n, rest) => (.integer n, rest)

/-- A date, a time, or a number in range. -/
def number? (bounds : Bounds) (cs : List Char) : Option (Value × List Char) :=
  match dateTime? cs with
  | some rest => some (.dateTime, rest)
  | none => (numeral? cs).filter fun (value, _) => bounds.admits value

/-- A value that opens no level: a text, a truth value, a date, a time or a number. -/
def scalar? (bounds : Bounds) : Scan Value
  | '"' :: cs => (text? ('"' :: cs)).map fun (s, rest) => (.text s, rest)
  | '\'' :: cs => (text? ('\'' :: cs)).map fun (s, rest) => (.text s, rest)
  | 't' :: cs => (word? "true".toList ('t' :: cs)).map fun rest => (.boolean true, rest)
  | 'f' :: cs => (word? "false".toList ('f' :: cs)).map fun rest => (.boolean false, rest)
  | cs => number? bounds cs

/-- A value, with the given number of levels left. -/
def value? (bounds : Bounds) : (levels : Nat) → Scan Value
  | 0, '[' :: _ => none
  | 0, '{' :: _ => none
  | levels + 1, '[' :: cs =>
    (arrayBody (value? bounds levels) (cs.length + 1) cs).map fun rest => (.array, rest)
  | levels + 1, '{' :: cs =>
    match skipBlanks cs with
    | '}' :: rest => some (.table, rest)
    | _ =>
      (tableBody bounds (value? bounds levels) (cs.length + 1) [] cs).map fun rest => (.table, rest)
  | _, cs => scalar? bounds cs

end Offload.Toml
