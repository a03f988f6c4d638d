/-!
# The entries of a TOML document

A document is a table: keys with values, with tables, or with lists of tables, in the order in which
they were defined. A table is defined by a header, comes about because a header names something
inside it, or comes about because a dotted key does. The last two may be added to; a table that a
header defined is closed to dotted keys.

Defining a key twice is refused, and so is adding to what is no table.
-/

namespace Offload.Toml

/-- A value. Of the kinds that nothing asks about only the kind is kept, and of a float whether it
is positive and rounds to infinity. -/
inductive Value
  | integer (n : Int)
  | boolean (b : Bool)
  | text (s : String)
  | float (overflows : Bool)
  | dateTime
  | array
  | table
  deriving Repr, DecidableEq

/-- The greatest integer that a reader takes. -/
def greatest : Nat :=
  2 ^ 63 - 1

/-- Integers of 64 bits with a sign, and floats that do not round to infinity. -/
def Value.fits : Value → Bool
  | .integer n => -(greatest + 1 : Int) ≤ n && n ≤ greatest
  | .float overflows => !overflows
  | _ => true

/-- How a table came about. -/
inductive Definition
  /-- By a header of its own. -/
  | explicit
  /-- By a header that names something inside it. -/
  | implied
  /-- By a dotted key. -/
  | dotted
  deriving Repr, DecidableEq

/-- What stands under a key. -/
inductive Node where
  | value (value : Value)
  | table (definition : Definition) (entries : List (String × Node))
  /-- Tables that are defined one after the other by headers in double brackets. -/
  | tables (tables : List (List (String × Node)))

/-- Keys with what stands under them, in the order of their definition. -/
abbrev Entries := List (String × Node)

namespace Entries

/-- What stands under a key. -/
def find? (key : String) (es : Entries) : Option Node :=
  es.lookup key

/-- Put something else under a key that is there. -/
def replace (key : String) (node : Node) (es : Entries) : Entries :=
  es.map fun (k, n) => if k = key then (k, node) else (k, n)

/-- The entries without a key. -/
def remove (key : String) (es : Entries) : Entries :=
  es.filter fun (k, _) => k ≠ key

/-- Change the table at the end of a path. The change is told how the table came about. Tables that
are missing on the way come about as `definition` says; where a list of tables is met, the path goes
on in the last of them. A path of dotted keys enters no table that a header defined. -/
def update (definition : Definition) (change : Definition → Entries → Option Entries) :
    (path : List String) → (own : Definition) → Entries → Option Entries
  | [], own, es => change own es
  | key :: path, _, es =>
    match es.find? key with
    | none => do
      let inner ← update definition change path definition []
      return es ++ [(key, .table definition inner)]
    | some (.value _) => none
    | some (.table own inner) =>
      if definition = .dotted ∧ own = .explicit then none
      else do
        let inner ← update definition change path own inner
        return es.replace key (.table own inner)
    | some (.tables ts) => do
      let last ← ts.getLast?
      let last ← update definition change path .explicit last
      return es.replace key (.tables (ts.dropLast ++ [last]))

/-- Put a value under a key that is not there. -/
def define (key : String) (value : Value) (es : Entries) : Option Entries :=
  match es.find? key with
  | some _ => none
  | none => some (es ++ [(key, .value value)])

/-- Put a value under a dotted key. The table that it goes into must have come about by dotted keys,
unless it is the table that the key starts from. -/
def defineAt (path : List String) (key : String) (value : Value) (es : Entries) :
    Option Entries :=
  update .dotted
    (fun own es => if own = .dotted ∨ path = [] then es.define key value else none)
    path .explicit es

end Entries

end Offload.Toml
