import Offload.Text.Numeral
import Offload.Wire.Dynamic
import Offload.Worker.Conclusion

/-!
# What wrapped functions do

A behaviour says what a wrapped function does when it is called: what it waits for, what it leaves
behind, and what it does then. Most of it shows in a worker process only.
-/

namespace Offload

/-- Where a function runs. -/
inductive Place
  | process
  | thread (name : String)
  deriving Repr, DecidableEq

/-- What a function can tell of the place that it runs in. The thread of a worker process has no
name. -/
def Place.describe : Place → Wire.Dynamic
  | .process => .ofEntries [("in_worker", .bool true), ("thread", .null)]
  | .thread name => .ofEntries [("in_worker", .bool false), ("thread", .text name)]

/-- How long a thread that a function leaves behind keeps running. -/
inductive Linger
  | millis (n : Nat)
  | forever
  deriving Repr, DecidableEq

/-- What a function does in the end. -/
inductive Act where
  | hangs
  /-- It ends its process with a code. -/
  | exits (code : Nat)
  /-- It ends its process with a signal. -/
  | diesOf (signal : Nat)
  /-- It returns a description of the place that it runs in. -/
  | describes
  | concludes (conclusion : Conclusion Wire.Dynamic)

namespace Act

/-- The integer of 64 bits that a numeral stands for, or the error that there is none. -/
def parses (numeral : String) : Act :=
  concludes <| match Text.signed (2 ^ 63 - 1) numeral.toList with
    | .ok n => .returns ((Wire.Dynamic.ofInt? n).getD .null)
    | .error fault => .errs "core::num::error::ParseIntError" (.ok fault.message)

/-- The error of a text of the given type. -/
def fails (typeName message : String) : Act :=
  concludes (.errs typeName (.ok message))

/-- How a call ends, if it ends by itself and leaves its worker in place. -/
def conclusion? (place : Place) : Act → Option (Conclusion Wire.Dynamic)
  | describes => some (.returns place.describe)
  | concludes conclusion => some conclusion
  | _ => none

end Act

/-- What a function does when it is called. -/
structure Behaviour where
  /-- The gate that it waits for first. -/
  gate : Option String := none
  /-- Whether a worker process ignores requests to stop from then on. -/
  ignoresStop : Bool := false
  /-- The thread that it leaves behind. -/
  linger : Option Linger := none
  act : Act

/-- The arguments of a call, which tell the function what to do. -/
structure Arguments where
  gate : Option String := none
  ignoresStop : Bool := false
  linger : Option Linger := none
  hangs : Bool := false
  exits : Option Nat := none
  diesOf : Option Nat := none
  error : Option String := none
  panic : Option Payload := none
  describes : Bool := false
  result : Wire.Dynamic := .null
  numeral : String := ""

/-- The functions that can be wrapped. -/
inductive Function
  /-- Does what the arguments say; the first of several things counts. -/
  | obeys
  /-- Reads a numeral. -/
  | parses
  /-- Returns an error that is a plain text. -/
  | fails
  deriving Repr, DecidableEq

/-- What a function that obeys its arguments does in the end. -/
def Arguments.act (a : Arguments) : Act :=
  if a.hangs then .hangs
  else match a.exits, a.diesOf, a.error, a.panic with
    | some code, _, _, _ => .exits code
    | _, some signal, _, _ => .diesOf signal
    | _, _, some message, _ => .fails "alloc::string::String" message
    | _, _, _, some payload => .concludes (.panics payload)
    | _, _, _, _ => if a.describes then .describes else .concludes (.returns a.result)

/-- What a function does with its arguments. -/
def Function.behaviour (f : Function) (a : Arguments) : Behaviour :=
  match f with
  | .obeys => { gate := a.gate, ignoresStop := a.ignoresStop, linger := a.linger, act := a.act }
  | .parses => { act := .parses a.numeral }
  | .fails => { act := .fails "&str" (a.error.getD "") }

end Offload
