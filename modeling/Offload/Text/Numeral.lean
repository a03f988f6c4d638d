/-!
# Decimal numerals with a range

A numeral is an optional sign and a non-empty run of ASCII digits. It is read from left to
right, and the first fault met decides: a character that is no digit, or a prefix that leaves the
range. A minus sign belongs to the numerals of signed ranges only.
-/

namespace Offload.Text

/-- Why a text is not a numeral of the range. -/
inductive NumeralFault
  | empty
  | invalidDigit
  | tooLarge
  | tooSmall
  deriving Repr, DecidableEq

/-- The wording of a fault. -/
def NumeralFault.message : NumeralFault → String
  | .empty => "cannot parse integer from empty string"
  | .invalidDigit => "invalid digit found in string"
  | .tooLarge => "number too large to fit in target type"
  | .tooSmall => "number too small to fit in target type"

/-- The value of an ASCII digit. -/
def digit? (c : Char) : Option Nat :=
  if c.isDigit then some (c.toNat - '0'.toNat) else none

/-- Digits read onto `acc`. The first fault decides, where a prefix whose value passes `bound`
is the fault `beyond`. -/
def magnitude (bound : Nat) (beyond : NumeralFault) (acc : Nat) :
    List Char → Except NumeralFault Nat
  | [] => .ok acc
  | c :: cs =>
    match digit? c with
    | none => .error .invalidDigit
    | some d =>
      if acc * 10 + d ≤ bound then magnitude bound beyond (acc * 10 + d) cs else .error beyond

/-- A numeral of the range `0 … max`. -/
def unsigned (max : Nat) : List Char → Except NumeralFault Nat
  | [] => .error .empty
  | ['+'] | ['-'] => .error .invalidDigit
  | '+' :: cs => magnitude max .tooLarge 0 cs
  | cs => magnitude max .tooLarge 0 cs

/-- A numeral of the range `-(max + 1) … max`. -/
def signed (max : Nat) : List Char → Except NumeralFault Int
  | [] => .error .empty
  | ['+'] | ['-'] => .error .invalidDigit
  | '+' :: cs => (magnitude max .tooLarge 0 cs).map (fun n => (n : Int))
  | '-' :: cs => (magnitude (max + 1) .tooSmall 0 cs).map (fun n => -(n : Int))
  | cs => (magnitude max .tooLarge 0 cs).map (fun n => (n : Int))

end Offload.Text
