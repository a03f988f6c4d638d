import Offload.Power

/-!
# Double-precision numbers by their bits

A double is its 64 bits: two doubles are equal if their bits are, so a NaN equals itself and the
two zeros differ. Integers are rounded to the nearest double, a tie to the even one. Numbers of
single precision are doubles too, and a NaN of theirs becomes a quiet one that keeps its sign and
payload.
-/

namespace Offload.Wire

/-- A floating-point number of double precision. -/
structure Double where
  bits : UInt64
  deriving Repr, DecidableEq

namespace Double

/-- The bits of a sign, a biased exponent and a fraction. A fraction of `2 ^ 52` carries into the
exponent. -/
def assemble (negative : Bool) (exponent fraction : Nat) : Double :=
  ⟨UInt64.ofNat (negative.toNat * 2 ^ 63 + exponent * 2 ^ 52 + fraction)⟩

/-- Divide by a power of two, to the nearest integer, a tie to the even one. -/
def shiftToEven (n shift : Nat) : Nat :=
  let quotient := n / 2 ^ shift
  let remainder := n % 2 ^ shift
  if 2 * remainder > 2 ^ shift ∨ (2 * remainder = 2 ^ shift ∧ quotient % 2 = 1) then quotient + 1
  else quotient

/-- The double nearest to an integer, a tie to the even one. -/
def ofInt (n : Int) : Double :=
  let magnitude := n.natAbs
  if magnitude = 0 then assemble false 0 0
  else
    let exponent := magnitude.log2
    let significand :=
      if exponent ≤ 52 then magnitude * 2 ^ (52 - exponent)
      else shiftToEven magnitude (exponent - 52)
    assemble (n < 0) (exponent + 1023) (significand - 2 ^ 52)

/-- The double that a number of single precision is, from the bits of the latter. -/
def ofSingle (bits : Nat) : Double :=
  let negative := bits / 2 ^ 31 % 2 == 1
  let exponent := bits / 2 ^ 23 % 2 ^ 8
  let fraction := bits % 2 ^ 23
  if exponent = 255 then
    if fraction = 0 then assemble negative 2047 0
    else assemble negative 2047 (2 ^ 51 ||| fraction * 2 ^ 29)
  else if exponent = 0 then
    if fraction = 0 then assemble negative 0 0
    else
      let top := fraction.log2
      assemble negative (top + 1023 - 149) (fraction * 2 ^ (52 - top) - 2 ^ 52)
  else assemble negative (exponent + 1023 - 127) (fraction * 2 ^ 29)

/-- Whether the number is neither infinite nor a NaN. -/
def isFinite (d : Double) : Bool :=
  d.bits.toNat / 2 ^ 52 % 2 ^ 11 != 2047

end Double

end Offload.Wire
