import Offload.Power
import Offload.Toml.Scan

/-!
# Numbers of a TOML document

Integers are written in base ten with a sign, or in base sixteen, eight or two without one. A number
with a fraction or an exponent is a float. Of floats only the form matters here, and whether a
positive one rounds to infinity. The language leaves open how great a number may be, and so do the
scanners of this module.
-/

namespace Offload.Toml

/-- An optional sign: whether it is a minus. -/
def sign : List Char → Bool × List Char
  | '+' :: cs => (false, cs)
  | '-' :: cs => (true, cs)
  | cs => (false, cs)

/-- Decimal digits without a leading zero. -/
def plainDigits? : Scan (List Nat)
  | '0' :: cs => some ([0], cs)
  | cs => digits? 10 cs

/-- An integer with its sign. -/
def signed (negative : Bool) (n : Nat) : Int :=
  if negative then -(n : Int) else n

/-- An integer in another base than ten. -/
def basedInteger? (base : Nat) (cs : List Char) : Option (Int × List Char) :=
  (digits? base cs).map fun (ds, rest) => ((ofDigits base ds : Int), rest)

/-- An integer in base ten. -/
def decimalInteger? (cs : List Char) : Option (Int × List Char) :=
  (plainDigits? (sign cs).2).map fun (ds, rest) => (signed (sign cs).1 (ofDigits 10 ds), rest)

/-- An integer. -/
def integer? : Scan Int
  | '0' :: 'x' :: cs => basedInteger? 16 cs
  | '0' :: 'o' :: cs => basedInteger? 8 cs
  | '0' :: 'b' :: cs => basedInteger? 2 cs
  | cs => decimalInteger? cs

/-! ### Floats -/

/-- The part of a float behind the decimal point. -/
def fraction? : Scan (List Nat)
  | '.' :: cs => digits? 10 cs
  | _ => none

/-- The exponent of a float. -/
def exponent? : Scan Int
  | c :: cs =>
    if c = 'e' ∨ c = 'E' then
      (digits? 10 (sign cs).2).map fun (ds, rest) =>
        (signed (sign cs).1 (ofDigits 10 ds), rest)
    else none
  | [] => none

/-- Whether `m * 10 ^ e` rounds to infinity, that is, whether it reaches the middle between the
greatest double and the next power of two. A number whose size in digits tells is not computed. -/
def overflows (m : Nat) (e : Int) : Bool :=
  if m = 0 then false
  else
    let size := (Nat.toDigits 10 m).length + e
    if size < 309 then false
    else if 309 < size then true
    else
      let bound := 2 ^ 1024 - 2 ^ 970
      if 0 ≤ e then bound ≤ m * 10 ^ e.toNat else bound * 10 ^ (-e).toNat ≤ m

/-- A float in digits, and whether it is positive and rounds to infinity. -/
def decimalFloat? (cs : List Char) : Option (Bool × List Char) := do
  let negative := (sign cs).1
  let (whole, rest) ← plainDigits? (sign cs).2
  let found (ds : List Nat) (e : Int) (rest : List Char) : Bool × List Char :=
    (!negative && overflows (ofDigits 10 (whole ++ ds)) (e - ds.length), rest)
  match fraction? rest with
  | some (ds, rest) =>
    match exponent? rest with
    | some (e, rest) => return found ds e rest
    | none => return found ds 0 rest
  | none =>
    let (e, rest) ← exponent? rest
    return found [] e rest

/-- A float that is not finite, by its name. -/
def namedFloat? (cs : List Char) : Option (List Char) :=
  match (sign cs).2 with
  | 'i' :: 'n' :: 'f' :: rest => some rest
  | 'n' :: 'a' :: 'n' :: rest => some rest
  | _ => none

/-- A float, and whether it rounds to infinity. -/
def float? (cs : List Char) : Option (Bool × List Char) :=
  (decimalFloat? cs).orElse fun _ => (namedFloat? cs).map fun rest => (false, rest)

end Offload.Toml
