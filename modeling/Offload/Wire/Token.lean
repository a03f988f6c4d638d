import Offload.Wire.Bytes

/-!
# MessagePack tokens

A token is a scalar, or the header of an array or a map whose items follow as tokens of their own.
Reading accepts every width that MessagePack has for a token; writing uses the shortest one.

A number keeps the family it was written in: `unsigned` from the unsigned formats, `signed` from
the signed ones, whatever its value. Texts are kept as bytes, for the format does not promise that
they are UTF-8.
-/

namespace Offload.Wire

/-- A scalar, or the header of an array or a map. -/
inductive Token
  | nil
  | bool (b : Bool)
  | unsigned (n : Nat)
  | signed (n : Int)
  | single (bits : Nat)
  | double (bits : Nat)
  | text (bs : Bytes)
  | binary (bs : Bytes)
  | array (length : Nat)
  | map (length : Nat)
  | extension (kind : UInt8) (bs : Bytes)
  deriving Repr, DecidableEq

namespace Token

/-! ### Reading -/

/-- A token made of a number of `width` bytes. -/
def ofNumber? (width : Nat) (token : Nat → Token) (bs : Bytes) : Option (Token × Bytes) :=
  (number? width bs).map fun (n, rest) => (token n, rest)

/-- A token made of the next `length` bytes. -/
def ofPayload? (token : Bytes → Token) (length : Nat) (bs : Bytes) : Option (Token × Bytes) :=
  (take? length bs).map fun (payload, rest) => (token payload, rest)

/-- A token made of as many bytes as a number of `width` bytes says. -/
def ofCounted? (width : Nat) (token : Bytes → Token) (bs : Bytes) : Option (Token × Bytes) :=
  (number? width bs).bind fun (length, rest) => ofPayload? token length rest

/-- An extension of `length` bytes: its kind comes first. -/
def ofExtension? (length : Nat) (bs : Bytes) : Option (Token × Bytes) :=
  match bs with
  | [] => none
  | kind :: rest => ofPayload? (extension kind) length rest

/-- The token whose first byte is `b`, read from the bytes after it. The byte `c1` begins none. -/
def readAfter? (b : Nat) (bs : Bytes) : Option (Token × Bytes) :=
  if b < 0x80 then some (unsigned b, bs)
  else if b < 0x90 then some (map (b - 0x80), bs)
  else if b < 0xA0 then some (array (b - 0x90), bs)
  else if b < 0xC0 then ofPayload? text (b - 0xA0) bs
  else match b with
    | 0xC0 => some (nil, bs)
    | 0xC2 => some (bool false, bs)
    | 0xC3 => some (bool true, bs)
    | 0xC4 => ofCounted? 1 binary bs
    | 0xC5 => ofCounted? 2 binary bs
    | 0xC6 => ofCounted? 4 binary bs
    | 0xC7 => (number? 1 bs).bind fun (length, rest) => ofExtension? length rest
    | 0xC8 => (number? 2 bs).bind fun (length, rest) => ofExtension? length rest
    | 0xC9 => (number? 4 bs).bind fun (length, rest) => ofExtension? length rest
    | 0xCA => ofNumber? 4 single bs
    | 0xCB => ofNumber? 8 double bs
    | 0xCC => ofNumber? 1 unsigned bs
    | 0xCD => ofNumber? 2 unsigned bs
    | 0xCE => ofNumber? 4 unsigned bs
    | 0xCF => ofNumber? 8 unsigned bs
    | 0xD0 => ofNumber? 1 (fun n => signed (twosComplement 8 n)) bs
    | 0xD1 => ofNumber? 2 (fun n => signed (twosComplement 16 n)) bs
    | 0xD2 => ofNumber? 4 (fun n => signed (twosComplement 32 n)) bs
    | 0xD3 => ofNumber? 8 (fun n => signed (twosComplement 64 n)) bs
    | 0xD4 => ofExtension? 1 bs
    | 0xD5 => ofExtension? 2 bs
    | 0xD6 => ofExtension? 4 bs
    | 0xD7 => ofExtension? 8 bs
    | 0xD8 => ofExtension? 16 bs
    | 0xD9 => ofCounted? 1 text bs
    | 0xDA => ofCounted? 2 text bs
    | 0xDB => ofCounted? 4 text bs
    | 0xDC => ofNumber? 2 array bs
    | 0xDD => ofNumber? 4 array bs
    | 0xDE => ofNumber? 2 map bs
    | 0xDF => ofNumber? 4 map bs
    | _ => if 0xE0 ≤ b then some (signed ((b : Int) - 0x100), bs) else none

/-- The first token of the bytes and what follows it. -/
def read? : Bytes → Option (Token × Bytes)
  | [] => none
  | b :: rest => readAfter? b.toNat rest

/-! ### Writing -/

/-- A non-negative integer in its shortest form. -/
def writeUnsigned (n : Nat) : Bytes :=
  if n < 0x80 then bigEndian 1 n
  else if n < 2 ^ 8 then 0xCC :: bigEndian 1 n
  else if n < 2 ^ 16 then 0xCD :: bigEndian 2 n
  else if n < 2 ^ 32 then 0xCE :: bigEndian 4 n
  else 0xCF :: bigEndian 8 n

/-- The two's complement of a negative integer with `bits` bits. -/
def complement (bits : Nat) (n : Int) : Nat :=
  (n + 2 ^ bits).toNat

/-- An integer in its shortest form; a non-negative one is written as unsigned. -/
def writeInteger (n : Int) : Bytes :=
  if 0 ≤ n then writeUnsigned n.toNat
  else if -32 ≤ n then bigEndian 1 (complement 8 n)
  else if -(2 ^ 7) ≤ n then 0xD0 :: bigEndian 1 (complement 8 n)
  else if -(2 ^ 15) ≤ n then 0xD1 :: bigEndian 2 (complement 16 n)
  else if -(2 ^ 31) ≤ n then 0xD2 :: bigEndian 4 (complement 32 n)
  else 0xD3 :: bigEndian 8 (complement 64 n)

/-- A text of the given bytes. -/
def writeText (bs : Bytes) : Bytes :=
  let length := bs.length
  if length < 32 then bigEndian 1 (0xA0 + length) ++ bs
  else if length < 2 ^ 8 then 0xD9 :: (bigEndian 1 length ++ bs)
  else if length < 2 ^ 16 then 0xDA :: (bigEndian 2 length ++ bs)
  else 0xDB :: (bigEndian 4 length ++ bs)

/-- The header of an array. -/
def writeArray (length : Nat) : Bytes :=
  if length < 16 then bigEndian 1 (0x90 + length)
  else if length < 2 ^ 16 then 0xDC :: bigEndian 2 length
  else 0xDD :: bigEndian 4 length

/-- The header of a map. -/
def writeMap (length : Nat) : Bytes :=
  if length < 16 then bigEndian 1 (0x80 + length)
  else if length < 2 ^ 16 then 0xDE :: bigEndian 2 length
  else 0xDF :: bigEndian 4 length

/-- Nothing. -/
def writeNil : Bytes :=
  [0xC0]

/-- A truth value. -/
def writeBool (b : Bool) : Bytes :=
  [if b then 0xC3 else 0xC2]

/-- A floating-point number of 64 bits. -/
def writeDouble (bits : UInt64) : Bytes :=
  0xCB :: bigEndian 8 bits.toNat

end Token

end Offload.Wire
