import Offload.Wire.Dynamic
import Offload.Wire.Nest
import Offload.Wire.Record

/-!
# The value types of the wire

The types whose values can be the value of an outcome, each with its codec.
-/

namespace Offload.Wire

/-- A type of values that travel. -/
inductive ValueType
  | int (kind : IntKind)
  | bool
  | unit
  | char
  | double
  | text
  | octets
  | optionInt
  | optionText
  | pair
  | numbers
  | texts
  | table
  | record
  | shape
  | nest
  | dynamic
  deriving Repr, DecidableEq

namespace ValueType

/-- The values of a type. -/
def Value : ValueType → Type
  | int kind => kind.Value
  | bool => Bool
  | unit => Unit
  | char => Char
  | double => Double
  | text => String
  | octets => List UInt8
  | optionInt => Option IntKind.i64.Value
  | optionText => Option String
  | pair => IntKind.i64.Value × String
  | numbers => List IntKind.u64.Value
  | texts => List String
  | table => Table IntKind.i64.Value
  | record => Record
  | shape => Shape
  | nest => Nest
  | dynamic => Dynamic

/-- The codec of a type. -/
def codec : (t : ValueType) → Codec t.Value
  | int kind => Codec.int kind
  | bool => Codec.bool
  | unit => Codec.unit
  | char => Codec.char
  | double => Codec.double
  | text => Codec.text
  | octets => Codec.list Codec.octet
  | optionInt => Codec.option (Codec.int .i64)
  | optionText => Codec.option Codec.text
  | pair => Codec.pair (Codec.int .i64) Codec.text
  | numbers => Codec.list (Codec.int .u64)
  | texts => Codec.list Codec.text
  | table => Codec.table (Codec.int .i64)
  | record => Record.codec
  | shape => Shape.codec
  | nest => Nest.codec
  | dynamic => Dynamic.codec

/-- Equality of values. Doubles are compared by their bits. -/
instance : (t : ValueType) → BEq t.Value
  | int kind => inferInstanceAs (BEq kind.Value)
  | bool => inferInstanceAs (BEq Bool)
  | unit => inferInstanceAs (BEq Unit)
  | char => inferInstanceAs (BEq Char)
  | double => inferInstanceAs (BEq Double)
  | text => inferInstanceAs (BEq String)
  | octets => inferInstanceAs (BEq (List UInt8))
  | optionInt => inferInstanceAs (BEq (Option IntKind.i64.Value))
  | optionText => inferInstanceAs (BEq (Option String))
  | pair => inferInstanceAs (BEq (IntKind.i64.Value × String))
  | numbers => inferInstanceAs (BEq (List IntKind.u64.Value))
  | texts => inferInstanceAs (BEq (List String))
  | table => inferInstanceAs (BEq (Table IntKind.i64.Value))
  | record => inferInstanceAs (BEq Record)
  | shape => inferInstanceAs (BEq Shape)
  | nest => inferInstanceAs (BEq Nest)
  | dynamic => inferInstanceAs (BEq Dynamic)

end ValueType

end Offload.Wire
