import Offload.Wire.Ascending
import Offload.Wire.Decoder
import Offload.Wire.Double

/-!
# Codecs

A codec is the wire form of a type: how its values are written, and how they are read. A value may
refuse to be written; `refusal?` says so, and why, before a byte is written. Reading is tolerant:
it takes every width of a number that holds a value of the type, and byte strings for texts.
-/

namespace Offload.Wire

/-- How the values of a type are written and read. -/
structure Codec (α : Type) where
  /-- The reason of a value that refuses to be written. -/
  refusal? : α → Option String := fun _ => none
  write : α → Bytes
  /-- The number of bytes that are written, told without writing them where that is possible. -/
  size : α → Nat := fun a => (write a).length
  size_eq : ∀ a, size a = (write a).length := by intro _; rfl
  /-- Reading, with the given number of levels open. -/
  read : Nat → Decoder α

/-! ### Integers -/

/-- The number of bits of an integer type. -/
inductive Width
  | w8
  | w16
  | w32
  | w64
  deriving Repr, DecidableEq

/-- The bits of a width. -/
def Width.bits : Width → Nat
  | .w8 => 8
  | .w16 => 16
  | .w32 => 32
  | .w64 => 64

/-- A fixed-width integer type. -/
structure IntKind where
  isSigned : Bool
  width : Width
  deriving Repr, DecidableEq

namespace IntKind

/-- The least integer of the type. -/
def least (k : IntKind) : Int :=
  if k.isSigned then -2 ^ (k.width.bits - 1) else 0

/-- The greatest integer of the type. -/
def greatest (k : IntKind) : Int :=
  if k.isSigned then 2 ^ (k.width.bits - 1) - 1 else 2 ^ k.width.bits - 1

/-- The integers of the type. -/
abbrev Value (k : IntKind) : Type := { n : Int // k.least ≤ n ∧ n ≤ k.greatest }

/-- An integer, if it is of the type. -/
def ofInt? (k : IntKind) (n : Int) : Option k.Value :=
  if h : k.least ≤ n ∧ n ≤ k.greatest then some ⟨n, h⟩ else none

/-- The unsigned type of 8 bits. -/
abbrev u8 : IntKind := ⟨false, .w8⟩

/-- The unsigned type of 16 bits. -/
abbrev u16 : IntKind := ⟨false, .w16⟩

/-- The unsigned type of 32 bits. -/
abbrev u32 : IntKind := ⟨false, .w32⟩

/-- The unsigned type of 64 bits. -/
abbrev u64 : IntKind := ⟨false, .w64⟩

/-- The signed type of 8 bits. -/
abbrev i8 : IntKind := ⟨true, .w8⟩

/-- The signed type of 16 bits. -/
abbrev i16 : IntKind := ⟨true, .w16⟩

/-- The signed type of 32 bits. -/
abbrev i32 : IntKind := ⟨true, .w32⟩

/-- The signed type of 64 bits. -/
abbrev i64 : IntKind := ⟨true, .w64⟩

theorem ofInt?_val (k : IntKind) (n : k.Value) : k.ofInt? n.val = some n := by
  simp [ofInt?, n.property]

end IntKind

namespace Codec

variable {α β : Type}

/-- The integer that a token is. -/
def integer? : Token → Option Int
  | .unsigned n => some n
  | .signed n => some n
  | _ => none

/-- Integers of a type. -/
def int (k : IntKind) : Codec k.Value where
  write n := Token.writeInteger n.val
  read _ := Decoder.scalar fun token => (integer? token).bind k.ofInt?

/-- Truth values. -/
def bool : Codec Bool where
  write := Token.writeBool
  read _ := Decoder.scalar fun
    | .bool b => some b
    | _ => none

/-- The type of one value is written as nothing. -/
def unit : Codec Unit where
  write _ := Token.writeNil
  read _ := Decoder.absent ()

/-- Doubles. Integers and numbers of single precision are read as doubles. -/
def double : Codec Double where
  write d := Token.writeDouble d.bits
  read _ := Decoder.scalar fun
    | .unsigned n => some (.ofInt n)
    | .signed n => some (.ofInt n)
    | .single bits => some (.ofSingle bits)
    | .double bits => some ⟨UInt64.ofNat bits⟩
    | _ => none

/-- The text that a token is: a text or a byte string that holds UTF-8. -/
def text? : Token → Option String
  | .text bs => ofUtf8? bs
  | .binary bs => ofUtf8? bs
  | _ => none

/-- The size of a text is known from its length in UTF-8. -/
def textSize (length : Nat) : Nat :=
  if length < 32 then 1 + length
  else if length < 2 ^ 8 then 2 + length
  else if length < 2 ^ 16 then 3 + length
  else 5 + length

theorem length_writeText (bs : Bytes) : (Token.writeText bs).length = textSize bs.length := by
  simp only [Token.writeText, textSize]
  split
  · simp
  · split
    · simp; omega
    · split
      · simp; omega
      · simp; omega

/-- Texts. -/
def text : Codec String where
  write s := Token.writeText (utf8 s)
  size s := textSize s.utf8ByteSize
  size_eq s := by rw [length_writeText, length_utf8]
  read _ := Decoder.scalar text?

/-- Characters are texts of one character. A byte string is no character. -/
def char : Codec Char where
  write c := Token.writeText (utf8 (String.singleton c))
  read _ := Decoder.scalar fun
    | .text bs => (ofUtf8? bs).bind fun s =>
      match s.toList with
      | [c] => some c
      | _ => none
    | _ => none

/-- Bytes are numbers of 8 bits. -/
def octet : Codec UInt8 where
  write b := Token.writeUnsigned b.toNat
  read _ := Decoder.scalar fun token =>
    (integer? token).bind fun n =>
      if 0 ≤ n ∧ n < 2 ^ 8 then some (UInt8.ofNat n.toNat) else none

/-! ### Compounds -/

/-- An optional value is nothing or the value. -/
def option (c : Codec α) : Codec (Option α) where
  refusal? v := v.bind c.refusal?
  write
    | none => Token.writeNil
    | some v => c.write v
  read levels := Decoder.option (c.read levels)

/-- A list is an array. -/
def list (c : Codec α) : Codec (List α) where
  refusal? vs := vs.findSome? c.refusal?
  write vs := Token.writeArray vs.length ++ vs.flatMap c.write
  size vs := vs.foldr (fun a n => c.size a + n) 0 + (Token.writeArray vs.length).length
  size_eq vs := by
    have h : vs.foldr (fun a n => c.size a + n) 0 = (vs.flatMap c.write).length := by
      induction vs with
      | nil => rfl
      | cons a vs ih => rw [List.foldr_cons, ih, c.size_eq, List.flatMap_cons, List.length_append]
    rw [h, List.length_append, Nat.add_comm]
  read := Decoder.list c.read

/-- A pair is written as an array of two. -/
def pair (c : Codec α) (d : Codec β) : Codec (α × β) where
  refusal? v := (c.refusal? v.1).orElse fun _ => d.refusal? v.2
  write v := Token.writeArray 2 ++ (c.write v.1 ++ d.write v.2)
  read := Decoder.pair c.read d.read

/-- A table is a map with its keys in ascending order. -/
def table (c : Codec β) : Codec (Table β) where
  refusal? t := t.entries.findSome? fun entry => c.refusal? entry.2
  write t :=
    Token.writeMap t.entries.length ++
      t.entries.flatMap fun entry => text.write entry.1 ++ c.write entry.2
  read levels :=
    Decoder.filterMap (fun entries => some (Table.ofList entries))
      (Decoder.entries (text.read levels) (text.read levels) c.read levels)

/-- The name of a variant that has no payload. -/
def writeName (name : String) : Bytes :=
  text.write name

/-- A variant with a payload is a map of one entry. -/
def writeVariant (name : String) (payload : Bytes) : Bytes :=
  Token.writeMap 1 ++ (writeName name ++ payload)

end Codec

end Offload.Wire
