import Offload.Wire.Codec

/-!
# Dynamic values

Values whose type is only known by looking at them. Their tables have texts for keys; a table of
the wire may list its entries in any order, and of equal keys the last one counts. A number that
is neither finite nor an integer has no dynamic value of its own, and is nothing.

Two of the values cannot make the journey: one refuses to be written, with a reason of its own, and
one is written as a map with a number for its key, which is not read back.
-/

namespace Offload.Wire

/-- The integers that a dynamic value can be: those of the 64-bit types, signed or not. -/
abbrev Dynamic.Integer : Type := { n : Int // -2 ^ 63 ≤ n ∧ n < 2 ^ 64 }

/-- A value with its type. -/
inductive Dynamic where
  | null
  | bool (b : Bool)
  | int (n : Dynamic.Integer)
  | float (d : Double)
  | text (s : String)
  | list (items : List Dynamic)
  | table (entries : List (String × Dynamic))
  /-- A value that refuses to be written. -/
  | refuses (reason : String)
  /-- A value that is written as the map from 1 to 2. -/
  | numberKeyed
  deriving Repr, BEq

namespace Dynamic

/-- An integer, if it is in the range. -/
def ofInt? (n : Int) : Option Dynamic :=
  if h : -2 ^ 63 ≤ n ∧ n < 2 ^ 64 then some (int ⟨n, h⟩) else none

/-- A double; one that is not finite is nothing. -/
def ofDouble (d : Double) : Dynamic :=
  if d.isFinite then float d else null

/-- A table of entries in any order. -/
def ofEntries (entries : List (String × Dynamic)) : Dynamic :=
  table (ascending entries)

mutual

/-- The reason of the first value inside that refuses to be written. -/
def refusal? : Dynamic → Option String
  | refuses reason => some reason
  | list items => refusalOfItems? items
  | table entries => refusalOfEntries? entries
  | _ => none

/-- The reason of the first item that refuses. -/
def refusalOfItems? : List Dynamic → Option String
  | [] => none
  | item :: rest => item.refusal?.orElse fun _ => refusalOfItems? rest

/-- The reason of the first entry that refuses. -/
def refusalOfEntries? : List (String × Dynamic) → Option String
  | [] => none
  | (_, value) :: rest => value.refusal?.orElse fun _ => refusalOfEntries? rest

end

mutual

/-- The wire form. A value that refuses has none, and writes nothing. -/
def write : Dynamic → Bytes
  | null => Token.writeNil
  | bool b => Token.writeBool b
  | int n => Token.writeInteger n.val
  | float d => Token.writeDouble d.bits
  | text s => Codec.text.write s
  | list items => Token.writeArray items.length ++ writeItems items
  | table entries => Token.writeMap entries.length ++ writeEntries entries
  | refuses _ => []
  | numberKeyed => Token.writeMap 1 ++ (Token.writeUnsigned 1 ++ Token.writeUnsigned 2)

/-- The wire forms one after the other. -/
def writeItems : List Dynamic → Bytes
  | [] => []
  | item :: rest => item.write ++ writeItems rest

/-- Keys and values one after the other. -/
def writeEntries : List (String × Dynamic) → Bytes
  | [] => []
  | (key, value) :: rest => Codec.text.write key ++ (value.write ++ writeEntries rest)

end

/-- The key of the first entry of a table. Only in later entries may it be a byte string. -/
def readFirstKey : Decoder String :=
  Decoder.scalar fun
    | .text bs => ofUtf8? bs
    | _ => none

/-- Any value but byte strings, extensions, and maps with keys that are no texts. What a value is
shows in its first token; whether a map is a table shows in its first key. -/
def read (levels : Nat) : Decoder Dynamic := fun token bs =>
  match token, levels with
  | .nil, _ => some (null, bs)
  | .bool b, _ => some (bool b, bs)
  | .unsigned n, _ => (ofInt? n).map fun value => (value, bs)
  | .signed n, _ => (ofInt? n).map fun value => (value, bs)
  | .single bits, _ => some (ofDouble (.ofSingle bits), bs)
  | .double bits, _ => some (ofDouble ⟨UInt64.ofNat bits⟩, bs)
  | .text s, _ => (ofUtf8? s).map fun s => (text s, bs)
  | .array n, inner + 1 =>
    (Decoder.items (read inner) n bs).map fun (items, rest) => (list items, rest)
  | .map n, inner + 1 =>
    let key := Codec.text.read inner
    (Decoder.entries readFirstKey key (fun _ => read inner) (inner + 1) (.map n) bs).map
      fun (entries, rest) => (ofEntries entries, rest)
  | _, _ => none

/-- The codec of dynamic values. -/
def codec : Codec Dynamic where
  refusal? := refusal?
  write := write
  read := read

end Dynamic

end Offload.Wire
