import Offload.Wire.Codec

/-!
# Records and shapes

Two types with named parts. A record is a structure with an optional parent that is a record
itself. A shape is an enumeration whose variants have no payload, one value, two values, or named
values.
-/

namespace Offload.Wire

/-! ### Records -/

/-- A numbered, named and tagged record, with or without a parent. -/
inductive Record
  | root (id : IntKind.u64.Value) (name : String) (tags : List String)
  | child (id : IntKind.u64.Value) (name : String) (tags : List String) (parent : Record)
  deriving Repr, DecidableEq

namespace Record

/-- A record from its parts. -/
def make (id : IntKind.u64.Value) (name : String) (tags : List String) : Option Record → Record
  | none => root id name tags
  | some parent => child id name tags parent

/-- The names of the fields, in order. -/
def fieldNames : List String :=
  ["id", "name", "tags", "parent"]

/-- The fields before the parent. -/
def writeOwn (id : IntKind.u64.Value) (name : String) (tags : List String) : Bytes :=
  Token.writeArray 4 ++ ((Codec.int .u64).write id ++
    (Codec.text.write name ++ (Codec.list Codec.text).write tags))

/-- The array of the fields. -/
def write : Record → Bytes
  | root id name tags => writeOwn id name tags ++ Token.writeNil
  | child id name tags parent => writeOwn id name tags ++ parent.write

/-- The fields met so far. -/
structure Draft where
  id : Option IntKind.u64.Value := none
  name : Option String := none
  tags : Option (List String) := none
  parent : Option (Option Record) := none

/-- The record of a draft. A missing parent is none. -/
def Draft.toRecord? (draft : Draft) : Option Record := do
  let id ← draft.id
  let name ← draft.name
  let tags ← draft.tags
  return make id name tags (draft.parent.getD none)

/-- The array of the fields, or the map of them. -/
def read : Nat → Decoder Record
  | levels + 1, .array n, bs => do
    guard (n = 4)
    let (id, bs) ← ((Codec.int .u64).read levels).item bs
    let (name, bs) ← (Codec.text.read levels).item bs
    let (tags, bs) ← ((Codec.list Codec.text).read levels).item bs
    let (parent, bs) ← (Decoder.option (read levels)).item bs
    return (make id name tags parent, bs)
  | levels + 1, .map n, bs => do
    let store (i : Nat) (draft : Draft) (bs : Bytes) : Option (Draft × Bytes) :=
      match i with
      | 0 => Decoder.once draft.id ((Codec.int .u64).read levels)
          (fun v => { draft with id := some v }) bs
      | 1 => Decoder.once draft.name (Codec.text.read levels)
          (fun v => { draft with name := some v }) bs
      | 2 => Decoder.once draft.tags ((Codec.list Codec.text).read levels)
          (fun v => { draft with tags := some v }) bs
      | _ => Decoder.once draft.parent (Decoder.option (read levels))
          (fun v => { draft with parent := some v }) bs
    let (draft, bs) ← Decoder.fields fieldNames store levels n {} bs
    let record ← draft.toRecord?
    return (record, bs)
  | _, _, _ => none

/-- The codec of records. -/
def codec : Codec Record where
  write := write
  read := read

end Record

/-! ### Shapes -/

/-- A shape. -/
inductive Shape
  | empty
  | circle (radius : IntKind.u32.Value)
  | rect (width height : IntKind.i32.Value)
  | label (text : String) (size : IntKind.u8.Value)
  deriving Repr, DecidableEq

namespace Shape

/-- The names of the variants, in order. -/
def variantNames : List String :=
  ["Empty", "Circle", "Rect", "Label"]

/-- The names of a label's fields, in order. -/
def labelFieldNames : List String :=
  ["text", "size"]

/-- The name of the variant, with the payload if it has one. -/
def write : Shape → Bytes
  | empty => Codec.writeName "Empty"
  | circle radius => Codec.writeVariant "Circle" ((Codec.int .u32).write radius)
  | rect width height =>
    Codec.writeVariant "Rect" ((Codec.pair (Codec.int .i32) (Codec.int .i32)).write (width, height))
  | label text size =>
    Codec.writeVariant "Label" ((Codec.pair Codec.text (Codec.int .u8)).write (text, size))

/-- The fields of a label: the array of them, or the map. -/
def readLabel (levels : Nat) : Decoder Shape
  | .map n, bs =>
    match levels with
    | 0 => none
    | inner + 1 =>
      let store (i : Nat) (draft : Option String × Option IntKind.u8.Value) (bs : Bytes) :=
        match i with
        | 0 => Decoder.once draft.1 (Codec.text.read inner) (fun v => (some v, draft.2)) bs
        | _ => Decoder.once draft.2 ((Codec.int .u8).read inner) (fun v => (draft.1, some v)) bs
      (Decoder.fields labelFieldNames store inner n (none, none) bs).bind fun (draft, rest) =>
        match draft with
        | (some text, some size) => some (label text size, rest)
        | _ => none
  | token, bs =>
    ((Codec.pair Codec.text (Codec.int .u8)).read levels token bs).map fun (fields, rest) =>
      (label fields.1 fields.2, rest)

/-- The payload of the variant at a position. -/
def readPayload (levels : Nat) : (position : Nat) → Decoder Shape
  | 0 => Decoder.absent empty
  | 1 => Decoder.filterMap (some ∘ circle) ((Codec.int .u32).read levels)
  | 2 => Decoder.filterMap (fun sides => some (rect sides.1 sides.2))
      ((Codec.pair (Codec.int .i32) (Codec.int .i32)).read levels)
  | _ => readLabel levels

/-- A variant by its name or position. Only the variant without payload may stand alone. -/
def read (levels : Nat) : Decoder Shape :=
  Decoder.variant variantNames (fun i => if i = 0 then some empty else none) (readPayload levels)

/-- The codec of shapes. -/
def codec : Codec Shape where
  write := write
  read := read

end Shape

end Offload.Wire
