import Offload.Outcome
import Offload.Wire.Codec

/-!
# The wire form of an outcome

An outcome is a map of one entry, whose key names the variant. A failure is an array of four: the
kind by its name, the name of the type, the message, and the sources. Reading also takes a failure
without sources for one with none, a map of the fields in any order, and kinds and fields by
their positions.
-/

namespace Offload.Wire

namespace FailureKind

/-- The names of the kinds, in order. -/
def names : List String :=
  ["Error", "Panic"]

/-- The kind at a position. -/
def ofPosition? : Nat → Option FailureKind
  | 0 => some .error
  | 1 => some .panic
  | _ => none

/-- The name of a kind. -/
def name : FailureKind → String
  | .error => "Error"
  | .panic => "Panic"

/-- Kinds by their names. -/
def codec : Codec FailureKind where
  write kind := Codec.writeName (name kind)
  read _ := Decoder.variant names ofPosition? fun position =>
    match ofPosition? position with
    | some kind => Decoder.absent kind
    | none => fun _ _ => none

end FailureKind

namespace Failure

/-- The names of the fields, in order. -/
def fieldNames : List String :=
  ["kind", "type_name", "message", "sources"]

/-- The codec of sources. -/
def sources : Codec (List String) :=
  Codec.list Codec.text

/-- The array of the fields. -/
def write (f : Failure) : Bytes :=
  Token.writeArray 4 ++ (FailureKind.codec.write f.kind ++
    (Codec.text.write f.typeName ++ (Codec.text.write f.message ++ sources.write f.sources)))

/-- The fields met so far. -/
structure Draft where
  kind : Option FailureKind := none
  typeName : Option String := none
  message : Option String := none
  sources : Option (List String) := none

/-- The failure of a draft. Missing sources are none. -/
def Draft.toFailure? (draft : Draft) : Option Failure := do
  let kind ← draft.kind
  let typeName ← draft.typeName
  let message ← draft.message
  return ⟨kind, typeName, message, draft.sources.getD []⟩

/-- Reads the field at a position into a draft. -/
def store (levels : Nat) (i : Nat) (draft : Draft) (bs : Bytes) : Option (Draft × Bytes) :=
  match i with
  | 0 => Decoder.once draft.kind (FailureKind.codec.read levels)
      (fun v => { draft with kind := some v }) bs
  | 1 => Decoder.once draft.typeName (Codec.text.read levels)
      (fun v => { draft with typeName := some v }) bs
  | 2 => Decoder.once draft.message (Codec.text.read levels)
      (fun v => { draft with message := some v }) bs
  | _ => Decoder.once draft.sources (sources.read levels)
      (fun v => { draft with sources := some v }) bs

/-- The array of the fields, where the sources may lack, or the map of them. -/
def read : Nat → Decoder Failure
  | levels + 1, .array n, bs => do
    guard (n = 3 ∨ n = 4)
    let (kind, bs) ← (FailureKind.codec.read levels).item bs
    let (typeName, bs) ← (Codec.text.read levels).item bs
    let (message, bs) ← (Codec.text.read levels).item bs
    if n = 3 then
      return (⟨kind, typeName, message, []⟩, bs)
    let (sources, bs) ← (sources.read levels).item bs
    return (⟨kind, typeName, message, sources⟩, bs)
  | levels + 1, .map n, bs => do
    let (draft, bs) ← Decoder.fields fieldNames (store levels) levels n {} bs
    let failure ← draft.toFailure?
    return (failure, bs)
  | _, _, _ => none

/-- The size of a failure is known from the lengths of its texts. -/
def size (f : Failure) : Nat :=
  (Token.writeArray 4).length + ((FailureKind.codec.write f.kind).length +
    (Codec.text.size f.typeName + (Codec.text.size f.message + sources.size f.sources)))

theorem size_eq (f : Failure) : size f = (write f).length := by
  simp only [size, write, List.length_append, Codec.size_eq]

/-- The codec of failures. -/
def codec : Codec Failure where
  write := write
  size := size
  size_eq := size_eq
  read := read

end Failure

namespace Outcome

variable {α : Type}

/-- The names of the variants, in order. -/
def variantNames : List String :=
  ["Success", "Failure"]

/-- The variant with its payload. -/
def write (c : Codec α) : Outcome α → Bytes
  | .success value => Codec.writeVariant "Success" (c.write value)
  | .failure failure => Codec.writeVariant "Failure" (Failure.codec.write failure)

/-- The size of an outcome is known from the size of what it holds. -/
def size (c : Codec α) : Outcome α → Nat
  | .success value => (Codec.writeVariant "Success" []).length + c.size value
  | .failure failure => (Codec.writeVariant "Failure" []).length + Failure.codec.size failure

theorem size_eq (c : Codec α) (o : Outcome α) : size c o = (write c o).length := by
  cases o <;> simp [size, write, Codec.writeVariant, Codec.size_eq, Nat.add_assoc]

/-- The payload of the variant at a position. -/
def readPayload (c : Codec α) (levels : Nat) : (position : Nat) → Decoder (Outcome α)
  | 0 => Decoder.filterMap (some ∘ .success) (c.read levels)
  | _ => Decoder.filterMap (some ∘ .failure) (Failure.codec.read levels)

/-- The codec of outcomes. No variant may stand without its payload. -/
def codec (c : Codec α) : Codec (Outcome α) where
  refusal? outcome := outcome.value?.bind c.refusal?
  write := write c
  size := size c
  size_eq := size_eq c
  read levels := Decoder.variant variantNames (fun _ => none) (readPayload c levels)

end Outcome

end Offload.Wire
