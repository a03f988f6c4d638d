import Offload.Wire.Token

/-!
# Decoders

A decoder goes on after the first token of a value: it is given that token and the bytes behind
it, and answers the value and the bytes behind the value. Looking at the token first is what lets
an optional value be told from a missing one, and a named variant from a bare one.

The values nest, and the format allows a bounded number of levels. A decoder of nested values
therefore takes the number of levels still open to it; each array and each map closes one for what
it holds. A byte string closes none, also where it stands for a sequence of numbers, nor does the
map around the payload of a variant. The recursion of the decoders is on this number.

A structure is written as the array of its fields, or as a map with the names of the fields, or
their positions, for keys. An enumeration is written as the name of a variant, or its position,
alone or as the only key of a map that holds the payload. `identifier?` reads such a name.
-/

namespace Offload.Wire

/-- How a value goes on after its first token. -/
abbrev Decoder (α : Type) := Token → Bytes → Option (α × Bytes)

/-- The levels of nesting that a body may have. -/
def levelLimit : Nat := 1023

namespace Decoder

variable {α β σ : Type}

/-- A value from its first byte on. -/
def item (d : Decoder α) (bs : Bytes) : Option (α × Bytes) :=
  (Token.read? bs).bind fun (token, rest) => d token rest

/-- A decoder whose values are sent through a partial function. -/
def filterMap (f : α → Option β) (d : Decoder α) : Decoder β :=
  fun token bs => (d token bs).bind fun (a, rest) => (f a).map fun b => (b, rest)

/-- A value that is its first token. -/
def scalar (f : Token → Option α) : Decoder α :=
  fun token bs => (f token).map fun a => (a, bs)

/-- The next `n` values, put in front of `done` in reverse. -/
def itemsOnto (d : Decoder α) : (n : Nat) → (done : List α) → Bytes → Option (List α × Bytes)
  | 0, done, bs => some (done.reverse, bs)
  | n + 1, done, bs => (d.item bs).bind fun (a, rest) => itemsOnto d n (a :: done) rest

/-- The next `n` values. -/
def items (d : Decoder α) (n : Nat) (bs : Bytes) : Option (List α × Bytes) :=
  itemsOnto d n [] bs

/-- An optional value: nothing, or the value. -/
def option (d : Decoder α) : Decoder (Option α)
  | .nil, bs => some (none, bs)
  | token, bs => (d token bs).map fun (a, rest) => (some a, rest)

/-- A value that is an octet of a byte string, read as a number. -/
def ofOctet (d : Decoder α) (octet : UInt8) : Option α :=
  (d (.unsigned octet.toNat) []).map Prod.fst

/-- A sequence is an array. A byte string is the sequence of its octets; it closes no level. -/
def list (element : Nat → Decoder α) (levels : Nat) : Decoder (List α)
  | .array n, bs =>
    match levels with
    | 0 => none
    | inner + 1 => items (element inner) n bs
  | .binary octets, bs => (octets.mapM (ofOctet (element levels))).map fun values => (values, bs)
  | _, _ => none

/-- A pair is an array of two. A byte string is the pair of its first two octets, whatever follows
them; it closes no level. -/
def pair (first : Nat → Decoder α) (second : Nat → Decoder β) (levels : Nat) : Decoder (α × β)
  | .array 2, bs =>
    match levels with
    | 0 => none
    | inner + 1 =>
      ((first inner).item bs).bind fun (a, rest) =>
        ((second inner).item rest).map fun (b, rest) => ((a, b), rest)
  | .binary (x :: y :: _), bs =>
    (ofOctet (first levels) x).bind fun a =>
      (ofOctet (second levels) y).map fun b => ((a, b), bs)
  | _, _ => none

/-- A key and a value. -/
def entry (key : Decoder α) (value : Decoder β) : Decoder (α × β) := fun token bs =>
  (key token bs).bind fun (a, rest) => (value.item rest).map fun (b, rest) => ((a, b), rest)

/-- The entries of a map, whose first key may be read otherwise than the others. -/
def entries (firstKey key : Decoder α) (value : Nat → Decoder β) (levels : Nat) :
    Decoder (List (α × β))
  | .map n, bs =>
    match levels, n with
    | 0, _ => none
    | _ + 1, 0 => some ([], bs)
    | inner + 1, n + 1 =>
      ((entry firstKey (value inner)).item bs).bind fun (first, rest) =>
        (items (entry key (value inner)) n rest).map fun (others, rest) => (first :: others, rest)
  | _, _ => none

/-! ### Skipping -/

/-- The next `n` values, dropped. -/
def dropItems (d : Decoder Unit) : (n : Nat) → Bytes → Option Bytes
  | 0, bs => some bs
  | n + 1, bs => (d.item bs).bind fun (_, rest) => dropItems d n rest

/-- Any value, dropped. An extension closes a level, as arrays and maps do. -/
def any (levels : Nat) : Decoder Unit := fun token bs =>
  match token, levels with
  | .array n, inner + 1 => (dropItems (any inner) n bs).map fun rest => ((), rest)
  | .map n, inner + 1 => (dropItems (any inner) (2 * n) bs).map fun rest => ((), rest)
  | .extension .., _ + 1 => some ((), bs)
  | .array _, 0 | .map _, 0 | .extension .., 0 => none
  | _, _ => some ((), bs)

/-! ### Names of fields and variants -/

/-- A name as it is written: spelled out, or as a position. -/
inductive Identifier
  | name (bs : Bytes)
  | position (n : Nat)

/-- The token of a name. -/
def identifier? : Token → Option Identifier
  | .text bs => some (.name bs)
  | .binary bs => some (.name bs)
  | .unsigned n => some (.position n)
  | _ => none

/-- The position of an identifier among the names, if it is one of them. -/
def Identifier.find? (names : List String) : Identifier → Option Nat
  | .name bs => names.findIdx? fun name => utf8 name == bs
  | .position n => if n < names.length then some n else none

/-- The fields of a structure that stand in a map: `store i` reads the field at the position `i`
into the draft, or fails because it was there before; other keys are dropped with their values. -/
def fields (names : List String) (store : Nat → σ → Bytes → Option (σ × Bytes)) (levels : Nat) :
    (n : Nat) → σ → Bytes → Option (σ × Bytes)
  | 0, draft, bs => some (draft, bs)
  | n + 1, draft, bs =>
    (Token.read? bs).bind fun (token, rest) =>
      (identifier? token).bind fun identifier =>
        match identifier.find? names with
        | some i =>
          (store i draft rest).bind fun (draft, rest) => fields names store levels n draft rest
        | none =>
          ((any levels).item rest).bind fun (_, rest) => fields names store levels n draft rest

/-- Reads a field that was not there before. -/
def once (current : Option α) (d : Decoder α) (put : α → σ) (bs : Bytes) : Option (σ × Bytes) :=
  match current with
  | some _ => none
  | none => (d.item bs).map fun (a, rest) => (put a, rest)

/-- A variant by its name alone, or as the only key of a map that holds the payload. -/
def variant (names : List String) (bare : Nat → Option α) (payload : Nat → Decoder α) : Decoder α
  | .map n, bs =>
    if n = 1 then
      (Token.read? bs).bind fun (token, rest) =>
        ((identifier? token).bind (Identifier.find? names)).bind fun i => (payload i).item rest
    else none
  | token, bs =>
    (((identifier? token).bind (Identifier.find? names)).bind bare).map fun a => (a, bs)

/-- The payload of a variant that has none: the value is already known. -/
def absent (a : α) : Decoder α
  | .nil, bs => some (a, bs)
  | _, _ => none

end Decoder

end Offload.Wire
