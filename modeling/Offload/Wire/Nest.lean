import Offload.Wire.Codec

/-!
# Nests

A nest is a list of nests. It is given as the first of them and the nest of the others, so that its
depth and its length are reached by the same recursion.
-/

namespace Offload.Wire

/-- A list of nests. -/
inductive Nest
  | empty
  | cons (first rest : Nest)
  deriving Repr, DecidableEq

namespace Nest

/-- The nests that a nest lists. -/
def toList : Nest → List Nest
  | empty => []
  | cons first rest => first :: rest.toList

/-- The nest that lists the given nests. -/
def ofList : List Nest → Nest
  | [] => empty
  | first :: rest => cons first (ofList rest)

/-- The number of nests that a nest lists. -/
def length : Nest → Nat
  | empty => 0
  | cons _ rest => rest.length + 1

/-- The nests of the list one after the other, each with its own header, in front of `tail`. -/
def writeOnto : Nest → Bytes → Bytes
  | empty, tail => tail
  | cons first rest, tail =>
    Token.writeArray first.length ++ first.writeOnto (rest.writeOnto tail)

/-- An array of nests. -/
def write (n : Nest) : Bytes :=
  Token.writeArray n.length ++ n.writeOnto []

/-- An array of nests. A byte string without bytes is the empty nest, and closes no level. -/
def read : Nat → Decoder Nest
  | 0, .binary [], bs => some (empty, bs)
  | 0, _, _ => none
  | levels + 1, token, bs =>
    (Decoder.list (fun _ => read levels) (levels + 1) token bs).map fun (nests, rest) =>
      (ofList nests, rest)

/-- The number of brackets inside each other. -/
def height : Nest → Nat
  | empty => 1
  | cons first rest => max (first.height + 1) rest.height

/-- A line of `n` nests inside the empty one. -/
def line : Nat → Nest
  | 0 => empty
  | n + 1 => cons (line n) empty

@[simp] theorem ofList_toList (n : Nest) : ofList n.toList = n := by
  induction n with
  | empty => rfl
  | cons first rest _ ih => simp [toList, ofList, ih]

@[simp] theorem toList_ofList (nests : List Nest) : (ofList nests).toList = nests := by
  induction nests with
  | nil => rfl
  | cons first rest ih => simp [toList, ofList, ih]

@[simp] theorem length_toList (n : Nest) : n.toList.length = n.length := by
  induction n with
  | empty => rfl
  | cons first rest _ ih => simp [toList, length, ih]

/-- The codec of nests. -/
def codec : Codec Nest where
  write := write
  read := read

end Nest

end Offload.Wire
