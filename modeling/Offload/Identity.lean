/-!
# Identities

An identity says which calls are calls of the same function. It is fixed by where it comes from
(its origin) and by the scope it is counted in. Its label is for messages only and takes no part
in equality, so the part that is compared is a type of its own, `Identity.Key`.

Types are told apart as the compiler does, and not by their names: two closures of one function are
two types of one name. The name is what a type is reported as.

A type that holds a single function can stand for it. A value of any other type could hold
different functions behind one type, so each such value is given a number that no other value
has: a `Numbering` hands the numbers out. They are words of 64 bits, so it comes round again, but
only after `2 ^ 64` of them.
-/

namespace Offload

/-- What tells a type from all others: its name, and which of the types of that name it is. -/
structure TypeId where
  name : String
  copy : Nat := 0
  deriving Repr, DecidableEq

/-- The only type of its name. -/
instance : Coe String TypeId :=
  ⟨fun name => { name }⟩

/-- A type, known by its id. -/
structure TypeTag where
  id : TypeId
  deriving Repr, DecidableEq

/-- The name of a type. Another type may have it as well. -/
def TypeTag.name (tag : TypeTag) : String :=
  tag.id.name

/-- Where an identity comes from. -/
inductive Origin
  /-- Every value of the type is the same function. -/
  | type (tag : TypeTag)
  /-- One value of the type. -/
  | value (tag : TypeTag) (number : UInt64)
  /-- A key chosen by the caller. -/
  | explicit (key : String)
  deriving Repr, DecidableEq

/-- What an identity is reported as. -/
inductive Label
  | typeName (tag : TypeTag)
  | given (name : String)
  deriving Repr, DecidableEq

/-- The text of a label. -/
def Label.text : Label → String
  | .typeName tag => tag.name
  | .given name => name

/-- The part of an identity that decides whether two of them are the same. -/
structure Identity.Key where
  origin : Origin
  scope : Option TypeTag := none
  deriving Repr, DecidableEq

/-- What makes calls count as calls of the same function. -/
structure Identity where
  key : Identity.Key
  label : Label
  deriving Repr

/-- Numbers are handed out in order, and this is the next one. -/
structure Numbering where
  next : UInt64 := 0
  deriving Repr, DecidableEq

namespace Identity

/-- The identity shared by all values of a type. -/
def ofType (tag : TypeTag) : Identity :=
  ⟨⟨.type tag, none⟩, .typeName tag⟩

/-- The identity of one value. A type without content has one value, so it stands for it. -/
def ofValue (tag : TypeTag) (hasContent : Bool) (numbering : Numbering) : Identity × Numbering :=
  if hasContent then
    (⟨⟨.value tag numbering.next, none⟩, .typeName tag⟩, ⟨numbering.next + 1⟩)
  else
    (ofType tag, numbering)

/-- The identity fixed by a key. -/
def keyed (key : String) : Identity :=
  ⟨⟨.explicit key, none⟩, .given key⟩

/-- The same identity under another label. -/
def named (i : Identity) (name : String) : Identity :=
  { i with label := .given name }

/-- The same identity, counted apart for the scope. -/
def within (i : Identity) (scope : TypeTag) : Identity :=
  { i with key := { i.key with scope := some scope } }

/-- What the identity is reported as. -/
def name (i : Identity) : String :=
  i.label.text

/-- Two identities are the same if their keys are. -/
instance : BEq Identity :=
  ⟨fun i j => i.key == j.key⟩

theorem beq_iff {i j : Identity} : (i == j) = true ↔ i.key = j.key :=
  beq_iff_eq (a := i.key) (b := j.key)

@[simp] theorem key_named (i : Identity) (name : String) : (i.named name).key = i.key := rfl

@[simp] theorem scope_within (i : Identity) (scope : TypeTag) :
    (i.within scope).key.scope = some scope := rfl

@[simp] theorem origin_within (i : Identity) (scope : TypeTag) :
    (i.within scope).key.origin = i.key.origin := rfl

end Identity

end Offload
