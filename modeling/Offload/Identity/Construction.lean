import Offload.Identity

/-!
# Constructions of identities

An identity is made from a key, a type, a value or an identity made earlier, and may then be renamed
and scoped any number of times. A list of constructions is carried out from left to right, so that a
construction can copy one before it.
-/

namespace Offload

namespace Identity

/-- What an identity is made from. -/
inductive Seed
  | key (key : String)
  | type (tag : TypeTag)
  | value (tag : TypeTag) (hasContent : Bool)
  /-- The identity made at a position before. -/
  | copy (position : Nat)
  deriving Repr, DecidableEq

/-- A change of an identity. -/
inductive Modifier
  | rename (name : String)
  | scope (tag : TypeTag)
  deriving Repr, DecidableEq

/-- A seed and the changes after it, in order. -/
structure Construction where
  seed : Seed
  modifiers : List Modifier := []
  deriving Repr, DecidableEq

/-- The identity after a change. -/
def Modifier.apply (i : Identity) : Modifier → Identity
  | .rename name => i.named name
  | .scope tag => i.within tag

/-- The identity of a seed. A copy of what does not exist is none. -/
def Seed.make? (made : List Identity) (numbering : Numbering) :
    Seed → Option (Identity × Numbering)
  | .key k => some (.keyed k, numbering)
  | .type tag => some (.ofType tag, numbering)
  | .value tag hasContent => some (Identity.ofValue tag hasContent numbering)
  | .copy position => made[position]?.map fun i => (i, numbering)

/-- The identities of further constructions behind those already made. -/
def buildOnto? (made : List Identity) (numbering : Numbering) :
    List Construction → Option (List Identity)
  | [] => some made
  | c :: rest =>
    (c.seed.make? made numbering).bind fun (i, numbering) =>
      buildOnto? (made ++ [c.modifiers.foldl Modifier.apply i]) numbering rest

/-- The identities of a list of constructions. -/
def build? (constructions : List Construction) : Option (List Identity) :=
  buildOnto? [] {} constructions

/-- For each identity the position of the first one that is the same. -/
def firstEqual (identities : List Identity) : List Nat :=
  identities.map fun i => identities.findIdx (· == i)

/-- How often each identity occurs. -/
def occurrences (identities : List Identity) : List Nat :=
  identities.map fun i => identities.countP (· == i)

/-- The identities that occur, each once. -/
def distinct (identities : List Identity) : List Key :=
  (identities.map Identity.key).eraseDups

end Identity

end Offload
