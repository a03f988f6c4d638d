import Offload.Identity
import Std.Data.HashMap.Basic

/-!
# Hashing identities

A hash map finds an identity by what a hasher makes of its key. The hasher is fed piece by piece:
first with where the identity comes from, then with its scope, and before each of them with the
variant that it is. The label is left out, as it is in equality.

Nothing here depends on the hasher, which may make any number of what it is fed with.
-/

namespace Offload

/-- A piece that a hasher is fed with. -/
inductive Feed
  /-- Which variant follows. -/
  | variant (n : Nat)
  | type (tag : TypeTag)
  | number (n : UInt64)
  | text (s : String)
  deriving Repr, DecidableEq

/-- A hasher makes a number of all that it is fed with. -/
abbrev Hasher := List Feed → UInt64

/-- The pieces of an origin. -/
def Origin.feed : Origin → List Feed
  | .type tag => [.variant 0, .type tag]
  | .value tag number => [.variant 1, .type tag, .number number]
  | .explicit key => [.variant 2, .text key]

namespace Identity

/-- The pieces of a scope, or of the lack of one. -/
def scopeFeed : Option TypeTag → List Feed
  | none => [.variant 0]
  | some tag => [.variant 1, .type tag]

/-- The pieces of an identity. -/
def feed (i : Identity) : List Feed :=
  i.key.origin.feed ++ scopeFeed i.key.scope

/-- Identities hashed by a hasher. -/
abbrev hashable (hasher : Hasher) : Hashable Identity :=
  ⟨fun i => hasher i.feed⟩

/-- A hash map of identities, with a hasher of its own. -/
abbrev Map (hasher : Hasher) (β : Type) :=
  @Std.HashMap Identity β _ (hashable hasher)

end Identity

end Offload
