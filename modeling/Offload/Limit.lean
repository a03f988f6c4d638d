/-!
# Limits on calls in flight
-/

namespace Offload

/-- How many calls of one function may be in flight at once. -/
inductive Limit
  | unbounded
  | atMost (max : Nat)
  deriving Repr, DecidableEq

namespace Limit

/-- A missing number is no limit. -/
def ofOption : Option Nat → Limit
  | none => .unbounded
  | some max => .atMost max

/-- The number of a bounded limit. -/
def max? : Limit → Option Nat
  | .unbounded => none
  | .atMost max => some max

/-- Whether one more call may start with `inFlight` calls running. -/
def admits : Limit → (inFlight : Nat) → Bool
  | .unbounded, _ => true
  | .atMost max, inFlight => inFlight < max

/-- The word for a limit. -/
def text : Limit → String
  | .unbounded => "unbounded"
  | .atMost max => toString max

theorem admits_atMost {max inFlight : Nat} :
    (atMost max).admits inFlight = true ↔ inFlight < max := by
  simp [admits]

end Limit

end Offload
