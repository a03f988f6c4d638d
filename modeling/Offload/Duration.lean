import Offload.Power

/-!
# Durations

A duration is a count of nanoseconds below `2 ^ 64` seconds. Sums that pass this bound do not
exist, so addition is partial (`add?`).
-/

namespace Offload

/-- A span of time in nanoseconds, shorter than `2 ^ 64` seconds. -/
structure Duration where
  nanos : Nat
  nanos_lt : nanos < 2 ^ 64 * 1000000000
  deriving DecidableEq

namespace Duration

/-- The first number of nanoseconds that is no duration. -/
abbrev limit : Nat := 2 ^ 64 * 1000000000

/-- A number of nanoseconds, if it is within the bound. -/
def ofNanos? (n : Nat) : Option Duration :=
  if h : n < limit then some ⟨n, h⟩ else none

/-- A number of nanoseconds, or the longest duration if it is beyond the bound. -/
def saturating (n : Nat) : Duration :=
  ⟨min n (2 ^ 64 * 1000000000 - 1), by omega⟩

/-- Milliseconds. Every 64-bit count of them is a duration. -/
def ofMillis (ms : UInt64) : Duration :=
  ⟨ms.toNat * 1000000, by have := ms.toNat_lt; omega⟩

/-- A number of seconds and nanoseconds, if it is within the bound. -/
def ofSecs? (secs nanos : Nat) : Option Duration :=
  ofNanos? (secs * 1000000000 + nanos)

/-- The sum, if it is within the bound. -/
def add? (a b : Duration) : Option Duration :=
  ofNanos? (a.nanos + b.nanos)

/-- Whole milliseconds, rounded down. -/
def millis (d : Duration) : Nat :=
  d.nanos / 1000000

theorem add?_eq_some_iff {a b c : Duration} : a.add? b = some c ↔ c.nanos = a.nanos + b.nanos := by
  obtain ⟨a, ha⟩ := a
  obtain ⟨b, hb⟩ := b
  obtain ⟨c, hc⟩ := c
  simp only [add?, ofNanos?]
  split
  · simp only [Option.some.injEq, mk.injEq]
    exact eq_comm
  · next h =>
    simp only [reduceCtorEq, false_iff]
    simp only [limit] at h
    omega

@[simp] theorem nanos_ofMillis (ms : UInt64) : (ofMillis ms).nanos = ms.toNat * 1000000 := rfl

end Duration

end Offload
