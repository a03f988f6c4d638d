import Offload.Identity
import Offload.Limit

/-!
# Limiters

A limiter counts the calls in flight, one counter for each identity. An identity has an entry once
a call of it was admitted, and keeps it: a count that has gone back to zero is an entry, a
rejection makes none.

The view of a limiter is the function `inFlight`, with one lemma per operation
(`inFlight_enter`, `inFlight_release`).
-/

namespace Offload

/-- Counts of calls in flight, by the key of their identity, in the order of their first entry. -/
structure Limiter where
  counts : List (Identity.Key × Nat) := []
  deriving Repr, DecidableEq

namespace Limiter

/-- A limiter that counts nothing yet. -/
def empty : Limiter := {}

/-- The count of `key`, if it has an entry. -/
def count? (key : Identity.Key) : List (Identity.Key × Nat) → Option Nat
  | [] => none
  | (k, n) :: rest => if key = k then some n else count? key rest

/-- The entry of a key. -/
def entry? (l : Limiter) (key : Identity.Key) : Option Nat :=
  count? key l.counts

/-- The number of admitted calls that were not given back. -/
def inFlight (l : Limiter) (i : Identity) : Nat :=
  (l.entry? i.key).getD 0

/-- The number of identities with an entry. -/
def tracked (l : Limiter) : Nat :=
  l.counts.length

/-- The counts with the entry of `key` set to `n`; a new entry goes to the end. -/
def setCount (key : Identity.Key) (n : Nat) :
    List (Identity.Key × Nat) → List (Identity.Key × Nat)
  | [] => [(key, n)]
  | (k, m) :: rest => if key = k then (k, n) :: rest else (k, m) :: setCount key n rest

/-- Admit one more call if the limit allows it. A rejection leaves the limiter as it was. -/
def enter (l : Limiter) (i : Identity) (limit : Limit) : Bool × Limiter :=
  if limit.admits (l.inFlight i) then
    (true, ⟨setCount i.key (l.inFlight i + 1) l.counts⟩)
  else
    (false, l)

/-- Give one call back. A count of zero stays zero. -/
def release (l : Limiter) (i : Identity) : Limiter :=
  match l.entry? i.key with
  | some (n + 1) => ⟨setCount i.key n l.counts⟩
  | _ => l

/-- The number of admissions among `tries` tries one after the other. -/
def admitTimes (l : Limiter) (i : Identity) (limit : Limit) : (tries : Nat) → Nat × Limiter
  | 0 => (0, l)
  | tries + 1 =>
    let (admitted, l) := l.enter i limit
    let (more, l) := l.admitTimes i limit tries
    (admitted.toNat + more, l)

/-! ### The view -/

theorem count?_setCount (key other : Identity.Key) (n : Nat)
    (counts : List (Identity.Key × Nat)) :
    count? other (setCount key n counts) =
      if other = key then some n else count? other counts := by
  induction counts with
  | nil => rfl
  | cons entry rest ih =>
    obtain ⟨k, m⟩ := entry
    by_cases hk : key = k
    · subst hk
      by_cases h : other = key <;> simp [setCount, count?, h]
    · by_cases h : other = k
      · subst h
        simp [setCount, count?, hk, Ne.symm hk]
      · simp [setCount, count?, hk, h, ih]

theorem inFlight_enter (l : Limiter) (i j : Identity) (limit : Limit) :
    (l.enter i limit).2.inFlight j =
      if limit.admits (l.inFlight i) = true ∧ j.key = i.key then l.inFlight j + 1
      else l.inFlight j := by
  by_cases h : limit.admits (l.inFlight i) = true
  · rw [enter, if_pos h]
    by_cases hj : j.key = i.key
    · rw [if_pos ⟨h, hj⟩]
      simp [inFlight, entry?, count?_setCount, hj]
    · rw [if_neg fun c => hj c.2]
      simp [inFlight, entry?, count?_setCount, hj]
  · simp [enter, h]

theorem inFlight_release (l : Limiter) (i j : Identity) :
    (l.release i).inFlight j =
      if j.key = i.key then l.inFlight j - 1 else l.inFlight j := by
  unfold release
  split
  · next n h =>
    by_cases hj : j.key = i.key
    · simp [inFlight, entry?, count?_setCount, hj] at h ⊢
      simp [h]
    · simp [inFlight, entry?, count?_setCount, hj]
  · next h =>
    by_cases hj : j.key = i.key
    · cases he : l.entry? i.key with
      | none => simp [inFlight, hj, he]
      | some n =>
        cases n with
        | zero => simp [inFlight, hj, he]
        | succ n => exact absurd he (h n)
    · simp [hj]

end Limiter

end Offload
