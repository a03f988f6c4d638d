import Offload.Limiters
import Mathlib.Data.List.Basic

/-!
# The counts of a family of limiters

The view of a family is the function `Limiters.inFlight`: a count for each reference and each
identity. References that stand for one table have the same counts, and an operation in the table
of one reference shows in all of them and nowhere else (`inFlight_enter`, `inFlight_release`).

Nothing here looks into a table: the counts of a single one are those of `Offload.Limiter`.

A reference may also stand for nothing, if it was never handed out. Then nothing is written through
it (`set_of_get?_eq_none`), no call is admitted, and the count is zero. The lemmas that need a table
say so by `ls.get? r = some table`, and the others hold for every number.
-/

namespace Offload.Limiters

variable {ls : Limiters} {r : Nat} {table : Limiter}

/-- Replacing a table leaves every reference where it stood. -/
@[simp]
theorem position?_set (ls : Limiters) (r : Nat) (table : Limiter) (r' : Nat) :
    (ls.set r table).position? r' = ls.position? r' := by
  rw [set]
  split <;> rfl

/-- A reference that stands for no table is not written through. -/
theorem set_of_get?_eq_none (h : ls.get? r = none) (table : Limiter) : ls.set r table = ls := by
  rw [set]
  rcases hp : ls.position? r with - | p
  · rfl
  · have ht : ls.tables[p]? = none := by simpa [get?, hp] using h
    simp [List.set_eq_of_length_le (List.getElem?_eq_none_iff.1 ht)]

/-- A table that is put back where it was taken from changes nothing. -/
theorem set_getD_get? (ls : Limiters) (r : Nat) :
    ls.set r ((ls.get? r).getD .empty) = ls := by
  rcases h : ls.get? r with - | table
  · exact set_of_get?_eq_none h _
  · obtain ⟨p, hp, ht⟩ := Option.bind_eq_some_iff.1 h
    obtain ⟨hlt, hget⟩ := List.getElem?_eq_some_iff.1 ht
    -- `hget` is read backwards: the table that is put in is the one that is there
    simp [set, hp, ← hget]

/-- What is put into the table of one reference is found through each reference to that table. -/
theorem get?_set (h : ls.get? r = some table) (new : Limiter) (r' : Nat) :
    (ls.set r new).get? r' =
      if ls.position? r' = ls.position? r then some new else ls.get? r' := by
  obtain ⟨p, hp, ht⟩ := Option.bind_eq_some_iff.1 h
  have hlt : p < ls.tables.length := (List.getElem?_eq_some_iff.1 ht).1
  have hset : ls.set r new = { ls with tables := ls.tables.set p new } := by simp [set, hp]
  unfold get?
  rw [position?_set, hset, hp]
  rcases ls.position? r' with - | q
  · rfl
  · by_cases hq : q = p
    · subst hq
      simp [hlt]
    · simp [List.getElem?_set_ne (Ne.symm hq), hq]

/-- Of two tables that are put into one place the second one counts. -/
theorem set_set (ls : Limiters) (r : Nat) (table table' : Limiter) :
    (ls.set r table).set r table' = ls.set r table' := by
  rcases hp : ls.position? r with - | p
  · simp [set, hp]
  · have hset (table : Limiter) : ls.set r table = { ls with tables := ls.tables.set p table } := by
      simp [set, hp]
    rw [set, position?_set, hp]
    simp [hset]

theorem inFlight_set (h : ls.get? r = some table) (new : Limiter) (r' : Nat) (j : Identity) :
    (ls.set r new).inFlight r' j =
      if ls.position? r' = ls.position? r then new.inFlight j else ls.inFlight r' j := by
  rw [inFlight]
  rw [get?_set h]
  split <;> rfl

/-- The counts of a reference are those of its table. -/
theorem inFlight_of_get? (h : ls.get? r = some table) (j : Identity) :
    ls.inFlight r j = table.inFlight j := by
  simp [inFlight, h]

/-- References to one table have the same counts, and so have identities of one key. -/
theorem inFlight_congr {r' : Nat} (h : ls.position? r' = ls.position? r) {i j : Identity}
    (hk : j.key = i.key) : ls.inFlight r' j = ls.inFlight r i := by
  simp [inFlight, get?, h, Limiter.inFlight, hk]

/-! ### Operations

An operation through a reference replaces the table that the reference stands for. All references to
that table see it, and no other reference does.
-/

/-- An admission through a reference is one in its table. -/
theorem enter_of_get? (h : ls.get? r = some table) (i : Identity) (limit : Limit) :
    ls.enter r i limit = ((table.enter i limit).1, ls.set r (table.enter i limit).2) := by
  simp [enter, h]

/-- A release through a reference is one in its table. -/
theorem release_of_get? (h : ls.get? r = some table) (i : Identity) :
    ls.release r i = ls.set r (table.release i) := by
  simp [release, h]

/-- A table that is put back with a call released is that release in the family. -/
theorem set_release (ls : Limiters) (r : Nat) (i : Identity) :
    ls.set r (((ls.get? r).getD .empty).release i) = ls.release r i := by
  rcases h : ls.get? r with - | table
  · rw [set_of_get?_eq_none h, release, h]
  · rw [release_of_get? h, Option.getD_some]

/-- An admission adds one to the count of its key, in all references to its table and in no other.
-/
theorem inFlight_enter (h : ls.get? r = some table) (i : Identity) (limit : Limit) (r' : Nat)
    (j : Identity) :
    (ls.enter r i limit).2.inFlight r' j =
      if limit.admits (ls.inFlight r i) = true ∧ ls.position? r' = ls.position? r ∧ j.key = i.key
      then ls.inFlight r' j + 1 else ls.inFlight r' j := by
  rw [enter_of_get? h, inFlight_set h, Limiter.inFlight_enter, inFlight_of_get? h]
  by_cases hr : ls.position? r' = ls.position? r
  · rw [inFlight_congr hr rfl, inFlight_of_get? h]
    simp [hr]
  · simp [hr]

/-- A release takes one off the same counts, where there is one. -/
theorem inFlight_release (h : ls.get? r = some table) (i : Identity) (r' : Nat) (j : Identity) :
    (ls.release r i).inFlight r' j =
      if ls.position? r' = ls.position? r ∧ j.key = i.key then ls.inFlight r' j - 1
      else ls.inFlight r' j := by
  rw [release_of_get? h, inFlight_set h, Limiter.inFlight_release]
  by_cases hr : ls.position? r' = ls.position? r
  · rw [inFlight_congr hr rfl, inFlight_of_get? h]
    simp [hr]
  · simp [hr]

/-- A call that the limit does not admit leaves the whole family as it was. -/
theorem enter_of_not_admits (h : ls.get? r = some table) {i : Identity} {limit : Limit}
    (hl : limit.admits (ls.inFlight r i) = false) : ls.enter r i limit = (false, ls) := by
  rw [inFlight_of_get? h] at hl
  have hset : ls.set r table = ls := by simpa [h] using set_getD_get? ls r
  rw [enter_of_get? h]
  simp [Limiter.enter, hl, hset]

/-- Whether a call is admitted depends on one count alone. -/
theorem enter_fst (h : ls.get? r = some table) (i : Identity) (limit : Limit) :
    (ls.enter r i limit).1 = limit.admits (ls.inFlight r i) := by
  rw [enter_of_get? h, inFlight_of_get? h, Limiter.enter]
  split <;> simp_all

/-! ### References that keep standing for a table

Tables are only added, and no reference is ever moved. So a position that was looked up once stays
right, whatever is done through other references.
-/

/-- Admissions leave every reference where it stood. -/
@[simp]
theorem position?_enter (ls : Limiters) (r : Nat) (i : Identity) (limit : Limit) (r' : Nat) :
    (ls.enter r i limit).2.position? r' = ls.position? r' := by
  rw [enter]
  split <;> simp

@[simp]
theorem position?_release (ls : Limiters) (r : Nat) (i : Identity) (r' : Nat) :
    (ls.release r i).position? r' = ls.position? r' := by
  rw [release]
  split <;> simp

/-- A reference that stands for a table stands for one for good. -/
theorem isSome_get?_set (ls : Limiters) (r : Nat) (table : Limiter) (r' : Nat) :
    ((ls.set r table).get? r').isSome = (ls.get? r').isSome := by
  unfold get?
  rw [position?_set]
  rcases ls.position? r' with - | q
  · rfl
  · rw [set]
    split
    · rw [Bool.eq_iff_iff]
      simp only [Option.bind_some, Option.isSome_iff_ne_none, ne_eq, List.getElem?_eq_none_iff,
        List.length_set]
    · rfl

theorem isSome_get?_enter (ls : Limiters) (r : Nat) (i : Identity) (limit : Limit) (r' : Nat) :
    ((ls.enter r i limit).2.get? r').isSome = (ls.get? r').isSome := by
  rw [enter]
  split
  · exact isSome_get?_set ..
  · rfl

theorem isSome_get?_release (ls : Limiters) (r : Nat) (i : Identity) (r' : Nat) :
    ((ls.release r i).get? r').isSome = (ls.get? r').isSome := by
  rw [release]
  split
  · exact isSome_get?_set ..
  · rfl

end Offload.Limiters
