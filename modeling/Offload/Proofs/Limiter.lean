import Offload.Limiter
import Mathlib.Data.List.Nodup

/-!
# One limiter

A limiter is fed the operations on it, of all keys in one order. It counts for each key what a
`Counter` counts that is fed the operations on that key alone, and it has an entry for the keys of
which a call was admitted. `Keeps` says so, with a lemma for each operation.

The counter is written down without the limiter: it goes up below the bound of a limit, always
without a bound, and stops at zero (`Counter.goesUp`, `Counter.step`). That the limiter decides in
the same way is a lemma (`Counter.admits_eq_goesUp`) and no definition, so a limiter with another
rule would not fit.

An entry is never removed, even if its count is zero again. This is why the keys are a part of
`Keeps` and do not follow from the counts.
-/

namespace Offload

/-! ### A counter

A counter is one number and two kinds of steps. An admission is judged by the number before it; a
release at zero leaves zero.
-/

/-- What is done to a counter. -/
inductive Counter.Step where
  | enter (limit : Limit)
  | release
  deriving DecidableEq

/-- Whether a counter that stands at `n` goes up under a limit. -/
def Counter.goesUp (n : Nat) : Limit → Bool
  | .unbounded => true
  | .atMost max => n < max

/-- One step of a counter. It is clamped: a limit stops it above, and zero below. -/
def Counter.step (n : Nat) : Counter.Step → Nat
  | .enter limit => if goesUp n limit then n + 1 else n
  | .release => n - 1

/-- A limiter admits a call where a counter goes up. -/
theorem Counter.admits_eq_goesUp (limit : Limit) (n : Nat) : limit.admits n = goesUp n limit := by
  cases limit <;> rfl

/-- What a counter stands at that was fed `steps`. -/
def Counter.count (steps : List Counter.Step) : Nat :=
  steps.foldl Counter.step 0

/-- The last step is taken where the steps before it led. -/
theorem Counter.count_concat (steps : List Counter.Step) (step : Counter.Step) :
    count (steps ++ [step]) = Counter.step (count steps) step := by
  simp [count]

/-! ### One table

A table is a list of entries, one for each key. `Keeps` says that each entry is the counter of its
key with the steps it was fed, and that a key which was never admitted has none.
-/

namespace Limiter

/-- The keys with an entry. -/
def keys (l : Limiter) : List Identity.Key :=
  l.counts.map Prod.fst

/-- The number that a limiter reports as tracked is the number of its entries. -/
theorem length_keys (l : Limiter) : l.keys.length = l.tracked :=
  List.length_map _

theorem count?_eq_none_iff {key : Identity.Key} {counts : List (Identity.Key × Nat)} :
    count? key counts = none ↔ key ∉ counts.map Prod.fst := by
  induction counts with
  | nil => simp [count?]
  | cons entry rest ih =>
    rw [count?, List.map_cons, List.mem_cons, not_or, ← ih]
    split <;> simp_all

/-- To set a count adds an entry at the end if there is none, and moves none. -/
theorem map_fst_setCount (key : Identity.Key) (n : Nat) (counts : List (Identity.Key × Nat)) :
    (setCount key n counts).map Prod.fst =
      if key ∈ counts.map Prod.fst then counts.map Prod.fst
      else counts.map Prod.fst ++ [key] := by
  induction counts with
  | nil => rfl
  | cons entry rest ih =>
    obtain ⟨k, m⟩ := entry
    rw [setCount]
    by_cases hk : key = k
    · simp [hk]
    · rw [if_neg hk, List.map_cons, ih]
      split <;> simp_all

/-- Only a call that is admitted adds an entry, and only if its key has none. -/
theorem keys_enter (l : Limiter) (i : Identity) (limit : Limit) :
    (l.enter i limit).2.keys =
      if limit.admits (l.inFlight i) = true ∧ i.key ∉ l.keys then l.keys ++ [i.key]
      else l.keys := by
  rw [enter]
  split
  · next h =>
    rw [keys, map_fst_setCount, ← keys]
    simp only [h, true_and]
    split <;> simp_all
  · next h =>
    simp [h]

/-- A call is given back in an entry that is there. -/
theorem keys_release (l : Limiter) (i : Identity) : (l.release i).keys = l.keys := by
  rw [release]
  split
  · next n h =>
    have hmem : i.key ∈ l.counts.map Prod.fst := by
      by_contra hnot
      simp [count?_eq_none_iff.2 hnot, entry?] at h
    rw [keys, map_fst_setCount, if_pos hmem, keys]
  · rfl

/-- There is nothing to give back. -/
theorem release_of_inFlight_eq_zero {l : Limiter} {i : Identity} (h : l.inFlight i = 0) :
    l.release i = l := by
  rw [release]
  split
  · next n hn =>
    simp [inFlight, hn] at h
  · rfl

/-- A table and what it was fed: the steps for each key, and the keys of the calls it admitted. -/
structure Keeps (l : Limiter) (steps : Identity.Key → List Counter.Step)
    (admitted : Identity.Key → Prop) : Prop where
  inFlight_eq : ∀ i, l.inFlight i = Counter.count (steps i.key)
  nodup_keys : l.keys.Nodup
  mem_keys : ∀ key, key ∈ l.keys ↔ admitted key

namespace Keeps

variable {l : Limiter} {steps steps' : Identity.Key → List Counter.Step}
  {admitted admitted' : Identity.Key → Prop}

theorem empty : Keeps .empty (fun _ ↦ []) fun _ ↦ False :=
  ⟨fun _ ↦ rfl, List.nodup_nil, fun _ ↦ List.mem_nil_iff _⟩

/-- Steps and admissions matter as functions of the key, however they are given. -/
theorem congr (h : l.Keeps steps admitted) (hsteps : ∀ key, steps' key = steps key)
    (hadmitted : ∀ key, admitted' key ↔ admitted key) : l.Keeps steps' admitted' :=
  ⟨fun i ↦ by rw [h.inFlight_eq, hsteps], h.nodup_keys,
    fun key ↦ (h.mem_keys key).trans (hadmitted key).symm⟩

/-- An admission is a step of one counter, and of no other. -/
theorem enter (h : l.Keeps steps admitted) (i : Identity) (limit : Limit)
    (hsteps : ∀ key, steps' key =
      steps key ++ if i.key = key then [.enter limit] else [])
    (hadmitted : ∀ key, admitted' key ↔
      admitted key ∨ i.key = key ∧ limit.admits (l.inFlight i) = true) :
    (l.enter i limit).2.Keeps steps' admitted' := by
  refine ⟨fun j ↦ ?_, ?_, fun key ↦ ?_⟩
  · rw [inFlight_enter, hsteps]
    by_cases hj : i.key = j.key
    · rw [if_pos hj, Counter.count_concat, ← h.inFlight_eq, Counter.step,
        ← Counter.admits_eq_goesUp]
      have hji : l.inFlight j = l.inFlight i := by simp only [inFlight, hj]
      simp [hj, hji]
    · simp [hj, Ne.symm hj, h.inFlight_eq]
  · rw [keys_enter]
    split
    · next hnew =>
      simpa using h.nodup_keys.concat hnew.2
    · exact h.nodup_keys
  · rw [keys_enter, hadmitted, ← h.mem_keys]
    split
    · next hnew =>
      simp [hnew.1, eq_comm]
    · next hold =>
      constructor
      · exact .inl
      · rintro (hmem | ⟨rfl, hadmits⟩)
        · exact hmem
        · by_contra hnot
          exact hold ⟨hadmits, hnot⟩

/-- A release is one step of the counter of its key, and adds no entry. -/
theorem release (h : l.Keeps steps admitted) (i : Identity)
    (hsteps : ∀ key, steps' key = steps key ++ if i.key = key then [.release] else []) :
    (l.release i).Keeps steps' admitted := by
  refine ⟨fun j ↦ ?_, ?_, fun key ↦ ?_⟩
  · rw [inFlight_release, hsteps]
    by_cases hj : i.key = j.key
    · rw [if_pos hj.symm, if_pos hj, Counter.count_concat, ← h.inFlight_eq, Counter.step]
    · simp [hj, Ne.symm hj, h.inFlight_eq]
  · exact keys_release l i ▸ h.nodup_keys
  · rw [keys_release, h.mem_keys]

end Keeps

end Limiter

end Offload
