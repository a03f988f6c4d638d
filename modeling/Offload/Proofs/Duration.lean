import Offload.Duration

/-!
# Durations in words

A duration fits two words: its whole seconds one of 64 bits, and the nanoseconds beyond them one of
32 bits. Two durations can be added word by word, with a carry from the nanoseconds to the seconds,
and there is no sum if the seconds overflow, by themselves or by the carry (`Words.add?`). This is
the sum of the counts of nanoseconds, and exists for the same durations (`map_words_add?`).

The words of a duration are determined by its count of nanoseconds, so what is to be shown about
them is arithmetic of that count (`Words.eq_iff_count_eq`).
-/

namespace Offload.Duration

/-- Whole seconds, and the nanoseconds beyond them. -/
structure Words where
  secs : UInt64
  nanos : UInt32
  nanos_lt : nanos.toNat < 1000000000

namespace Words

variable {a b : Words}

/-- The nanoseconds of both words. -/
def count (w : Words) : Nat :=
  w.secs.toNat * 1000000000 + w.nanos.toNat

/-- The nanoseconds beyond the seconds do not overflow their word when two of them are added. -/
theorem toNat_nanos_add (a b : Words) :
    (a.nanos + b.nanos).toNat = a.nanos.toNat + b.nanos.toNat := by
  have ha := a.nanos_lt
  have hb := b.nanos_lt
  rw [UInt32.toNat_add]
  omega

/-- What is left of the nanoseconds when a second is carried. -/
theorem toNat_nanos_carry {nanos : UInt32} (h : ¬ nanos.toNat < 1000000000) :
    (nanos - 1000000000).toNat = nanos.toNat - 1000000000 :=
  UInt32.toNat_sub_of_le _ _ (UInt32.le_iff_toNat_le.2 (Nat.le_of_not_lt h))

/-- The sum, word by word and with a carry, if its seconds fit their word. -/
def add? (a b : Words) : Option Words :=
  if a.secs.toNat + b.secs.toNat < 2 ^ 64 then
    if h : (a.nanos + b.nanos).toNat < 1000000000 then some ⟨a.secs + b.secs, _, h⟩
    else if (a.secs + b.secs).toNat + 1 < 2 ^ 64 then
      some ⟨a.secs + b.secs + 1, a.nanos + b.nanos - 1000000000, by
        have ha := a.nanos_lt
        have hb := b.nanos_lt
        rw [toNat_nanos_carry h, toNat_nanos_add]
        omega⟩
    else none
  else none

/-- The words of a duration and its count determine each other. -/
theorem eq_iff_count_eq : a = b ↔ a.count = b.count := by
  refine ⟨congrArg count, fun h ↦ ?_⟩
  obtain ⟨secs, nanos, hnanos⟩ := a
  obtain ⟨secs', nanos', hnanos'⟩ := b
  simp only [count] at h
  obtain rfl : secs = secs' := UInt64.toNat_inj.1 (by omega)
  obtain rfl : nanos = nanos' := UInt32.toNat_inj.1 (by omega)
  rfl

/-- The count of two words is a duration. -/
theorem count_lt (w : Words) : w.count < limit := by
  have hsecs := w.secs.toNat_lt
  have hnanos := w.nanos_lt
  simp only [count, limit]
  omega

/-- The three ways in which words are added: without a carry, with one, and not at all. -/
theorem add?_cases (a b : Words) :
    (∃ c, a.add? b = some c ∧ c.count = a.count + b.count) ∨
      a.add? b = none ∧ limit ≤ a.count + b.count := by
  have ha := a.nanos_lt
  have hb := b.nanos_lt
  have hnanos := toNat_nanos_add a b
  unfold add?
  split
  · next hsecs =>
    have hsum : (a.secs + b.secs).toNat = a.secs.toNat + b.secs.toNat := by
      rw [UInt64.toNat_add, Nat.mod_eq_of_lt hsecs]
    split
    · refine .inl ⟨_, rfl, ?_⟩
      simp only [count, hsum, hnanos]
      omega
    · next hcarry =>
      split
      · next hfits =>
        refine .inl ⟨_, rfl, ?_⟩
        have hnext : (a.secs + b.secs + 1).toNat = (a.secs + b.secs).toNat + 1 := by
          rw [UInt64.toNat_add]
          exact Nat.mod_eq_of_lt hfits
        simp only [count, hnext, hsum, toNat_nanos_carry hcarry, hnanos]
        omega
      · refine .inr ⟨rfl, ?_⟩
        simp only [count, limit]
        omega
  · refine .inr ⟨rfl, ?_⟩
    simp only [count, limit]
    omega

/-- Whole milliseconds, counted in 128 bits. -/
def millis (w : Words) : BitVec 128 :=
  BitVec.ofNat 128 w.secs.toNat * 1000#128 + BitVec.ofNat 128 (w.nanos / 1000000).toNat

end Words

/-- The words of a duration. -/
def words (d : Duration) : Words where
  secs := UInt64.ofNat (d.nanos / 1000000000)
  nanos := UInt32.ofNat (d.nanos % 1000000000)
  nanos_lt := by
    rw [UInt32.toNat_ofNat']
    omega

section

variable {a b : Duration}

theorem toNat_secs_words (d : Duration) : d.words.secs.toNat = d.nanos / 1000000000 := by
  have hlt := d.nanos_lt
  rw [words, UInt64.toNat_ofNat']
  exact Nat.mod_eq_of_lt (by omega)

theorem toNat_nanos_words (d : Duration) : d.words.nanos.toNat = d.nanos % 1000000000 := by
  rw [words, UInt32.toNat_ofNat']
  omega

/-- The words of a duration count what it counts. -/
theorem count_words (d : Duration) : d.words.count = d.nanos := by
  rw [Words.count, toNat_secs_words, toNat_nanos_words]
  omega

/-- Words are added as the durations are that they stand for. -/
theorem map_words_add? (a b : Duration) : (a.add? b).map words = a.words.add? b.words := by
  rcases Words.add?_cases a.words b.words with ⟨c, hc, hcount⟩ | ⟨hnone, hlimit⟩
  · have hlt := c.count_lt
    have hsum : a.add? b = some ⟨c.count, hlt⟩ := by
      rw [add?_eq_some_iff]
      show c.count = a.nanos + b.nanos
      rw [hcount, count_words, count_words]
    rw [hsum, hc, Option.map_some, Option.some_inj, Words.eq_iff_count_eq, count_words]
  · rw [hnone, Option.map_eq_none_iff, Option.eq_none_iff_forall_not_mem]
    intro d hd
    have hlt := d.nanos_lt
    rw [count_words, count_words, ← add?_eq_some_iff.1 hd] at hlimit
    exact absurd hlimit (Nat.not_le_of_lt hlt)

/-- There is no sum if it is beyond the last nanosecond of the last second that a word holds. -/
theorem add?_eq_none_iff :
    a.add? b = none ↔ (2 ^ 64 - 1) * 1000000000 + 999999999 < a.nanos + b.nanos := by
  rw [add?, ofNanos?]
  split
  · next h =>
    simp only [limit] at h
    exact iff_of_false (Option.some_ne_none _) (by omega)
  · next h =>
    simp only [limit] at h
    exact iff_of_true rfl (by omega)

/-- The milliseconds of the words are those of the duration: 128 bits are enough for them. -/
theorem toNat_millis_words (d : Duration) : d.words.millis.toNat = d.millis := by
  have hlt := d.nanos_lt
  have hsecs := toNat_secs_words d
  have hnanos := toNat_nanos_words d
  simp only [Words.millis, BitVec.toNat_add, BitVec.toNat_mul, BitVec.toNat_ofNat,
    UInt32.toNat_div, UInt32.reduceToNat, hsecs, hnanos, millis]
  omega

end

end Offload.Duration
