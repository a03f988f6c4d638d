import Offload.Text.Blank
import Offload.Text.Numeral
import Mathlib.Data.List.TakeWhile

/-!
# Numerals and blanks around them

A numeral of the range `0 … max` is a run of ASCII digits, one at least, behind a plus sign or
without one, and its value is at most `max` (`unsigned_eq_ok_iff`). The run may be of any length, as
zeros in front do not count: reading stops at the first prefix that passes the bound, and the value
of a prefix is at most that of the whole.

What is left of a text without the blanks at both ends is told by what it was put together from
(`trimBlanks_eq_iff`).

The bound is checked at every digit, as a machine word would overflow there. That this is no
stricter than one check at the end is shown by `magnitude_eq_ok_iff`, where the value of the whole
run stands on the right.
-/

namespace Offload.Text

/-! ### Runs of characters

A scanner takes the longest run of characters of a kind. A text that is such a run with something
else behind it is taken apart in just this way.
-/

section Runs

variable {α : Type} {p : α → Bool} {run rest : List α}

/-- What follows a run does not go on with it. -/
theorem dropWhile_run (hrun : ∀ a ∈ run, p a = true) (hrest : ∀ a ∈ rest.head?, p a = false) :
    (run ++ rest).dropWhile p = rest := by
  rw [List.dropWhile_append_of_pos hrun]
  cases rest with
  | nil => rfl
  | cons a rest => rw [List.dropWhile_cons, if_neg (by simp [hrest a rfl])]

/-- A run is all that is taken, if what follows it starts otherwise. -/
theorem takeWhile_run (hrun : ∀ a ∈ run, p a = true) (hrest : ∀ a ∈ rest.head?, p a = false) :
    (run ++ rest).takeWhile p = run := by
  rw [List.takeWhile_append_of_pos hrun]
  cases rest with
  | nil => simp
  | cons a rest => rw [List.takeWhile_cons, if_neg (by simp [hrest a rfl]), List.append_nil]

end Runs

/-! ### Blanks -/

/-- A text with blanks in front of it and behind it. -/
def Padded (core cs : List Char) : Prop :=
  ∃ before after, cs = before ++ (core ++ after) ∧
    (∀ c ∈ before, isBlank c = true) ∧ ∀ c ∈ after, isBlank c = true

/-- A core without blanks is what is left exactly of the texts that have it between blanks. -/
theorem trimBlanks_eq_iff {core cs : List Char} (hne : core ≠ [])
    (hcore : ∀ c ∈ core, isBlank c = false) : trimBlanks cs = core ↔ Padded core cs := by
  constructor
  · rintro rfl
    let inner := (cs.dropWhile isBlank).reverse
    refine ⟨cs.takeWhile isBlank, (inner.takeWhile isBlank).reverse, ?_,
      fun c hc ↦ List.mem_takeWhile_imp hc,
      fun c hc ↦ List.mem_takeWhile_imp (List.mem_reverse.1 hc)⟩
    rw [trimBlanks, ← List.reverse_append, List.takeWhile_append_dropWhile, List.reverse_reverse,
      List.takeWhile_append_dropWhile]
  · rintro ⟨before, after, rfl, hbefore, hafter⟩
    have hhead : ∀ c ∈ (core ++ after).head?, isBlank c = false := fun c hc ↦ by
      obtain ⟨a, core, rfl⟩ := List.exists_cons_of_ne_nil hne
      obtain rfl := Option.some.inj hc
      exact hcore a (List.mem_cons_self ..)
    have hlast : ∀ c ∈ core.reverse.head?, isBlank c = false := fun c hc ↦
      hcore c (List.mem_reverse.1 (List.mem_of_mem_head? hc))
    rw [trimBlanks, dropWhile_run hbefore hhead, List.reverse_append,
      dropWhile_run (fun c hc ↦ hafter c (List.mem_reverse.1 hc)) hlast, List.reverse_reverse]

/-! ### Numerals

A numeral may have leading zeros and a plus sign, and its number is bounded by the caller. Since
more digits never make a smaller number, a bound that is passed once is passed for good.
-/

/-- The number that ASCII digits stand for. -/
def decimal (ds : List Char) : Nat :=
  Nat.ofDigitChars 10 ds 0

/-- A numeral and its value. -/
inductive IsNumeral : Nat → List Char → Prop
  | plain {ds : List Char} (hne : ds ≠ []) (hdigits : ∀ c ∈ ds, c.isDigit = true) :
    IsNumeral (decimal ds) ds
  | plus {ds : List Char} (hne : ds ≠ []) (hdigits : ∀ c ∈ ds, c.isDigit = true) :
    IsNumeral (decimal ds) ('+' :: ds)

/-- More digits make no smaller number. -/
theorem le_ofDigitChars (ds : List Char) (acc : Nat) : acc ≤ Nat.ofDigitChars 10 ds acc := by
  induction ds generalizing acc with
  | nil => simp
  | cons c ds ih =>
    rw [Nat.ofDigitChars_cons]
    have hle := ih (10 * acc + (c.toNat - '0'.toNat))
    omega

/-- Digits are read from the left. They give the value of the whole run, behind what was read
before, unless that passes the bound. -/
theorem magnitude_eq_ok_iff {bound n acc : Nat} {beyond : NumeralFault} {cs : List Char}
    (hacc : acc ≤ bound) : magnitude bound beyond acc cs = .ok n ↔
      (∀ c ∈ cs, c.isDigit = true) ∧ n = Nat.ofDigitChars 10 cs acc ∧ n ≤ bound := by
  induction cs generalizing acc with
  | nil =>
    simp only [magnitude, Except.ok.injEq, Nat.ofDigitChars_nil]
    constructor
    · rintro rfl
      exact ⟨nofun, rfl, hacc⟩
    · exact fun h ↦ h.2.1.symm
  | cons c cs ih =>
    simp only [magnitude, digit?, List.forall_mem_cons, Nat.ofDigitChars_cons, Nat.mul_comm 10 acc]
    by_cases hc : c.isDigit = true
    · simp only [hc, if_true, true_and]
      split
      · next hle => rw [ih hle]
      · next hgt =>
        have hle := le_ofDigitChars cs (acc * 10 + (c.toNat - '0'.toNat))
        constructor
        · nofun
        · rintro ⟨-, rfl, hbound⟩
          exact absurd (Nat.le_trans hle hbound) hgt
    · simp [hc]

theorem isBlank_of_isDigit {c : Char} (h : c.isDigit = true) : isBlank c = false := by
  rw [← Bool.not_eq_true]
  intro hblank
  simp [Char.isDigit, isBlank, UInt32.le_iff_toNat_le, ← UInt32.toNat_inj] at h hblank
  omega

/-- A single sign is no numeral, and no other sign than a plus is read in front of digits. -/
theorem unsigned_of_head?_ne_plus {max : Nat} {cs : List Char} (hne : cs ≠ [])
    (hplus : cs.head? ≠ some '+') : unsigned max cs = magnitude max .tooLarge 0 cs := by
  unfold unsigned
  split
  · exact absurd rfl hne
  · exact absurd rfl hplus
  · rfl
  · exact absurd rfl hplus
  · rfl

theorem unsigned_plus {max : Nat} {cs : List Char} (hne : cs ≠ []) :
    unsigned max ('+' :: cs) = magnitude max .tooLarge 0 cs := by
  cases cs with
  | nil => exact absurd rfl hne
  | cons c cs => rfl

/-- A text is read as a number exactly if it is a numeral of it and the number is in range. -/
theorem unsigned_eq_ok_iff {max n : Nat} {cs : List Char} :
    unsigned max cs = .ok n ↔ IsNumeral n cs ∧ n ≤ max := by
  constructor
  · intro h
    have hmagnitude {ds : List Char} (hds : magnitude max .tooLarge 0 ds = .ok n) :=
      (magnitude_eq_ok_iff (Nat.zero_le max)).1 hds
    by_cases hne : cs = []
    · rw [hne] at h
      cases h
    by_cases hplus : cs.head? = some '+'
    · obtain ⟨ds, rfl⟩ := List.head?_eq_some_iff.1 hplus
      cases ds with
      | nil => cases h
      | cons c ds =>
        rw [unsigned_plus (List.cons_ne_nil _ _)] at h
        obtain ⟨hdigits, rfl, hle⟩ := hmagnitude h
        exact ⟨.plus (List.cons_ne_nil _ _) hdigits, hle⟩
    · rw [unsigned_of_head?_ne_plus hne hplus] at h
      obtain ⟨hdigits, rfl, hle⟩ := hmagnitude h
      exact ⟨.plain hne hdigits, hle⟩
  · rintro ⟨hnumeral, hle⟩
    cases hnumeral with
    | plain hne hdigits =>
      rw [unsigned_of_head?_ne_plus hne, magnitude_eq_ok_iff (Nat.zero_le max)]
      · exact ⟨hdigits, rfl, hle⟩
      · intro hplus
        cases hdigits '+' (List.mem_of_mem_head? hplus)
    | plus hne hdigits =>
      rw [unsigned_plus hne, magnitude_eq_ok_iff (Nat.zero_le max)]
      exact ⟨hdigits, rfl, hle⟩

theorem IsNumeral.ne_nil {n : Nat} {cs : List Char} (h : IsNumeral n cs) : cs ≠ [] := by
  cases h with
  | plain hne => exact hne
  | plus => exact List.cons_ne_nil _ _

/-- There is no blank in a numeral. -/
theorem IsNumeral.isBlank_eq_false {n : Nat} {cs : List Char} (h : IsNumeral n cs) :
    ∀ c ∈ cs, isBlank c = false := by
  cases h with
  | plain _ hdigits => exact fun c hc ↦ isBlank_of_isDigit (hdigits c hc)
  | plus _ hdigits =>
    rw [List.forall_mem_cons]
    exact ⟨rfl, fun c hc ↦ isBlank_of_isDigit (hdigits c hc)⟩

/-- What is left without the blanks is a numeral if and only if the text is one with blanks around
it. -/
theorem isNumeral_trimBlanks_iff {n : Nat} {cs : List Char} :
    IsNumeral n (trimBlanks cs) ↔ ∃ numeral, IsNumeral n numeral ∧ Padded numeral cs := by
  constructor
  · intro h
    exact ⟨_, h, (trimBlanks_eq_iff h.ne_nil h.isBlank_eq_false).1 rfl⟩
  · rintro ⟨numeral, hnumeral, hpadded⟩
    rwa [(trimBlanks_eq_iff hnumeral.ne_nil hnumeral.isBlank_eq_false).2 hpadded]

end Offload.Text
