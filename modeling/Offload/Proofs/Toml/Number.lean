import Offload.Proofs.Text
import Offload.Toml.Expression

/-!
# Integers of a TOML document as they are written

An integer that is not negative is written in digits of base ten, without a leading zero and perhaps
behind a plus sign, or in digits of base sixteen, eight or two behind a mark. Single underscores may
stand between digits (`IsInteger`). It is read as what it is written for, whatever follows it, as
long as that does not go on with the number (`number?_of_isInteger`).

Dates and floats are looked for first, so it has to be shown that an integer is neither. A date or a
time has a hyphen or a colon behind its first digits, and a float has a point or an exponent.

Floats are only recognised and not evaluated, apart from whether they are in range: no field takes
one. What has to be exact is the border between the kinds of numbers, because a text of digits is
the beginning of all of them.
-/

namespace Offload.Toml

/-! ### Digits

A run of digits may have single underscores inside. It is read to its end, and the end is the first
character that is neither a digit nor an underscore before one.
-/

/-- Digits of the base and what they are written as. -/
inductive Run (base : Nat) : List Nat → List Char → Prop
  | single {c : Char} {d : Nat} (h : digit? base c = some d) : Run base [d] [c]
  | next {c : Char} {d : Nat} {ds : List Nat} {cs : List Char} (h : digit? base c = some d)
    (hs : Run base ds cs) : Run base (d :: ds) (c :: cs)
  | spaced {c : Char} {d : Nat} {ds : List Nat} {cs : List Char} (h : digit? base c = some d)
    (hs : Run base ds cs) : Run base (d :: ds) (c :: '_' :: cs)

/-- What follows does not go on with digits of the base. -/
def Stops (base : Nat) (rest : List Char) : Prop :=
  ∀ c ∈ rest.head?, c ≠ '_' ∧ digit? base c = none

section Digits

variable {base d : Nat} {c : Char} {ds : List Nat} {cs rest : List Char}

theorem digit?_underscore (base : Nat) : digit? base '_' = none := rfl

theorem Run.exists_cons (h : Run base ds cs) :
    ∃ c d cs', cs = c :: cs' ∧ digit? base c = some d := by
  cases h with
  | single h => exact ⟨_, _, _, rfl, h⟩
  | next h => exact ⟨_, _, _, rfl, h⟩
  | spaced h => exact ⟨_, _, _, rfl, h⟩

/-- Each character of a run is an underscore or a digit. -/
theorem Run.mem (h : Run base ds cs) : ∀ c ∈ cs, c = '_' ∨ ∃ d, digit? base c = some d := by
  induction h with
  | single h => simpa using .inr ⟨_, h⟩
  | next h _ ih => exact List.forall_mem_cons.2 ⟨.inr ⟨_, h⟩, ih⟩
  | spaced h _ ih =>
    exact List.forall_mem_cons.2 ⟨.inr ⟨_, h⟩, List.forall_mem_cons.2 ⟨.inl rfl, ih⟩⟩

theorem moreDigits_of_stops (h : Stops base rest) : moreDigits base rest = ([], rest) := by
  unfold moreDigits
  split
  · exact absurd rfl (h _ rfl).1
  · rw [(h _ rfl).2]
  · rfl

theorem moreDigits_cons (h : digit? base c = some d) :
    moreDigits base (c :: cs) = (d :: (moreDigits base cs).1, (moreDigits base cs).2) := by
  have hc : c ≠ '_' := by
    rintro rfl
    rw [digit?_underscore] at h
    cases h
  rw [moreDigits]
  · rw [h]
  · rintro _ _ rfl
    exact absurd rfl hc

/-- A single underscore between digits is passed over. -/
theorem moreDigits_underscore (h : digit? base c = some d) :
    moreDigits base ('_' :: c :: cs) = moreDigits base (c :: cs) := by
  rw [moreDigits_cons h, moreDigits, h]

/-- Behind a first digit, a run of digits is read to its end. -/
theorem moreDigits_of_run (h : Run base ds cs) (hrest : Stops base rest) :
    moreDigits base (cs ++ rest) = (ds, rest) := by
  induction h with
  | single h => rw [List.cons_append, moreDigits_cons h, List.nil_append, moreDigits_of_stops hrest]
  | next h _ ih => rw [List.cons_append, moreDigits_cons h, ih]
  | spaced h hs ih =>
    obtain ⟨c', d', cs', rfl, hd'⟩ := hs.exists_cons
    rw [List.cons_append, moreDigits_cons h, List.cons_append, List.cons_append,
      moreDigits_underscore hd', ← List.cons_append, ih]

theorem digits?_of_run (h : Run base ds cs) (hrest : Stops base rest) :
    digits? base (cs ++ rest) = some (ds, rest) := by
  have hmore := moreDigits_of_run h hrest
  obtain ⟨c, d, cs, rfl, hd⟩ := h.exists_cons
  rw [List.cons_append, moreDigits_cons hd] at hmore
  rw [List.cons_append, digits?, hd, Option.map_some]
  exact congrArg some hmore

end Digits

/-! ### Integers -/

/-- Digits of base ten without a leading zero. -/
inductive Plain : List Nat → List Char → Prop
  | zero : Plain [0] ['0']
  | run {ds : List Nat} {cs : List Char} (h : Run 10 ds cs) (hhead : cs.head? ≠ some '0') :
    Plain ds cs

/-- A number and what it is written as. -/
inductive IsInteger : Nat → List Char → Prop
  | decimal {ds : List Nat} {cs : List Char} (h : Plain ds cs) : IsInteger (ofDigits 10 ds) cs
  | positive {ds : List Nat} {cs : List Char} (h : Plain ds cs) :
    IsInteger (ofDigits 10 ds) ('+' :: cs)
  | based {base : Nat} {mark : Char} {ds : List Nat} {cs : List Char}
    (hmark : (base, mark) ∈ [(16, 'x'), (8, 'o'), (2, 'b')]) (h : Run base ds cs) :
    IsInteger (ofDigits base ds) ('0' :: mark :: cs)

/-- The characters behind which a value ends. -/
def endsValue (c : Char) : Bool :=
  isBlank c || c == '#' || c == '\n' || c == '\r'

/-- What follows ends a value. -/
def Ends (rest : List Char) : Prop :=
  ∀ c ∈ rest.head?, endsValue c = true

/-! ### Dates and floats

Both are looked for before an integer is, and both begin with digits. So that an integer is not
taken for one of them is a fact about the character behind its digits.
-/

section Others

variable {n m : Nat} {c : Char} {ds : List Nat} {cs rest : List Char}

/-- A fixed number of digits is a part of all that follow each other. -/
theorem dropWhile_of_fixedDigits? (h : fixedDigits? n cs = some (m, rest)) :
    cs.dropWhile Char.isDigit = rest.dropWhile Char.isDigit := by
  unfold fixedDigits? at h
  split at h
  · next hdigits =>
    cases h
    calc cs.dropWhile Char.isDigit
        = (cs.take n ++ cs.drop n).dropWhile Char.isDigit := by rw [List.take_append_drop]
      _ = (cs.drop n).dropWhile Char.isDigit :=
        List.dropWhile_append_of_pos (List.all_eq_true.1 hdigits.2)
  · cases h

theorem eq_of_expect? (h : expect? c cs = some rest) : cs = c :: rest := by
  unfold expect? at h
  split at h
  · split at h
    · next heq =>
      cases h
      rw [heq]
    · cases h
  · cases h

/-- A date or a time goes on behind its first digits with a hyphen or a colon. -/
theorem dateTime?_eq_none
    (h : ∀ c ∈ (cs.dropWhile Char.isDigit).head?, c ≠ '-' ∧ c ≠ ':') : dateTime? cs = none := by
  have hdate : date? cs = none := by
    rw [Option.eq_none_iff_forall_not_mem]
    intro rest hrest
    obtain ⟨⟨year, cs₁⟩, hyear, hrest⟩ := Option.bind_eq_some_iff.1 hrest
    obtain ⟨cs₂, hhyphen, -⟩ := Option.bind_eq_some_iff.1 hrest
    rw [dropWhile_of_fixedDigits? hyear, eq_of_expect? hhyphen] at h
    exact (h '-' rfl).1 rfl
  have htime : time? cs = none := by
    rw [Option.eq_none_iff_forall_not_mem]
    intro rest hrest
    obtain ⟨⟨hours, cs₁⟩, hhours, hrest⟩ := Option.bind_eq_some_iff.1 hrest
    obtain ⟨cs₂, hcolon, -⟩ := Option.bind_eq_some_iff.1 hrest
    obtain ⟨hhours, -⟩ := Option.filter_eq_some_iff.1 hhours
    rw [dropWhile_of_fixedDigits? hhours, eq_of_expect? hcolon] at h
    exact (h ':' rfl).2 rfl
  rw [dateTime?, hdate, htime]

/-- A float goes on behind its first digits with a point or an exponent. -/
theorem decimalFloat?_eq_none (h : plainDigits? (sign cs).2 = some (ds, rest))
    (hrest : ∀ c ∈ rest.head?, c ≠ '.' ∧ c ≠ 'e' ∧ c ≠ 'E') : decimalFloat? cs = none := by
  have hfraction : fraction? rest = none := by
    unfold fraction?
    split
    · exact absurd rfl (hrest _ rfl).1
    · rfl
  have hexponent : exponent? rest = none := by
    unfold exponent?
    split
    · exact if_neg (not_or.2 (hrest _ rfl).2)
    · rfl
  simp [decimalFloat?, h, hfraction, hexponent]

/-- What begins with neither of their letters is no infinity and no other named float. -/
theorem namedFloat?_eq_none (h : ∀ c ∈ (sign cs).2.head?, c ≠ 'i' ∧ c ≠ 'n') :
    namedFloat? cs = none := by
  unfold namedFloat?
  split
  · next heq => exact absurd rfl (h 'i' (by rw [heq]; rfl)).1
  · next heq => exact absurd rfl (h 'n' (by rw [heq]; rfl)).2
  · rfl

end Others

/-! ### Reading what is written

The result puts the three together for each base, and it is said of any text behind the number that
does not go on with it.
-/

section Reading

variable {n : Nat} {c : Char} {ds : List Nat} {cs rest : List Char}

/-- What is read up to the first character that is not in a class. -/
theorem forall_head?_dropWhile {p : Char → Bool} {q : Char → Prop} (hcs : ∀ c ∈ cs, q c)
    (hrest : ∀ c ∈ rest.head?, p c = false ∧ q c) :
    ∀ c ∈ ((cs ++ rest).dropWhile p).head?, q c := by
  induction cs with
  | nil =>
    cases rest with
    | nil => nofun
    | cons c rest =>
      obtain ⟨hp, hq⟩ := hrest c rfl
      rw [List.nil_append, List.dropWhile_cons, if_neg (by simp [hp])]
      rintro _ ⟨⟩
      exact hq
  | cons c cs ih =>
    obtain ⟨hc, hcs⟩ := List.forall_mem_cons.1 hcs
    rw [List.cons_append, List.dropWhile_cons]
    split
    · exact ih hcs
    · rintro _ ⟨⟩
      exact hc

theorem isBlank_iff : isBlank c = true ↔ c = ' ' ∨ c = '\t' := by
  simp [isBlank]

theorem endsValue_iff :
    endsValue c = true ↔ c = ' ' ∨ c = '\t' ∨ c = '#' ∨ c = '\n' ∨ c = '\r' := by
  simp [endsValue, isBlank_iff, or_assoc]

/-- No character stands there that goes on with a value. -/
theorem Ends.ne (h : Ends rest) (hc : endsValue c = false) : ∀ c' ∈ rest.head?, c' ≠ c := by
  rintro _ hmem rfl
  rw [h _ hmem] at hc
  cases hc

theorem Ends.stops (h : Ends rest) (base : Nat) : Stops base rest := by
  intro c hc
  refine ⟨h.ne rfl c hc, ?_⟩
  rcases endsValue_iff.1 (h c hc) with rfl | rfl | rfl | rfl | rfl <;> rfl

theorem Plain.exists_cons (h : Plain ds cs) :
    ∃ c d cs', cs = c :: cs' ∧ digit? 10 c = some d := by
  cases h with
  | zero => exact ⟨'0', 0, [], rfl, rfl⟩
  | run h => exact h.exists_cons

/-- Digits without a leading zero are read to their end. -/
theorem plainDigits?_of_plain (h : Plain ds cs) (hrest : Stops 10 rest) :
    plainDigits? (cs ++ rest) = some (ds, rest) := by
  cases h with
  | zero => rfl
  | run h hhead =>
    have hdigits := digits?_of_run h hrest
    unfold plainDigits?
    split
    · next cs' heq =>
      obtain ⟨c, d, tail, rfl, hd⟩ := h.exists_cons
      cases heq
      exact absurd rfl hhead
    · exact hdigits

theorem sign_of_digit? {d : Nat} (h : digit? 10 c = some d) :
    sign (c :: cs) = (false, c :: cs) := by
  unfold sign
  split
  · next heq =>
    cases heq
    cases h
  · next heq =>
    cases heq
    cases h
  · rfl

/-- The digits of an integer in base ten, behind a plus sign or not. -/
theorem plainDigits?_sign (h : Plain ds cs) (hrest : Ends rest) :
    sign (cs ++ rest) = (false, cs ++ rest) ∧
      plainDigits? (cs ++ rest) = some (ds, rest) := by
  refine ⟨?_, plainDigits?_of_plain h (hrest.stops 10)⟩
  obtain ⟨c, d, cs, rfl, hd⟩ := h.exists_cons
  rw [List.cons_append, sign_of_digit? hd]

/-- Without a mark of another base an integer is decimal. -/
theorem integer?_eq_decimalInteger?
    (h : ∀ mark tail, cs = '0' :: mark :: tail → mark ≠ 'x' ∧ mark ≠ 'o' ∧ mark ≠ 'b') :
    integer? cs = decimalInteger? cs := by
  unfold integer?
  split
  · exact absurd rfl (h _ _ rfl).1
  · exact absurd rfl (h _ _ rfl).2.1
  · exact absurd rfl (h _ _ rfl).2.2
  · rfl

/-- An integer is in range if it is one of 64 bits. -/
theorem fits_integer_iff {n : Int} :
    (Value.integer n).fits = true ↔ -(greatest + 1 : Int) ≤ n ∧ n ≤ greatest := by
  rw [Value.fits, Bool.and_eq_true, decide_eq_true_eq, decide_eq_true_eq]

/-- An integer that is not greater than the greatest one is in range. -/
theorem fits_integer {n : Nat} (h : n ≤ greatest) : (Value.integer n).fits = true :=
  fits_integer_iff.2 ⟨by omega, by omega⟩

/-- A decimal integer is read as the number of its digits. -/
theorem decimalInteger?_of_plainDigits? (hsign : (sign cs).1 = false)
    (hdigits : plainDigits? (sign cs).2 = some (ds, rest)) :
    decimalInteger? cs = some ((ofDigits 10 ds : Int), rest) := by
  rw [decimalInteger?, hdigits, hsign]
  rfl

/-- Behind the mark of its base an integer is read as the number of its digits. -/
theorem basedInteger?_of_run {base : Nat} (h : Run base ds cs) (hrest : Ends rest) :
    basedInteger? base (cs ++ rest) = some ((ofDigits base ds : Int), rest) := by
  rw [basedInteger?, digits?_of_run h (hrest.stops base), Option.map_some]

theorem base_and_mark {base : Nat} {mark : Char}
    (h : (base, mark) ∈ [(16, 'x'), (8, 'o'), (2, 'b')]) :
    base = 16 ∧ mark = 'x' ∨ base = 8 ∧ mark = 'o' ∨ base = 2 ∧ mark = 'b' := by
  simpa using h

/-- The characters of an integer. None of them is a hyphen or a colon. -/
theorem IsInteger.mem (h : IsInteger n cs) : ∀ c ∈ cs, c ≠ '-' ∧ c ≠ ':' := by
  have hrun {base : Nat} {ds : List Nat} {cs : List Char} (h : Run base ds cs) :
      ∀ c ∈ cs, c ≠ '-' ∧ c ≠ ':' := by
    intro c hc
    rcases h.mem c hc with rfl | ⟨d, hd⟩
    · decide
    · constructor <;> (rintro rfl; cases hd)
  have hplain {ds : List Nat} {cs : List Char} (h : Plain ds cs) :
      ∀ c ∈ cs, c ≠ '-' ∧ c ≠ ':' := by
    cases h with
    | zero => simp
    | run h => exact hrun h
  cases h with
  | decimal h => exact hplain h
  | positive h => exact List.forall_mem_cons.2 ⟨by decide, hplain h⟩
  | based hmark h =>
    refine List.forall_mem_cons.2 ⟨by decide, List.forall_mem_cons.2 ⟨?_, hrun h⟩⟩
    rcases base_and_mark hmark with ⟨-, rfl⟩ | ⟨-, rfl⟩ | ⟨-, rfl⟩ <;> decide

/-- Every spelling of an integer is read as that integer. -/
theorem IsInteger.integer? (h : IsInteger n cs) (hrest : Ends rest) :
    integer? (cs ++ rest) = some ((n : Int), rest) := by
  cases h with
  | decimal h =>
    obtain ⟨hsign, hdigits⟩ := plainDigits?_sign h hrest
    rw [integer?_eq_decimalInteger?]
    · exact decimalInteger?_of_plainDigits? (by rw [hsign]) (by rw [hsign]; exact hdigits)
    · intro mark tail heq
      cases h with
      | zero =>
        obtain rfl : rest = mark :: tail := by simpa using heq
        exact ⟨hrest.ne rfl _ rfl, hrest.ne rfl _ rfl, hrest.ne rfl _ rfl⟩
      | run h hhead =>
        obtain ⟨c, d, cs, rfl, -⟩ := h.exists_cons
        obtain rfl := (List.cons.inj heq).1
        exact absurd rfl hhead
  | positive h =>
    obtain ⟨-, hdigits⟩ := plainDigits?_sign h hrest
    exact decimalInteger?_of_plainDigits? rfl hdigits
  | based hmark h =>
    rcases base_and_mark hmark with ⟨rfl, rfl⟩ | ⟨rfl, rfl⟩ | ⟨rfl, rfl⟩ <;>
      exact basedInteger?_of_run h hrest

/-- No spelling of an integer is a float. -/
theorem IsInteger.float?_eq_none (h : IsInteger n cs) (hrest : Ends rest) :
    float? (cs ++ rest) = none := by
  have hends : ∀ c ∈ rest.head?, c ≠ '.' ∧ c ≠ 'e' ∧ c ≠ 'E' := fun c hc ↦
    ⟨hrest.ne rfl c hc, hrest.ne rfl c hc, hrest.ne rfl c hc⟩
  have hplain {ds : List Nat} {cs : List Char} (h : Plain ds cs) :
      ∀ c ∈ (cs ++ rest).head?, c ≠ 'i' ∧ c ≠ 'n' := by
    obtain ⟨c, d, cs, rfl, hd⟩ := h.exists_cons
    rintro _ ⟨⟩
    constructor <;> (rintro rfl; cases hd)
  suffices hnone : decimalFloat? (cs ++ rest) = none ∧ namedFloat? (cs ++ rest) = none by
    rw [float?, hnone.1, hnone.2]
    rfl
  cases h with
  | decimal h =>
    obtain ⟨hsign, hdigits⟩ := plainDigits?_sign h hrest
    have hsecond : (sign (cs ++ rest)).2 = cs ++ rest := by rw [hsign]
    exact ⟨decimalFloat?_eq_none (by rwa [hsecond]) hends,
      namedFloat?_eq_none (by rw [hsecond]; exact hplain h)⟩
  | positive h =>
    obtain ⟨-, hdigits⟩ := plainDigits?_sign h hrest
    exact ⟨decimalFloat?_eq_none hdigits hends, namedFloat?_eq_none (hplain h)⟩
  | based hmark h =>
    refine ⟨decimalFloat?_eq_none rfl ?_, namedFloat?_eq_none ?_⟩
    · rintro _ ⟨⟩
      rcases base_and_mark hmark with ⟨-, rfl⟩ | ⟨-, rfl⟩ | ⟨-, rfl⟩ <;> decide
    · rintro _ ⟨⟩
      decide

/-- An integer is read as what it is written for, if it is not greater than the greatest one. -/
theorem number?_of_isInteger (h : IsInteger n cs) (hrest : Ends rest) (hrange : n ≤ greatest)
    (bounds : Bounds) : number? bounds (cs ++ rest) = some (.integer n, rest) := by
  have hdigit : ∀ c ∈ rest.head?, c.isDigit = false := fun c hc ↦ by
    rcases endsValue_iff.1 (hrest c hc) with rfl | rfl | rfl | rfl | rfl <;> rfl
  have hdate : dateTime? (cs ++ rest) = none :=
    dateTime?_eq_none (forall_head?_dropWhile h.mem fun c hc ↦
      ⟨hdigit c hc, hrest.ne rfl c hc, hrest.ne rfl c hc⟩)
  have hadmits : bounds.admits (.integer n) = true := by
    cases bounds with
    | kept => exact fits_integer hrange
    | lifted => rfl
  rw [number?, hdate, numeral?, h.float?_eq_none hrest, h.integer? hrest, Option.map_some]
  exact Option.filter_some_pos hadmits

end Reading

/-! ### Writing a number

That each number has a spelling is needed to show that the documents which the results are about
exist.
-/

theorem Run.concat {base d : Nat} {c : Char} {ds : List Nat} {cs : List Char} (h : Run base ds cs)
    (hd : digit? base c = some d) : Run base (ds ++ [d]) (cs ++ [c]) := by
  induction h with
  | single h => exact .next h (.single hd)
  | next h _ ih => exact .next h ih
  | spaced h _ ih => exact .spaced h ih

theorem digit?_digitChar {n : Nat} (h : n < 10) : digit? 10 n.digitChar = some n := by
  revert n
  decide

/-- Every number has a run of decimal digits, without a zero in front unless it is zero. -/
theorem run_toDigits (n : Nat) : ∃ ds, Run 10 ds (Nat.toDigits 10 n) ∧ ofDigits 10 ds = n ∧
    (0 < n → (Nat.toDigits 10 n).head? ≠ some '0') := by
  induction n using Nat.strongRecOn with
  | _ n ih =>
    by_cases hn : n < 10
    · rw [Nat.toDigits_of_lt_base hn]
      refine ⟨[n], .single (digit?_digitChar hn), by simp [ofDigits], fun hpos h ↦ ?_⟩
      rw [List.head?_cons, Option.some.injEq, Nat.digitChar_eq_zero] at h
      omega
    · obtain ⟨ds, hrun, hvalue, hhead⟩ := ih (n / 10) (by omega)
      rw [Nat.toDigits_of_base_le (by decide) (by omega)]
      refine ⟨ds ++ [n % 10], hrun.concat (digit?_digitChar (by omega)), ?_, fun _ ↦ ?_⟩
      · rw [ofDigits] at hvalue
        rw [ofDigits, List.foldl_append, hvalue, List.foldl_cons, List.foldl_nil]
        omega
      · obtain ⟨c, cs, hcs⟩ := List.exists_cons_of_ne_nil (@Nat.toDigits_ne_nil (n / 10) 10)
        rw [hcs] at hhead ⊢
        exact hhead (by omega)

/-- The digits of a number are one way to write it. -/
theorem isInteger_toDigits (n : Nat) : IsInteger n (Nat.toDigits 10 n) := by
  obtain ⟨ds, hrun, hvalue, hhead⟩ := run_toDigits n
  rcases Nat.eq_zero_or_pos n with rfl | hpos
  · exact .decimal .zero
  · have hdecimal := IsInteger.decimal (.run hrun (hhead hpos))
    rwa [hvalue] at hdecimal

end Offload.Toml
