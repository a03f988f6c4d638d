import Offload.Proofs.Toml.Document
import Offload.Proofs.Toml.Number

/-!
# Documents of single lines

A document in which every line sets one key to a truth value or an integer, or is blank, is read as
just these keys and values in their order (`document?_of_written`). Blanks may stand around the key
and the value, and each line may end in a comment and in a line feed with or without a carriage
return (`Written`).

Every piece of a line is described by the texts that it may be, and a lemma for each says that the
scanner takes all of it and stops in front of what follows. The side conditions say what follows: a
scanner of a key stops where no character of a key stands, and one of a number where a value ends.
-/

namespace Offload.Toml

/-! ### How it is written

The relations below build a text from its end. A line stands in front of the lines behind it, so
that a piece has the text that follows it as an argument, and no splitting of texts is needed.
-/

/-- Blanks within a line. -/
def Blanks (cs : List Char) : Prop :=
  ∀ c ∈ cs, isBlank c = true

/-- A comment, or none. -/
inductive IsComment : List Char → Prop
  | none : IsComment []
  | some {cs : List Char} (h : ∀ c ∈ cs, isCommentChar c = true) : IsComment ('#' :: cs)

/-- A line break in front of a text. The last line needs none. -/
inductive IsBreak : List Char → List Char → Prop
  | last : IsBreak [] []
  | feed {cs : List Char} : IsBreak ['\n'] cs
  | return {cs : List Char} : IsBreak ['\r', '\n'] cs

/-- The end of a line, in front of the lines behind it: blanks, a comment and a line break. -/
inductive IsLineEnd : List Char → List Char → Prop
  | mk {blanks comment br cs : List Char} (hblanks : Blanks blanks) (hcomment : IsComment comment)
    (hbreak : IsBreak br cs) : IsLineEnd (blanks ++ (comment ++ (br ++ cs))) cs

/-- A truth value or an integer of 64 bits that is not negative, and what it is written as. -/
inductive IsValue : Value → List Char → Prop
  | boolean (b : Bool) : IsValue (.boolean b) (toString b).toList
  | integer {n : Nat} {cs : List Char} (h : IsInteger n cs) (hrange : n < 2 ^ 63) :
    IsValue (.integer n) cs

/-- A key without quotes. -/
def IsBareKey (key : String) : Prop :=
  key.toList ≠ [] ∧ ∀ c ∈ key.toList, isBare c = true

/-- A line that sets a key, in front of the lines behind it. -/
inductive IsPair (key : String) (value : Value) : List Char → List Char → Prop
  | mk {indent before after written rest cs : List Char} (hkey : IsBareKey key)
    (hindent : Blanks indent) (hbefore : Blanks before) (hafter : Blanks after)
    (hvalue : IsValue value written) (hend : IsLineEnd rest cs) :
    IsPair key value
      (indent ++ (key.toList ++ (before ++ '=' :: (after ++ (written ++ rest))))) cs

/-- Keys with values, each of them on a line of its own. -/
inductive Written : List (String × Value) → List Char → Prop
  | nil : Written [] []
  | layout {es : List (String × Value)} {line cs : List Char} (hend : IsLineEnd line cs)
    (h : Written es cs) : Written es line
  | pair {key : String} {value : Value} {es : List (String × Value)} {line cs : List Char}
    (hpair : IsPair key value line cs) (h : Written es cs) : Written ((key, value) :: es) line

/-! ### Ends of lines

A comment goes on to a line break and not beyond. What comes first behind a value decides that the
value is over, and there are few characters that can.
-/

section LineEnds

variable {br cs line : List Char}

/-- Neither blanks nor a comment go on with a line break. -/
theorem IsBreak.head? (h : IsBreak br cs) : ∀ c ∈ (br ++ cs).head?, c = '\n' ∨ c = '\r' := by
  cases h with
  | last => nofun
  | feed => exact fun c hc ↦ .inl (Option.some.inj hc).symm
  | «return» => exact fun c hc ↦ .inr (Option.some.inj hc).symm

theorem IsBreak.skipComment (h : IsBreak br cs) : skipComment (br ++ cs) = br ++ cs := by
  cases h <;> rfl

theorem skipBlanks_of_blanks {blanks rest : List Char} (h : Blanks blanks)
    (hrest : ∀ c ∈ rest.head?, isBlank c = false) : skipBlanks (blanks ++ rest) = rest :=
  Text.dropWhile_run h hrest

/-- A comment and its line break begin with one of three characters. -/
theorem IsComment.head? {comment : List Char} (h : IsComment comment) (hbreak : IsBreak br cs) :
    ∀ c ∈ (comment ++ (br ++ cs)).head?, c = '#' ∨ c = '\n' ∨ c = '\r' := by
  cases h with
  | none => exact fun c hc ↦ .inr (hbreak.head? c hc)
  | some => exact fun c hc ↦ .inl (Option.some.inj hc).symm

theorem IsComment.isBlank_head? {comment : List Char} (h : IsComment comment)
    (hbreak : IsBreak br cs) : ∀ c ∈ (comment ++ (br ++ cs)).head?, isBlank c = false := by
  intro c hc
  rcases h.head? hbreak c hc with rfl | rfl | rfl <;> rfl

theorem IsComment.skipComment {comment : List Char} (h : IsComment comment)
    (hbreak : IsBreak br cs) : skipComment (comment ++ (br ++ cs)) = br ++ cs := by
  cases h with
  | none => exact hbreak.skipComment
  | some h =>
    refine Text.dropWhile_run h fun c hc ↦ ?_
    rcases hbreak.head? c hc with rfl | rfl <;> rfl

/-- The end of a line is read as such, and the next line is left. -/
theorem lineEnd?_of_isLineEnd (h : IsLineEnd line cs) : lineEnd? line = some cs := by
  obtain ⟨hblanks, hcomment, hbreak⟩ := h
  rw [lineEnd?, skipBlanks_of_blanks hblanks (hcomment.isBlank_head? hbreak),
    hcomment.skipComment hbreak]
  cases hbreak <;> rfl

/-- What stands at the end of a line ends a value. -/
theorem IsLineEnd.ends (h : IsLineEnd line cs) : Ends line := by
  obtain ⟨hblanks, hcomment, hbreak⟩ := h
  rename_i blanks comment br
  cases blanks with
  | nil =>
    intro c hc
    rcases hcomment.head? hbreak c hc with rfl | rfl | rfl <;> rfl
  | cons c blanks =>
    rintro _ ⟨⟩
    rw [endsValue, hblanks c (List.mem_cons_self ..)]
    rfl

end LineEnds

/-! ### Values -/

section Values

variable {n : Nat} {value : Value} {cs rest : List Char}

/-- An integer begins with a plus sign or with a digit. -/
theorem IsInteger.exists_cons (h : IsInteger n cs) :
    ∃ c cs', cs = c :: cs' ∧ (c = '+' ∨ ∃ d, digit? 10 c = some d) := by
  cases h with
  | decimal h =>
    obtain ⟨c, d, cs', rfl, hd⟩ := h.exists_cons
    exact ⟨c, cs', rfl, .inr ⟨d, hd⟩⟩
  | positive => exact ⟨_, _, rfl, .inl rfl⟩
  | based => exact ⟨_, _, rfl, .inr ⟨0, rfl⟩⟩

/-- What opens no level is read alike with any number of levels. -/
theorem value?_eq_scalar? (h : ∀ c ∈ cs.head?, c ≠ '[' ∧ c ≠ '{') (bounds : Bounds)
    (levels : Nat) : value? bounds levels cs = scalar? bounds cs := by
  unfold value?
  split
  case h_5 => rfl
  all_goals simp at h

/-- What begins as no text and no truth value is a number or nothing. -/
theorem scalar?_eq_number? {c : Char} (h : c ∉ ['"', '\'', 't', 'f']) (bounds : Bounds) :
    scalar? bounds (c :: cs) = number? bounds (c :: cs) := by
  unfold scalar?
  split
  case h_5 => rfl
  all_goals
    next heq =>
      obtain rfl := (List.cons.inj heq).1
      exact absurd (by decide) h

/-- An integer in range is read as its number, whatever levels are left. -/
theorem IsInteger.value? (h : IsInteger n cs) (hrest : Ends rest) (hrange : n < 2 ^ 63)
    (bounds : Bounds) (levels : Nat) :
    value? bounds levels (cs ++ rest) = some (.integer n, rest) := by
  rw [← number?_of_isInteger h hrest (Nat.le_sub_one_of_lt hrange) bounds]
  obtain ⟨c, cs, rfl, hc⟩ := h.exists_cons
  have hne (x : Char) (hplus : x ≠ '+') (hdigit : digit? 10 x = none) : c ≠ x := by
    rintro rfl
    rcases hc with rfl | ⟨d, hd⟩
    · exact hplus rfl
    · rw [hdigit] at hd
      cases hd
  rw [List.cons_append, value?_eq_scalar? (by
    rintro _ ⟨⟩
    exact ⟨hne '[' (by decide) rfl, hne '{' (by decide) rfl⟩), scalar?_eq_number?]
  simp only [List.mem_cons, List.not_mem_nil, or_false, not_or]
  exact ⟨hne '"' (by decide) rfl, hne '\'' (by decide) rfl, hne 't' (by decide) rfl,
    hne 'f' (by decide) rfl⟩

/-- A value is read as what it is written for. -/
theorem value?_of_isValue (h : IsValue value cs) (hrest : Ends rest) (bounds : Bounds)
    (levels : Nat) : value? bounds levels (cs ++ rest) = some (value, rest) := by
  cases h with
  | boolean b => cases b <;> cases levels <;> rfl
  | integer h hrange => exact h.value? hrest hrange bounds levels

theorem IsValue.isBlank_head? (h : IsValue value cs) (rest : List Char) :
    ∀ c ∈ (cs ++ rest).head?, isBlank c = false := by
  cases h with
  | boolean b => cases b <;> (rintro _ ⟨⟩; rfl)
  | integer h =>
    obtain ⟨c, cs, rfl, hc⟩ := h.exists_cons
    rintro _ ⟨⟩
    rw [← Bool.not_eq_true, isBlank_iff]
    rintro (rfl | rfl) <;> rcases hc with hc | ⟨d, hd⟩ <;> cases ‹_›

end Values

/-! ### Lines

The reader has as much fuel as the text has characters. A line that is read takes one of them at
least, so the fuel is enough for all lines.
-/

section Lines

variable {r r' : Reading} {key : String} {value : Value} {before line cs : List Char} {fuel : Nat}

theorem ne_of_isBare {c x : Char} (hc : isBare c = true) (hx : isBare x = false) : c ≠ x := by
  rintro rfl
  rw [hc] at hx
  cases hx

theorem IsBareKey.exists_cons (h : IsBareKey key) :
    ∃ c cs, key.toList = c :: cs ∧ isBare c = true := by
  obtain ⟨c, cs, hcs⟩ := List.exists_cons_of_ne_nil h.1
  exact ⟨c, cs, hcs, h.2 c (by simp [hcs])⟩

theorem quoted?_eq_none {c : Char} (hc : isBare c = true) : quoted? (c :: cs) = none := by
  unfold quoted?
  split
  · next heq => exact absurd (List.cons.inj heq).1 (ne_of_isBare hc rfl)
  · next heq => exact absurd (List.cons.inj heq).1 (ne_of_isBare hc rfl)
  · rfl

/-- A bare key is one segment, up to where it ends. -/
theorem segment?_of_isBareKey {rest : List Char} (h : IsBareKey key)
    (hrest : ∀ c ∈ rest.head?, isBare c = false) :
    segment? (key.toList ++ rest) = some (key, rest) := by
  have hquoted : quoted? (key.toList ++ rest) = none := by
    obtain ⟨c, cs, hcs, hc⟩ := h.exists_cons
    rw [hcs, List.cons_append, quoted?_eq_none hc]
  rw [segment?, hquoted]
  dsimp only
  rw [Text.takeWhile_run h.2 hrest, Text.dropWhile_run h.2 hrest, String.ofList_toList, if_neg]
  simpa using h.1

theorem isBlank_of_isBare {c : Char} (hc : isBare c = true) : isBlank c = false := by
  rw [← Bool.not_eq_true, isBlank_iff]
  rintro (rfl | rfl) <;> cases hc

theorem skipBlanks_of_isBare {indent : List Char} {c : Char} (hindent : Blanks indent)
    (hc : isBare c = true) : skipBlanks (indent ++ c :: cs) = c :: cs :=
  skipBlanks_of_blanks hindent (by rintro _ ⟨⟩; exact isBlank_of_isBare hc)

/-- Any text has room for the levels that a reader allows. -/
theorem Bounds.depthLimit_le_levels (bounds : Bounds) (cs : List Char) :
    depthLimit ≤ bounds.levels cs := by
  cases bounds with
  | kept => exact Nat.le_refl _
  | lifted => exact Nat.le_add_right ..

/-- A key in front of an equals sign. -/
theorem key?_of_isBareKey (bounds : Bounds) (hkey : IsBareKey key) (hbefore : Blanks before) :
    key? bounds (key.toList ++ (before ++ '=' :: cs)) = some (([], key), '=' :: cs) := by
  have hequals : skipBlanks (before ++ '=' :: cs) = '=' :: cs :=
    skipBlanks_of_blanks hbefore (by rintro _ ⟨⟩; rfl)
  have hsegment : segment? (key.toList ++ (before ++ '=' :: cs)) =
      some (key, before ++ '=' :: cs) := by
    refine segment?_of_isBareKey hkey ?_
    cases before with
    | nil =>
      rintro _ ⟨⟩
      rfl
    | cons c before =>
      rintro _ ⟨⟩
      rcases isBlank_iff.1 (hbefore c (List.mem_cons_self ..)) with rfl | rfl <;> rfl
  have hsegments (fuel : Nat) : segments? (fuel + 1) (key.toList ++ (before ++ '=' :: cs)) =
      some ([key], '=' :: cs) := by
    obtain ⟨c, tail, hcons, hc⟩ := hkey.exists_cons
    have hskip := @skipBlanks_of_isBare (tail ++ (before ++ '=' :: cs)) [] c nofun hc
    rw [List.nil_append, ← List.cons_append, ← hcons] at hskip
    rw [segments?, hskip, hsegment]
    simp only [Option.bind_eq_bind, Option.bind_some, hequals]
    rfl
  have hroom := bounds.depthLimit_le_levels (key.toList ++ (before ++ '=' :: cs))
  obtain ⟨fuel, hlevels⟩ := Nat.exists_eq_succ_of_ne_zero (Nat.ne_zero_of_lt hroom)
  rw [key?, hlevels, hsegments]
  rfl

/-- A line that begins with a key sets it. -/
theorem line?_of_isBare (bounds : Bounds) {c : Char} (hc : isBare c = true) :
    line? bounds r (c :: cs) =
      (pair? bounds (value? bounds (bounds.levels (c :: cs))) (c :: cs)).bind
        fun ((path, key, value), rest) => (lineEnd? rest).bind fun rest =>
          (r.pair path key value).map fun r => (r, rest) := by
  have hbreak : lineBreak? (c :: cs) = none := by
    unfold lineBreak?
    split
    · next heq => exact absurd (List.cons.inj heq).1 (ne_of_isBare hc rfl)
    · next heq => exact absurd (List.cons.inj heq).1 (ne_of_isBare hc rfl)
    · rfl
  unfold line?
  split
  · next heq => exact absurd (List.cons.inj heq).1 (ne_of_isBare hc rfl)
  · next heq => exact absurd (List.cons.inj heq).1 (ne_of_isBare hc rfl)
  · next heq => exact absurd (List.cons.inj heq).1 (ne_of_isBare hc rfl)
  · rw [hbreak]
    simp only [Option.bind_eq_bind, Option.map_eq_bind]
    rfl

/-- What is read of a line that sets a key. -/
theorem IsPair.line? (h : IsPair key value line cs) (hpair : r.pair [] key value = some r') :
    line? .kept r (skipBlanks line) = some (r', cs) := by
  obtain ⟨hkey, hindent, hbefore, hafter, hvalue, hend⟩ := h
  rename_i indent before after written rest
  have hskip := skipBlanks_of_blanks hafter (hvalue.isBlank_head? rest)
  have hpair? : pair? .kept (value? .kept depthLimit)
      (key.toList ++ (before ++ '=' :: (after ++ (written ++ rest)))) =
        some (([], key, value), rest) := by
    simp only [pair?, key?_of_isBareKey .kept hkey hbefore, expect?, if_pos, Option.bind_eq_bind,
      Option.bind_some, hskip, value?_of_isValue hvalue hend.ends .kept depthLimit]
    rfl
  obtain ⟨c, tail, hcons, hc⟩ := hkey.exists_cons
  rw [hcons, List.cons_append] at hpair? ⊢
  rw [skipBlanks_of_isBare hindent hc, line?_of_isBare .kept hc, Bounds.levels, hpair?]
  simp [lineEnd?_of_isLineEnd hend, hpair]

theorem IsLineEnd.length_le (h : IsLineEnd line cs) : cs.length ≤ line.length := by
  obtain ⟨-, -, -⟩ := h
  simp only [List.length_append]
  omega

/-- A line with a key is longer than what follows it. -/
theorem IsPair.length_lt (h : IsPair key value line cs) : cs.length < line.length := by
  obtain ⟨-, -, -, -, -, hend⟩ := h
  have hle := hend.length_le
  simp only [List.length_append, List.length_cons]
  omega

/-- If there is more than blanks, a line is read and then the others. -/
theorem lines?_of_skipBlanks_ne_nil (bounds : Bounds) (h : skipBlanks line ≠ []) :
    lines? bounds (fuel + 1) r line =
      (line? bounds r (skipBlanks line)).bind fun (r, rest) => lines? bounds fuel r rest := by
  rw [lines?]
  split
  · next heq => exact absurd heq h
  · rfl

theorem lines?_of_line? (h : line? .kept r (skipBlanks line) = some (r', cs)) :
    lines? .kept (fuel + 1) r line = lines? .kept fuel r' cs := by
  have hne : skipBlanks line ≠ [] := by
    intro hnil
    rw [hnil] at h
    cases h
  rw [lines?_of_skipBlanks_ne_nil .kept hne, h, Option.bind_some]

theorem lines?_of_skipBlanks_eq_nil (h : skipBlanks line = []) :
    lines? .kept (fuel + 1) r line = some r := by
  rw [lines?, h]

/-- What is read of a line that sets nothing. -/
theorem exists_fuel_of_isLineEnd (h : IsLineEnd line cs) (hfuel : line.length < fuel) :
    ∃ left, cs.length < left ∧ lines? .kept fuel r line = lines? .kept left r cs := by
  obtain ⟨fuel, rfl⟩ := Nat.exists_eq_succ_of_ne_zero (Nat.ne_zero_of_lt hfuel)
  obtain ⟨hblanks, hcomment, hbreak⟩ := h
  rename_i blanks comment br
  have hskip := skipBlanks_of_blanks hblanks (hcomment.isBlank_head? hbreak)
  simp only [List.length_append] at hfuel
  cases hcomment with
  | some h =>
    refine ⟨fuel, by simp only [List.length_cons] at hfuel; omega, lines?_of_line? ?_⟩
    have hend : IsLineEnd ('#' :: (_ ++ (br ++ cs))) cs := .mk (nofun : Blanks []) (.some h) hbreak
    rw [hskip]
    exact Option.map_eq_some_iff.2 ⟨cs, lineEnd?_of_isLineEnd hend, rfl⟩
  | none =>
    cases hbreak with
    | last => exact ⟨1, Nat.one_pos, lines?_of_skipBlanks_eq_nil hskip⟩
    | feed =>
      refine ⟨fuel, by simp only [List.length_cons] at hfuel; omega, lines?_of_line? ?_⟩
      rw [hskip]
      rfl
    | «return» =>
      refine ⟨fuel, by simp only [List.length_cons] at hfuel; omega, lines?_of_line? ?_⟩
      rw [hskip]
      rfl

/-- What is read of a line that sets a key. -/
theorem exists_fuel_of_isPair (h : IsPair key value line cs)
    (hpair : r.pair [] key value = some r') (hfuel : line.length < fuel) :
    ∃ left, cs.length < left ∧ lines? .kept fuel r line = lines? .kept left r' cs := by
  obtain ⟨fuel, rfl⟩ := Nat.exists_eq_succ_of_ne_zero (Nat.ne_zero_of_lt hfuel)
  have hlt := h.length_lt
  exact ⟨fuel, by omega, lines?_of_line? (h.line? hpair)⟩

/-- A key that is not there yet goes behind the others. -/
theorem pair_of_not_mem (h : key ∉ r.current.map Prod.fst) :
    r.pair [] key value = some { r with current := r.current ++ [(key, .value value)] } := by
  simp [Reading.pair, Entries.defineAt, Entries.update, Entries.define,
    Entries.find?_eq_none_iff.2 h]

end Lines

/-! ### Documents -/

/-- Keys without quotes can be written down with values that can. -/
theorem exists_written {es : List (String × Value)}
    (h : ∀ e ∈ es, IsBareKey e.1 ∧ ∃ cs, IsValue e.2 cs) : ∃ cs, Written es cs := by
  induction es with
  | nil => exact ⟨[], .nil⟩
  | cons e es ih =>
    obtain ⟨⟨hkey, written, hvalue⟩, hes⟩ := List.forall_mem_cons.1 h
    obtain ⟨cs, hcs⟩ := ih hes
    have hnone : Blanks [] := nofun
    exact ⟨_, .pair (.mk hkey hnone hnone hnone hvalue (.mk hnone .none .feed)) hcs⟩

/-- The entries that the lines stand for. -/
def entriesOf (es : List (String × Value)) : Entries :=
  es.map fun (key, value) => (key, .value value)

/-- Lines are read one after the other, each behind what was read before. -/
theorem lines?_of_written {es : List (String × Value)} {cs : List Char} (h : Written es cs)
    {r : Reading} {fuel : Nat} (hkeys : (r.current.map Prod.fst ++ es.map Prod.fst).Nodup)
    (hfuel : cs.length < fuel) :
    lines? .kept fuel r cs = some { r with current := r.current ++ entriesOf es } := by
  induction h generalizing r fuel with
  | nil =>
    obtain ⟨fuel, rfl⟩ := Nat.exists_eq_succ_of_ne_zero (Nat.ne_zero_of_lt hfuel)
    rw [lines?_of_skipBlanks_eq_nil rfl]
    simp [entriesOf]
  | layout hend _ ih =>
    obtain ⟨left, hleft, hlines⟩ := exists_fuel_of_isLineEnd hend hfuel
    rw [hlines, ih hkeys hleft]
  | @pair key value es line cs hpair _ ih =>
    have hfresh : key ∉ r.current.map Prod.fst := fun hmem ↦
      (List.nodup_append.1 hkeys).2.2 key hmem key (List.mem_cons_self ..) rfl
    obtain ⟨left, hleft, hlines⟩ := exists_fuel_of_isPair hpair (pair_of_not_mem hfresh) hfuel
    rw [hlines, ih (by simpa using hkeys) hleft]
    simp [entriesOf]

/-- A document starts with a blank, the end of a line or a key, and so with no mark. -/
theorem skipMark_of_written {es : List (String × Value)} {cs : List Char} (h : Written es cs) :
    skipMark cs = cs := by
  have hhead : ∀ c ∈ cs.head?, c ≠ '\uFEFF' := by
    cases h with
    | nil => nofun
    | layout hend => exact hend.ends.ne rfl
    | pair hpair =>
      obtain ⟨hkey, hindent, -, -, -, -⟩ := hpair
      rename_i indent _ _ _ _
      cases indent with
      | nil =>
        obtain ⟨c, tail, hcons, hc⟩ := hkey.exists_cons
        rw [List.nil_append, hcons]
        rintro _ ⟨⟩
        exact ne_of_isBare hc rfl
      | cons c indent =>
        rintro _ ⟨⟩
        rcases isBlank_iff.1 (hindent c (List.mem_cons_self ..)) with rfl | rfl <;> decide
  unfold skipMark
  split
  · exact absurd rfl (hhead _ rfl)
  · rfl

/-- A document of single lines with different keys is read as just these. -/
theorem document?_of_written {es : List (String × Value)} {cs : List Char} (h : Written es cs)
    (hkeys : (es.map Prod.fst).Nodup) : document? cs = some (entriesOf es) := by
  rw [document?, read?, skipMark_of_written h,
    lines?_of_written h (by simpa using hkeys) (Nat.lt_succ_self _)]
  rfl

end Offload.Toml
