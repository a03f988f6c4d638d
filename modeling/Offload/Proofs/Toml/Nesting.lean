import Offload.Proofs.Toml.Lines

/-!
# Documents that go beyond the bounds

Two families of documents show where a reader stops, and that the language does not. One has an
array of arrays: every bracket needs a level, so the document is read as long as there are as many
levels as brackets (`read?_nested`). The other has a dotted key: every segment is counted against
the same limit (`read?_dotted`).

The language has all of them. A text is at least as long as the levels and the segments that it
needs, and without bounds it may have as many.

The families are there for the general fact that no bound of a reader is without consequence. For
each number of levels there is a document that needs one more, and the same for segments.
-/

namespace Offload.Toml

/-- An empty array inside of others, with the given number of levels. -/
def brackets (depth : Nat) : List Char :=
  List.replicate depth '[' ++ List.replicate depth ']'

/-- A document with one key, whose value is such an array. -/
def nested (depth : Nat) : List Char :=
  'x' :: ' ' :: '=' :: ' ' :: brackets depth

section Brackets

variable {item : Scan Value} {value : Value} {cs rest : List Char} {fuel : Nat}

theorem value?_zero_bracket (bounds : Bounds) (cs : List Char) :
    value? bounds 0 ('[' :: cs) = none :=
  rfl

/-- With one left, the items of an array have one less. -/
theorem value?_succ_bracket (bounds : Bounds) (levels : Nat) (cs : List Char) :
    value? bounds (levels + 1) ('[' :: cs) =
      (arrayBody (value? bounds levels) (cs.length + 1) cs).map fun rest => (.array, rest) :=
  rfl

theorem arrayBody_bracket (h : item ('[' :: cs) = some (value, ']' :: rest)) :
    arrayBody item (fuel + 1) ('[' :: cs) = some rest := by
  simp [arrayBody, skipLayout, isBlank, h]

theorem arrayBody_eq_none (h : item ('[' :: cs) = none) :
    arrayBody item (fuel + 1) ('[' :: cs) = none := by
  simp [arrayBody, skipLayout, isBlank, h]

theorem brackets_succ (depth : Nat) (rest : List Char) :
    brackets (depth + 1) ++ rest = '[' :: (brackets depth ++ ']' :: rest) := by
  rw [brackets, List.replicate_succ, List.replicate_succ']
  simp [brackets]

/-- Brackets are read as long as each of them has a level. -/
theorem value?_brackets (bounds : Bounds) (depth levels : Nat) (rest : List Char) :
    value? bounds levels (brackets (depth + 1) ++ rest) =
      if depth < levels then some (.array, rest) else none := by
  induction depth generalizing levels rest with
  | zero =>
    rw [brackets_succ]
    cases levels with
    | zero => rw [value?_zero_bracket, if_neg (Nat.lt_irrefl 0)]
    | succ levels =>
      rw [if_pos (Nat.succ_pos levels)]
      rfl
  | succ depth ih =>
    rw [brackets_succ]
    cases levels with
    | zero => rw [value?_zero_bracket, if_neg (Nat.not_lt_zero _)]
    | succ levels =>
      have hitem := ih levels (']' :: rest)
      rw [brackets_succ] at hitem
      rw [value?_succ_bracket, brackets_succ]
      by_cases hlt : depth < levels
      · rw [if_pos hlt] at hitem
        rw [arrayBody_bracket hitem, if_pos (Nat.succ_lt_succ hlt), Option.map_some]
      · rw [if_neg hlt] at hitem
        rw [arrayBody_eq_none hitem, if_neg (mt Nat.lt_of_succ_lt_succ hlt), Option.map_none]

/-- Nested arrays are read just if there are more levels than arrays within the outer one. -/
theorem pair?_nested (bounds : Bounds) (depth levels : Nat) :
    pair? bounds (value? bounds levels) (nested (depth + 1)) =
      if depth < levels then some (([], "x", .array), []) else none := by
  have hbare : IsBareKey "x" := ⟨by decide, List.all_eq_true.1 rfl⟩
  have hblank : Blanks [' '] := List.all_eq_true.1 rfl
  have hkey : key? bounds (nested (depth + 1)) =
      some (([], "x"), '=' :: ' ' :: brackets (depth + 1)) :=
    key?_of_isBareKey bounds hbare hblank
  have hskip : skipBlanks (' ' :: brackets (depth + 1)) = brackets (depth + 1) := by
    rw [← List.append_nil (brackets (depth + 1)), brackets_succ]
    rfl
  have hvalue := value?_brackets bounds depth levels []
  rw [List.append_nil] at hvalue
  simp only [pair?, hkey, expect?, if_pos, Option.bind_eq_bind, Option.bind_some, hskip, hvalue]
  split <;> rfl

/-- Whether the document is read is decided by how deep its value nests. -/
theorem read?_nested (bounds : Bounds) (depth : Nat) : read? bounds (nested (depth + 1)) =
    if depth < bounds.levels (nested (depth + 1)) then some [("x", .value .array)] else none := by
  have hline : line? bounds {} (nested (depth + 1)) =
      if depth < bounds.levels (nested (depth + 1)) then
        some ({ current := [("x", .value .array)] }, []) else none := by
    rw [nested, line?_of_isBare bounds rfl, ← nested, pair?_nested]
    split <;> rfl
  have hskip : skipBlanks (nested (depth + 1)) = nested (depth + 1) := rfl
  have hmark : skipMark (nested (depth + 1)) = nested (depth + 1) := rfl
  have hne : skipBlanks (nested (depth + 1)) ≠ [] := List.cons_ne_nil _ _
  rw [read?, hmark, lines?_of_skipBlanks_ne_nil bounds hne, hskip, hline]
  split <;> rfl

/-- The language has the document, however deep its value nests. -/
theorem read?_nested_lifted (depth : Nat) :
    read? .lifted (nested (depth + 1)) = some [("x", .value .array)] := by
  have hroom : depth < Bounds.lifted.levels (nested (depth + 1)) := by
    simp only [Bounds.levels, nested, brackets, List.length_cons, List.length_append,
      List.length_replicate]
    omega
  rw [read?_nested, if_pos hroom]

/-- A reader has it up to a depth. -/
theorem document?_nested (depth : Nat) : document? (nested (depth + 1)) =
    if depth < depthLimit then some [("x", .value .array)] else none :=
  read?_nested .kept depth

end Brackets

/-! ### Dotted keys

The segments of a key are counted as they are read, against a limit of their own that has the same
value. They are not added to the levels of the value behind the key.
-/

/-- A key with one segment more than the number. -/
def dotted : Nat → List Char → List Char
  | 0, rest => 'x' :: rest
  | more + 1, rest => 'x' :: '.' :: dotted more rest

/-- A document that sets such a key. -/
def dottedPair (more : Nat) : List Char :=
  dotted more " = true".toList

section Dotted

theorem dotted_eq_cons (more : Nat) (rest : List Char) :
    ∃ cs, dotted more rest = 'x' :: cs := by
  cases more <;> exact ⟨_, rfl⟩

/-- A dotted key is longer than the number of its segments. -/
theorem lt_length_dotted (more : Nat) (rest : List Char) : more < (dotted more rest).length := by
  induction more with
  | zero => exact Nat.succ_pos _
  | succ more ih =>
    simp only [dotted, List.length_cons]
    omega

/-- Segments are read as long as there is room for each of them. -/
theorem segments?_dotted (more fuel : Nat) : segments? fuel (dottedPair more) =
    if more < fuel then some (List.replicate (more + 1) "x", "= true".toList) else none := by
  induction more generalizing fuel with
  | zero => cases fuel <;> rfl
  | succ more ih =>
    cases fuel with
    | zero => rfl
    | succ fuel =>
      have hstep : segments? (fuel + 1) (dottedPair (more + 1)) =
          (segments? fuel (dottedPair more)).map fun found => ("x" :: found.1, found.2) := by
        rw [Option.map_eq_bind]
        rfl
      rw [hstep, ih]
      by_cases hlt : more < fuel
      · rw [if_pos hlt, if_pos (Nat.succ_lt_succ hlt)]
        rfl
      · rw [if_neg hlt, if_neg (mt Nat.lt_of_succ_lt_succ hlt), Option.map_none]

/-- A dotted key is read just if its segments are within the levels. -/
theorem key?_dotted (bounds : Bounds) (more : Nat) : key? bounds (dottedPair more) =
    if more < bounds.levels (dottedPair more) then
      some ((List.replicate more "x", "x"), "= true".toList) else none := by
  rw [key?, segments?_dotted]
  split
  · simp [List.replicate_succ']
  · rfl

/-- Along a path through nothing all tables come about. -/
theorem Entries.exists_update_nil {definition : Definition}
    {change : Definition → Entries → Option Entries} {es : Entries}
    (h : change definition [] = some es) (path : List String) :
    ∃ es', update definition change path definition [] = some es' := by
  induction path with
  | nil => exact ⟨es, h⟩
  | cons key path ih =>
    obtain ⟨es', hes'⟩ := ih
    exact ⟨_, Option.bind_eq_some_iff.2 ⟨es', hes', rfl⟩⟩

/-- A dotted key sets its first segment. -/
theorem exists_pair_dotted (more : Nat) (value : Value) : ∃ node,
    Reading.pair {} (List.replicate more "x") "x" value = some { current := [("x", node)] } := by
  cases more with
  | zero => exact ⟨_, rfl⟩
  | succ more =>
    obtain ⟨es, hes⟩ := @Entries.exists_update_nil .dotted
      (fun own es => if own = .dotted ∨ List.replicate (more + 1) "x" = [] then
        es.define "x" value else none) _ (if_pos (.inl rfl)) (List.replicate more "x")
    refine ⟨.table .dotted es, Option.map_eq_some_iff.2 ⟨_, ?_, rfl⟩⟩
    exact Option.bind_eq_some_iff.2 ⟨es, hes, rfl⟩

/-- Whether the document is read is decided by the number of segments. -/
theorem read?_dotted (bounds : Bounds) (more : Nat) : ∃ node, read? bounds (dottedPair more) =
    if more < bounds.levels (dottedPair more) then some [("x", node)] else none := by
  obtain ⟨node, hpair⟩ := exists_pair_dotted more (.boolean true)
  refine ⟨node, ?_⟩
  obtain ⟨cs, hcs⟩ := dotted_eq_cons more " = true".toList
  have hvalue (levels : Nat) :
      value? bounds levels (skipBlanks " true".toList) = some (.boolean true, []) := by
    cases levels <;> rfl
  have hkey := key?_dotted bounds more
  rw [dottedPair, hcs] at hkey ⊢
  have hskip : skipBlanks ('x' :: cs) = 'x' :: cs := rfl
  have hmark : skipMark ('x' :: cs) = 'x' :: cs := rfl
  have hne : skipBlanks ('x' :: cs) ≠ [] := List.cons_ne_nil _ _
  rw [read?, hmark, lines?_of_skipBlanks_ne_nil bounds hne, hskip, line?_of_isBare bounds rfl,
    pair?, hkey]
  split
  · have hequals : expect? '=' "= true".toList = some " true".toList := rfl
    have hend : lineEnd? [] = some [] := rfl
    simp only [Option.bind_eq_bind, Option.bind_some, hequals, hvalue, Option.pure_def, hend, hpair,
      Option.map_some]
    rfl
  · rfl

/-- The language has dotted keys of any length. -/
theorem read?_dotted_lifted (more : Nat) :
    ∃ node, read? .lifted (dottedPair more) = some [("x", node)] := by
  obtain ⟨node, hread⟩ := read?_dotted .lifted more
  have hroom : more < Bounds.lifted.levels (dottedPair more) :=
    (lt_length_dotted more _).trans_le (Nat.le_add_left ..)
  exact ⟨node, by rw [hread, if_pos hroom]⟩

/-- A reader has no key with more segments than the limit. -/
theorem document?_dotted {more : Nat} (h : depthLimit ≤ more) :
    document? (dottedPair more) = none := by
  obtain ⟨node, hread⟩ := read?_dotted .kept more
  rw [document?, hread]
  exact if_neg (Nat.not_lt.2 h)

end Dotted

end Offload.Toml
