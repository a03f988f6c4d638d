import Offload.Proofs.Toml.Document
import Offload.Proofs.Toml.Lines

/-!
# What the bounds of a reader leave out

A reader that keeps its bounds reads nothing that the language does not have: what it reads is read
without bounds too, and as the same (`read?_of_document?`). Each scanner that is given a bound gives
the same answer under a wider one, and it is the scanners of arrays and tables that make this an
induction, over the levels that are open.

The other way round the bounds leave out documents. But all of these have an entry that is a table,
an array, or a number out of range: a value that is none of them is scanned without opening a level,
and a key of a single segment is within any bound. So a document whose entries are plain is read
within bounds as well (`document?_of_isPlain`). The proof goes backwards through the lines. What is
read behind the last line is flat, so it was flat behind each line before (`Reading.Flat`), because
no header and no dotted key is ever forgotten.
-/

namespace Offload.Toml

/-! ### Wider bounds

A scanner is monotone in its bound: what it finds it finds with more room. For values this is an
induction on the levels, in which the readers of items are parameters, because an array knows its
items only through them.
-/

section Wider

variable {cs rest : List Char} {item item' : Scan Value}

/-- More segments may be read than there are. -/
theorem segments?_mono {fuel fuel' : Nat} {found : List String × List Char}
    (h : segments? fuel cs = some found) (hle : fuel ≤ fuel') :
    segments? fuel' cs = some found := by
  induction fuel generalizing fuel' cs found with
  | zero => cases h
  | succ fuel ih =>
    obtain ⟨fuel', rfl⟩ := Nat.exists_eq_succ_of_ne_zero (Nat.ne_zero_of_lt hle)
    unfold segments? at h ⊢
    obtain ⟨⟨segment, cs'⟩, hsegment, h⟩ := Option.bind_eq_some_iff.1 h
    refine Option.bind_eq_some_iff.2 ⟨_, hsegment, ?_⟩
    dsimp only at h ⊢
    split at h
    · obtain ⟨more, hmore, h⟩ := Option.bind_eq_some_iff.1 h
      exact Option.bind_eq_some_iff.2 ⟨more, ih hmore (Nat.le_of_succ_le_succ hle), h⟩
    · exact h

/-- Without bounds there are at least as many levels to a text as with them. -/
theorem Bounds.levels_le (cs : List Char) : kept.levels cs ≤ lifted.levels cs :=
  Nat.le_add_right ..

/-- A key that is read within bounds is read without them. -/
theorem key?_lifted {found : (List String × String) × List Char} (h : key? .kept cs = some found) :
    key? .lifted cs = some found := by
  obtain ⟨segments, hsegments, h⟩ := Option.bind_eq_some_iff.1 h
  exact Option.bind_eq_some_iff.2
    ⟨segments, segments?_mono hsegments (Bounds.levels_le cs), h⟩

theorem number?_lifted {found : Value × List Char} (h : number? .kept cs = some found) :
    number? .lifted cs = some found := by
  unfold number? at h ⊢
  split at h
  · exact h
  · obtain ⟨hnumeral, -⟩ := Option.filter_eq_some_iff.1 h
    exact Option.filter_eq_some_iff.2 ⟨hnumeral, rfl⟩

/-- An array is read with a reader of items that reads more. -/
theorem arrayBody_mono (hitem : ∀ cs found, item cs = some found → item' cs = some found)
    {fuel : Nat} (h : arrayBody item fuel cs = some rest) :
    arrayBody item' fuel cs = some rest := by
  induction fuel generalizing cs with
  | zero => cases h
  | succ fuel ih =>
    unfold arrayBody at h ⊢
    split at h
    · exact h
    · obtain ⟨found, hfound, h⟩ := Option.bind_eq_some_iff.1 h
      refine Option.bind_eq_some_iff.2 ⟨found, hitem _ _ hfound, ?_⟩
      dsimp only at h ⊢
      split at h
      · exact h
      · exact ih h
      · cases h

/-- A key with its value is read by a reader of values that reads more. -/
theorem pair?_lifted (hitem : ∀ cs found, item cs = some found → item' cs = some found)
    {found : (List String × String × Value) × List Char}
    (h : pair? .kept item cs = some found) : pair? .lifted item' cs = some found := by
  simp only [pair?, Option.bind_eq_bind, Option.bind_eq_some_iff] at h ⊢
  obtain ⟨key, hkey, rest, hequals, value, hvalue, h⟩ := h
  exact ⟨key, key?_lifted hkey, rest, hequals, value, hitem _ _ hvalue, h⟩

/-- The inside of a table is read by a reader of values that reads more. -/
theorem tableBody_lifted (hitem : ∀ cs found, item cs = some found → item' cs = some found)
    {fuel : Nat} {es : Entries} (h : tableBody .kept item fuel es cs = some rest) :
    tableBody .lifted item' fuel es cs = some rest := by
  induction fuel generalizing es cs with
  | zero => cases h
  | succ fuel ih =>
    unfold tableBody at h ⊢
    obtain ⟨found, hfound, h⟩ := Option.bind_eq_some_iff.1 h
    refine Option.bind_eq_some_iff.2 ⟨found, pair?_lifted hitem hfound, ?_⟩
    obtain ⟨es, hes, h⟩ := Option.bind_eq_some_iff.1 h
    refine Option.bind_eq_some_iff.2 ⟨es, hes, ?_⟩
    split at h
    · exact h
    · exact ih h
    · cases h

/-- A value that opens no level and is read within bounds is read without them. -/
theorem scalar?_lifted {found : Value × List Char} (h : scalar? .kept cs = some found) :
    scalar? .lifted cs = some found := by
  unfold scalar? at h ⊢
  split at h
  case h_5 => exact number?_lifted h
  all_goals exact h

/-- A text begins with one of the two characters that open a level, or with neither. -/
theorem opens_or_not (cs : List Char) : (∃ tail, cs = '[' :: tail ∨ cs = '{' :: tail) ∨
    ∀ c ∈ cs.head?, c ≠ '[' ∧ c ≠ '{' := by
  cases cs with
  | nil => exact .inr nofun
  | cons c tail =>
    by_cases hc : c = '[' ∨ c = '{'
    · rcases hc with rfl | rfl
      · exact .inl ⟨tail, .inl rfl⟩
      · exact .inl ⟨tail, .inr rfl⟩
    · rw [not_or] at hc
      exact .inr fun _ h ↦ Option.some.inj h ▸ hc

/-- A value that is read with some levels left is read the same with more of them, and without
bounds. -/
theorem value?_lifted {levels levels' : Nat} {found : Value × List Char}
    (h : value? .kept levels cs = some found) (hle : levels ≤ levels') :
    value? .lifted levels' cs = some found := by
  induction levels generalizing levels' cs found with
  | zero =>
    rcases opens_or_not cs with ⟨tail, rfl | rfl⟩ | hcs
    · cases h
    · cases h
    · rw [value?_eq_scalar? hcs] at h ⊢
      exact scalar?_lifted h
  | succ levels ih =>
    obtain ⟨levels', rfl⟩ := Nat.exists_eq_succ_of_ne_zero (Nat.ne_zero_of_lt hle)
    have hitem (cs : List Char) (found : Value × List Char)
        (hfound : value? .kept levels cs = some found) : value? .lifted levels' cs = some found :=
      ih hfound (Nat.le_of_succ_le_succ hle)
    rcases opens_or_not cs with ⟨tail, rfl | rfl⟩ | hcs
    · obtain ⟨rest, hrest, h⟩ := Option.map_eq_some_iff.1 h
      exact Option.map_eq_some_iff.2 ⟨rest, arrayBody_mono hitem hrest, h⟩
    · rw [value?] at h ⊢
      split at h
      · exact h
      · obtain ⟨rest, hrest, h⟩ := Option.map_eq_some_iff.1 h
        exact Option.map_eq_some_iff.2 ⟨rest, tableBody_lifted hitem hrest, h⟩
    · rw [value?_eq_scalar? hcs] at h ⊢
      exact scalar?_lifted h

/-- A line within bounds is the same line without them. -/
theorem line?_lifted {r : Reading} {found : Reading × List Char}
    (h : line? .kept r cs = some found) : line? .lifted r cs = some found := by
  unfold line? at h ⊢
  split at h
  case h_1 => exact h
  case h_2 | h_3 =>
    obtain ⟨key, hkey, h⟩ := Option.bind_eq_some_iff.1 h
    exact Option.bind_eq_some_iff.2 ⟨key, key?_lifted hkey, h⟩
  case h_4 =>
    split at h
    · exact h
    · obtain ⟨pair, hpair, h⟩ := Option.bind_eq_some_iff.1 h
      have hitem (cs' : List Char) (found : Value × List Char)
          (hfound : value? .kept depthLimit cs' = some found) :=
        value?_lifted hfound (Bounds.levels_le cs)
      exact Option.bind_eq_some_iff.2 ⟨pair, pair?_lifted hitem hpair, h⟩

/-- Lines that are read within bounds are read without them, and come to the same. -/
theorem lines?_lifted {fuel : Nat} {r r' : Reading} (h : lines? .kept fuel r cs = some r') :
    lines? .lifted fuel r cs = some r' := by
  induction fuel generalizing r cs with
  | zero => cases h
  | succ fuel ih =>
    unfold lines? at h ⊢
    split at h
    · exact h
    · obtain ⟨line, hline, h⟩ := Option.bind_eq_some_iff.1 h
      exact Option.bind_eq_some_iff.2 ⟨line, line?_lifted hline, ih h⟩

/-- What a reader reads within its bounds is a document of the language, with these entries. -/
theorem read?_of_document? {es : Entries} (h : document? cs = some es) :
    read? .lifted cs = some es := by
  obtain ⟨r, hlines, hclose⟩ := Option.bind_eq_some_iff.1 h
  exact Option.bind_eq_some_iff.2 ⟨r, lines?_lifted hlines, hclose⟩

/-- A document of the language is read within bounds with the same entries, or not at all. -/
theorem document?_eq_or {es : Entries} (h : read? .lifted cs = some es) :
    document? cs = some es ∨ document? cs = none := by
  rw [or_iff_not_imp_right]
  intro hne
  obtain ⟨es', hes'⟩ := Option.ne_none_iff_exists'.1 hne
  rw [hes', ← h, read?_of_document? hes']

end Wider

/-! ### Plain entries

The converse needs a reason why room was not needed. A plain value opens no level, and a key of one
segment has no dots, so both are scanned in the same way whatever the room is.
-/

/-- A value that opens no level and is in range. -/
def Value.isPlain : Value → Bool
  | .array | .table => false
  | v => v.fits

/-- What stands under a key is a plain value. -/
def Node.isPlain : Node → Bool
  | .value v => v.isPlain
  | _ => false

/-- Nothing was read but plain values under keys of a single segment. -/
structure Reading.Flat (r : Reading) : Prop where
  header : r.header = none
  current : ∀ e ∈ r.current, e.2.isPlain = true

section Plain

variable {cs rest : List Char} {key : String} {value : Value} {es es' : Entries}
  {r r' : Reading}

theorem Value.fits_of_isPlain (h : value.isPlain = true) : value.fits = true := by
  cases value <;> first | exact h | cases h

theorem segments?_ne_nil {fuel : Nat} {segments : List String}
    (h : segments? fuel cs = some (segments, rest)) : segments ≠ [] := by
  cases fuel with
  | zero => cases h
  | succ fuel =>
    unfold segments? at h
    obtain ⟨⟨segment, cs'⟩, -, h⟩ := Option.bind_eq_some_iff.1 h
    dsimp only at h
    split at h
    · obtain ⟨more, -, h⟩ := Option.bind_eq_some_iff.1 h
      cases h
      exact List.cons_ne_nil _ _
    · cases h
      exact List.cons_ne_nil _ _

/-- A key of a single segment needs room for one. -/
theorem segments?_of_single {fuel : Nat} (h : segments? fuel cs = some ([key], rest))
    (fuel' : Nat) : segments? (fuel' + 1) cs = some ([key], rest) := by
  cases fuel with
  | zero => cases h
  | succ fuel =>
    unfold segments? at h ⊢
    obtain ⟨⟨segment, cs'⟩, hsegment, h⟩ := Option.bind_eq_some_iff.1 h
    refine Option.bind_eq_some_iff.2 ⟨_, hsegment, ?_⟩
    dsimp only at h ⊢
    split at h
    · obtain ⟨⟨more, cs''⟩, hmore, h⟩ := Option.bind_eq_some_iff.1 h
      cases h
      exact absurd rfl (segments?_ne_nil hmore)
    · exact h

theorem key?_kept (h : key? .lifted cs = some (([], key), rest)) :
    key? .kept cs = some (([], key), rest) := by
  obtain ⟨⟨segments, cs'⟩, hsegments, h⟩ := Option.bind_eq_some_iff.1 h
  obtain ⟨last, hlast, h⟩ := Option.bind_eq_some_iff.1 h
  obtain ⟨hdrop, rfl, rfl⟩ : segments.dropLast = [] ∧ last = key ∧ cs' = rest := by
    simpa [and_assoc] using h
  obtain rfl : segments = [last] := by
    rw [← List.dropLast_append_getLast? last hlast, hdrop, List.nil_append]
  have hkept : segments? (Bounds.kept.levels cs) cs = some ([last], cs') :=
    segments?_of_single hsegments 78
  rw [key?, hkept]
  rfl

theorem number?_kept (h : number? .lifted cs = some (value, rest)) (hvalue : value.fits = true) :
    number? .kept cs = some (value, rest) := by
  unfold number? at h ⊢
  split at h
  · exact h
  · obtain ⟨hnumeral, -⟩ := Option.filter_eq_some_iff.1 h
    exact Option.filter_eq_some_iff.2 ⟨hnumeral, hvalue⟩

/-- A value that opens no level is within bounds if it is in range. -/
theorem scalar?_kept (h : scalar? .lifted cs = some (value, rest)) (hvalue : value.fits = true) :
    scalar? .kept cs = some (value, rest) := by
  unfold scalar? at h ⊢
  split at h
  case h_5 => exact number?_kept h hvalue
  all_goals exact h

/-- What begins with a bracket is an array, and what begins with a brace a table. -/
theorem isOpened_of_value? {bounds : Bounds} {levels : Nat} {tail : List Char}
    (hcs : cs = '[' :: tail ∨ cs = '{' :: tail) (h : value? bounds levels cs = some (value, rest)) :
    value = .array ∨ value = .table := by
  rcases hcs with rfl | rfl <;> cases levels
  case inl.zero | inr.zero => cases h
  case inl.succ =>
    obtain ⟨_, -, h⟩ := Option.map_eq_some_iff.1 h
    cases h
    exact .inl rfl
  case inr.succ =>
    rw [value?] at h
    split at h
    · cases h
      exact .inr rfl
    · obtain ⟨_, -, h⟩ := Option.map_eq_some_iff.1 h
      cases h
      exact .inr rfl

/-- A plain value needs no levels. -/
theorem value?_kept {levels : Nat} (h : value? .lifted levels cs = some (value, rest))
    (hvalue : value.isPlain = true) (levels' : Nat) :
    value? .kept levels' cs = some (value, rest) := by
  rcases opens_or_not cs with ⟨tail, hopens⟩ | hcs
  · rcases isOpened_of_value? hopens h with rfl | rfl <;> cases hvalue
  · rw [value?_eq_scalar? hcs] at h ⊢
    exact scalar?_kept h (Value.fits_of_isPlain hvalue)

/-- The key of a line with a plain value, and the value. -/
theorem pair?_kept {levels levels' : Nat}
    (h : pair? .lifted (value? .lifted levels) cs = some (([], key, value), rest))
    (hvalue : value.isPlain = true) :
    pair? .kept (value? .kept levels') cs = some (([], key, value), rest) := by
  simp only [pair?, Option.bind_eq_bind, Option.bind_eq_some_iff] at h ⊢
  obtain ⟨⟨⟨path, key'⟩, cs'⟩, hkey, cs'', hequals, ⟨value', rest'⟩, hread, h⟩ := h
  cases h
  exact ⟨_, key?_kept hkey, _, hequals, _, value?_kept hread hvalue levels', rfl⟩

/-! ### Flat readings

Whether the lines before were plain cannot be told from a line alone. It can be told from the end:
entries are never taken away, and a table that was opened is still there when the document is
closed.
-/

/-- What is put under a key that is there can be found. -/
theorem Entries.mem_replace {node node' : Node} (h : es.find? key = some node) :
    (key, node') ∈ es.replace key node' := by
  have hkey : key ∈ es.map Prod.fst := by
    by_contra hkey
    rw [find?_eq_none_iff.2 hkey] at h
    cases h
  obtain ⟨e, he, rfl⟩ := List.mem_map.1 hkey
  exact List.mem_map.2 ⟨e, he, if_pos rfl⟩

/-- A change at the end of a path leaves a table or a list of tables under the first of its keys. -/
theorem Entries.exists_not_isPlain_of_update {definition own : Definition}
    {change : Definition → Entries → Option Entries} {path : List String}
    (h : es.update definition change (key :: path) own = some es') :
    ∃ e ∈ es', e.2.isPlain ≠ true := by
  unfold update at h
  split at h
  · obtain ⟨inner, -, h⟩ := Option.bind_eq_some_iff.1 h
    cases h
    exact ⟨(key, .table definition inner), by simp, Bool.false_ne_true⟩
  · cases h
  · next own inner hfind =>
    split at h
    · cases h
    · obtain ⟨inner', -, h⟩ := Option.bind_eq_some_iff.1 h
      cases h
      exact ⟨_, mem_replace hfind, Bool.false_ne_true⟩
  · next hfind =>
    obtain ⟨_, -, h⟩ := Option.bind_eq_some_iff.1 h
    obtain ⟨last, -, h⟩ := Option.bind_eq_some_iff.1 h
    cases h
    exact ⟨_, mem_replace hfind, Bool.false_ne_true⟩

/-- What was read flat was flat before. -/
theorem flat_of_pair {path : List String} (h : r.pair path key value = some r') (hflat : r'.Flat) :
    path = [] ∧ value.isPlain = true ∧ r.Flat := by
  obtain ⟨current, hdefine, rfl⟩ := Option.map_eq_some_iff.1 h
  obtain rfl : path = [] := by
    cases path with
    | nil => rfl
    | cons p path =>
      obtain ⟨e, he, hplain⟩ := Entries.exists_not_isPlain_of_update hdefine
      exact absurd (hflat.current e he) hplain
  rw [Entries.defineAt, Entries.update, if_pos (.inr rfl), Entries.define] at hdefine
  split at hdefine
  · cases hdefine
  · cases hdefine
    refine ⟨rfl, hflat.current (key, .value value) (by simp), hflat.header, fun e he ↦ ?_⟩
    exact hflat.current e (List.mem_append_left _ he)

/-- A document all of whose entries are plain was flat when it was closed. -/
theorem flat_of_close (h : r.close = some es) (hplain : ∀ e ∈ es, e.2.isPlain = true) :
    r.Flat := by
  unfold Reading.close at h
  split at h
  · next hheader =>
    cases h
    exact ⟨hheader, hplain⟩
  · next path key _ =>
    obtain ⟨e, he, htable⟩ : ∃ e ∈ es, e.2.isPlain ≠ true := by
      cases path with
      | cons => exact Entries.exists_not_isPlain_of_update h
      | nil =>
        cases h
        exact ⟨(key, .table .explicit r.current), by simp, Bool.false_ne_true⟩
    exact absurd (hplain e he) htable
  · next path key _ =>
    obtain ⟨e, he, htables⟩ : ∃ e ∈ es, e.2.isPlain ≠ true := by
      cases path with
      | cons => exact Entries.exists_not_isPlain_of_update h
      | nil =>
        rw [Entries.update] at h
        split at h
        · next hfind =>
          cases h
          exact ⟨_, Entries.mem_replace hfind, Bool.false_ne_true⟩
        · cases h
    exact absurd (hplain e he) htables

/-- A header is not forgotten. -/
theorem header_ne_none_of_openTable {path : List String} (h : r.openTable path key = some r') :
    r'.header ≠ none := by
  obtain ⟨closed, -, h⟩ := Option.bind_eq_some_iff.1 h
  dsimp only at h
  split at h
  case h_3 => cases h
  all_goals
    obtain ⟨current, -, h⟩ := Option.bind_eq_some_iff.1 h
    obtain ⟨root, -, h⟩ := Option.bind_eq_some_iff.1 h
    cases h
    exact Option.some_ne_none _

/-- A header stays one, also if its table is one of a list. -/
theorem header_ne_none_of_openListed {path : List String} (h : r.openListed path key = some r') :
    r'.header ≠ none := by
  obtain ⟨closed, -, h⟩ := Option.bind_eq_some_iff.1 h
  obtain ⟨root, -, h⟩ := Option.bind_eq_some_iff.1 h
  cases h
  exact Option.some_ne_none _

/-- A line that leaves the reading flat is read within bounds. -/
theorem line?_kept (h : line? .lifted r cs = some (r', rest)) (hflat : r'.Flat) :
    r.Flat ∧ line? .kept r cs = some (r', rest) := by
  unfold line? at h ⊢
  split at h
  · obtain ⟨_, -, heq⟩ := Option.map_eq_some_iff.1 h
    cases heq
    exact ⟨hflat, h⟩
  · simp only [Option.bind_eq_bind, Option.bind_eq_some_iff] at h
    obtain ⟨_, -, _, -, _, -, _, -, r'', hopen, h⟩ := h
    cases h
    exact absurd hflat.header (header_ne_none_of_openListed hopen)
  · simp only [Option.bind_eq_bind, Option.bind_eq_some_iff] at h
    obtain ⟨_, -, _, -, _, -, r'', hopen, h⟩ := h
    cases h
    exact absurd hflat.header (header_ne_none_of_openTable hopen)
  · split at h
    · cases h
      exact ⟨hflat, rfl⟩
    · simp only [Option.bind_eq_bind, Option.bind_eq_some_iff] at h ⊢
      obtain ⟨⟨⟨path, key, value⟩, cs'⟩, hread, rest', hend, r'', hpair, h⟩ := h
      cases h
      obtain ⟨rfl, hvalue, hr⟩ := flat_of_pair hpair hflat
      exact ⟨hr, _, pair?_kept hread hvalue, _, hend, _, hpair, rfl⟩

/-- Lines that leave a flat reading were flat all along, and are read within bounds. -/
theorem lines?_kept {fuel : Nat} (h : lines? .lifted fuel r cs = some r') (hflat : r'.Flat) :
    r.Flat ∧ lines? .kept fuel r cs = some r' := by
  induction fuel generalizing r cs with
  | zero => cases h
  | succ fuel ih =>
    unfold lines? at h ⊢
    split at h
    · cases h
      exact ⟨hflat, rfl⟩
    · obtain ⟨⟨r'', rest⟩, hline, h⟩ := Option.bind_eq_some_iff.1 h
      obtain ⟨hflat'', hrest⟩ := ih h
      obtain ⟨hr, hkept⟩ := line?_kept hline hflat''
      exact ⟨hr, Option.bind_eq_some_iff.2 ⟨_, hkept, hrest⟩⟩

/-- A document whose entries are plain keeps the bounds. -/
theorem document?_of_isPlain (h : read? .lifted cs = some es)
    (hplain : ∀ e ∈ es, e.2.isPlain = true) : document? cs = some es := by
  obtain ⟨r, hlines, hclose⟩ := Option.bind_eq_some_iff.1 h
  obtain ⟨-, hkept⟩ := lines?_kept hlines (flat_of_close hclose hplain)
  exact Option.bind_eq_some_iff.2 ⟨r, hkept, hclose⟩

end Plain

end Offload.Toml
