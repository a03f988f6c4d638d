import Offload.Failure
import Mathlib.Data.List.Basic

/-!
# Names of types, and what a failure shows of them

The name of a type is a path of segments, joined by two colons. A segment is an identifier, which
may carry arguments in angle brackets, or it is in angle brackets as a whole, as where a type is
declared inside a method (`Segment`). What stands in angle brackets are names of types again, with
text between them. A type is called by the identifier of the last segment (`TypePath.own`), and that
is what is left of its name if all angle brackets are taken out with what they hold
(`lastSegment_outside`).

A failure looks for it in a simpler way, in the text before the first angle bracket. So it shows the
identifier of the first segment that has angle brackets, and nothing at all if that segment is in
them as a whole (`TypePath.shown`). This is the identifier of the type if no segment before the last
one has angle brackets, and need not be otherwise (`Shortened`).

Both readings are functions of characters, and the grammar is there to say what they find. A name is
put together from segments, so each lemma about `outside` and `beforeBrackets` has one case for each
way to put a name together, and the open brackets are what the induction carries along.
-/

namespace Offload

/-! ### Last segments -/

namespace Text

/-- The second text is the first one, or ends in it behind two colons. -/
def IsLast (segment cs : List Char) : Prop :=
  cs = segment ∨ ∃ path, cs = path ++ ':' :: ':' :: segment

theorem IsLast.prepend {segment cs : List Char} (h : IsLast segment cs) (first : List Char) :
    IsLast segment (first ++ ':' :: ':' :: cs) := by
  rcases h with rfl | ⟨path, rfl⟩
  · exact .inr ⟨first, rfl⟩
  · exact .inr ⟨first ++ ':' :: ':' :: path, by simp⟩

theorem afterLastPair_eq_none {cs : List Char} (h : ':' ∉ cs) : afterLastPair cs = none := by
  induction cs with
  | nil => rfl
  | cons c cs ih =>
    rw [List.mem_cons, not_or] at h
    rw [afterLastPair]
    · exact ih h.2
    · rintro cs' rfl -
      exact h.1 rfl

/-- The last pair is the one behind which no other stands. -/
theorem afterLastPair_append {segment : List Char} (h : ':' ∉ segment) (path : List Char) :
    afterLastPair (path ++ ':' :: ':' :: segment) = some segment := by
  induction path with
  | nil =>
    have hnone : afterLastPair (':' :: segment) = none := by
      rw [afterLastPair]
      · exact afterLastPair_eq_none h
      · rintro cs - rfl
        exact h List.mem_cons_self
    rw [List.nil_append, afterLastPair, hnone]
    rfl
  | cons c path ih =>
    rw [List.cons_append]
    unfold afterLastPair
    split
    · next cs heq =>
      obtain ⟨-, hcs⟩ := List.cons.inj heq
      rw [← hcs, ih]
      rfl
    · next heq => rw [← (List.cons.inj heq).2, ih]
    · next heq => cases heq

/-- The last segment is found, if it has no colon in it. -/
theorem lastSegment_of_isLast {segment cs : List Char} (h : ':' ∉ segment)
    (hlast : IsLast segment cs) : lastSegment cs = segment := by
  rcases hlast with rfl | ⟨path, rfl⟩
  · rw [lastSegment, afterLastPair_eq_none h, Option.getD_none]
  · rw [lastSegment, afterLastPair_append h, Option.getD_some]

/-- What is left of a text behind so many open angle brackets if all angle brackets are taken out,
with what stands between them. -/
def outside : (depth : Nat) → List Char → List Char
  | _, [] => []
  | depth, '<' :: cs => outside (depth + 1) cs
  | depth, '>' :: cs => outside (depth - 1) cs
  | 0, c :: cs => c :: outside 0 cs
  | depth + 1, _ :: cs => outside (depth + 1) cs

end Text

/-! ### Names

A grammar of its own, and no parser: names are given by their parts, and the text is what is written
of them. That a part has neither colons nor brackets where it must not have them is part of its
type.
-/

/-- A part of a name that is not empty, without colons and angle brackets. -/
structure TypePath.Identifier where
  chars : List Char
  ne_nil : chars ≠ []
  colon_notMem : ':' ∉ chars
  opening_notMem : '<' ∉ chars
  closing_notMem : '>' ∉ chars

/-- A text without angle brackets. -/
structure TypePath.Filler where
  chars : List Char
  opening_notMem : '<' ∉ chars
  closing_notMem : '>' ∉ chars

mutual
/-- The name of a type: the segments of its path. -/
inductive TypePath where
  /-- The last segment is the identifier of the type, with its arguments. -/
  | last (identifier : TypePath.Identifier) (arguments : TypePath.Arguments)
  | under (segment : TypePath.Segment) (rest : TypePath)
/-- A segment before the last one. -/
inductive TypePath.Segment where
  | named (identifier : TypePath.Identifier) (arguments : TypePath.Arguments)
  /-- A segment that is in angle brackets as a whole. -/
  | bracketed (content : TypePath.Content)
/-- What an identifier carries in angle brackets, if anything. -/
inductive TypePath.Arguments where
  | absent
  | present (content : TypePath.Content)
/-- What stands in angle brackets: names of types, and text between them. -/
inductive TypePath.Content where
  | nothing
  | filler (text : TypePath.Filler) (rest : TypePath.Content)
  | type (name : TypePath) (rest : TypePath.Content)
end

namespace TypePath

mutual
/-- The text of a name. -/
def chars : TypePath → List Char
  | .last identifier arguments => identifier.chars ++ arguments.chars
  | .under segment rest => segment.chars ++ ':' :: ':' :: rest.chars
/-- The text of a segment. -/
def Segment.chars : Segment → List Char
  | .named identifier arguments => identifier.chars ++ arguments.chars
  | .bracketed content => '<' :: (content.chars ++ ['>'])
/-- The text of arguments with their angle brackets. -/
def Arguments.chars : Arguments → List Char
  | .absent => []
  | .present content => '<' :: (content.chars ++ ['>'])
/-- The text between angle brackets. -/
def Content.chars : Content → List Char
  | .nothing => []
  | .filler text rest => text.chars ++ rest.chars
  | .type name rest => name.chars ++ rest.chars
end

end TypePath

namespace Text

/-- Text without brackets is left out if a bracket is open. -/
theorem outside_succ_append {part : List Char} (hopening : '<' ∉ part) (hclosing : '>' ∉ part)
    (depth : Nat) (rest : List Char) :
    outside (depth + 1) (part ++ rest) = outside (depth + 1) rest := by
  induction part with
  | nil => rfl
  | cons c part ih =>
    rw [List.mem_cons, not_or] at hopening hclosing
    rw [List.cons_append, outside, ih hopening.2 hclosing.2]
    · exact fun h ↦ hopening.1 h.symm
    · exact fun h ↦ hclosing.1 h.symm

/-- Text without brackets is kept if none is open. -/
theorem outside_zero_append {part : List Char} (hopening : '<' ∉ part) (hclosing : '>' ∉ part)
    (rest : List Char) : outside 0 (part ++ rest) = part ++ outside 0 rest := by
  induction part with
  | nil => rfl
  | cons c part ih =>
    rw [List.mem_cons, not_or] at hopening hclosing
    rw [List.cons_append, outside, ih hopening.2 hclosing.2, List.cons_append]
    · exact fun h ↦ hopening.1 h.symm
    · exact fun h ↦ hclosing.1 h.symm

/-- Angle brackets are taken out with what they hold. -/
theorem outside_brackets {content : List Char} {depth : Nat}
    (h : ∀ rest, outside (depth + 1) (content ++ rest) = outside (depth + 1) rest)
    (rest : List Char) :
    outside depth ('<' :: (content ++ ['>']) ++ rest) = outside depth rest := by
  have hrest := h ('>' :: rest)
  rw [List.cons_append, List.append_assoc]
  exact hrest

end Text

open Text (IsLast outside)

namespace TypePath

mutual
/-- Inside angle brackets nothing of a name is left. -/
theorem outside_succ (n : TypePath) (depth : Nat) (rest : List Char) :
    outside (depth + 1) (n.chars ++ rest) = outside (depth + 1) rest := by
  cases n with
  | last identifier arguments =>
    rw [chars, List.append_assoc, Text.outside_succ_append identifier.opening_notMem
      identifier.closing_notMem, arguments.outside_append]
  | under segment name =>
    rw [chars, List.append_assoc, segment.outside_succ]
    exact name.outside_succ depth rest
/-- A segment inside brackets is left out, and as many brackets are open behind it as before. -/
theorem Segment.outside_succ (s : Segment) (depth : Nat) (rest : List Char) :
    outside (depth + 1) (s.chars ++ rest) = outside (depth + 1) rest := by
  cases s with
  | named identifier arguments =>
    rw [Segment.chars, List.append_assoc, Text.outside_succ_append identifier.opening_notMem
      identifier.closing_notMem, arguments.outside_append]
  | bracketed content => exact Text.outside_brackets (content.outside_succ _) rest
theorem Arguments.outside_append (a : Arguments) (depth : Nat) (rest : List Char) :
    outside depth (a.chars ++ rest) = outside depth rest := by
  cases a with
  | absent => rfl
  | present content => exact Text.outside_brackets (content.outside_succ _) rest
/-- Names and the text between them are left out if a bracket is open. -/
theorem Content.outside_succ (c : Content) (depth : Nat) (rest : List Char) :
    outside (depth + 1) (c.chars ++ rest) = outside (depth + 1) rest := by
  cases c with
  | nothing => rfl
  | filler text content =>
    rw [Content.chars, List.append_assoc, Text.outside_succ_append text.opening_notMem
      text.closing_notMem, content.outside_succ]
  | type name content =>
    rw [Content.chars, List.append_assoc, name.outside_succ, content.outside_succ]
end

/-- Of a segment outside of angle brackets its identifier is left, if it has one. -/
theorem Segment.exists_outside_zero (s : Segment) :
    ∃ left, ∀ rest, outside 0 (s.chars ++ rest) = left ++ outside 0 rest := by
  cases s with
  | named identifier arguments =>
    refine ⟨identifier.chars, fun rest ↦ ?_⟩
    rw [Segment.chars, List.append_assoc, Text.outside_zero_append identifier.opening_notMem
      identifier.closing_notMem, arguments.outside_append]
  | bracketed content => exact ⟨[], Text.outside_brackets (content.outside_succ _)⟩

/-- The identifier of the type. -/
def own : TypePath → Identifier
  | last identifier _ => identifier
  | under _ rest => rest.own

/-- What a failure shows of a name: the identifier of the first segment that has angle brackets, or
of the last one if none has, and nothing if that segment has no identifier. -/
def shown : TypePath → List Char
  | last identifier _ => identifier.chars
  | under (.named _ .absent) rest => rest.shown
  | under (.named identifier (.present _)) _ => identifier.chars
  | under (.bracketed _) _ => []

/-- No segment before the last one has angle brackets. -/
inductive IsDirect : TypePath → Prop
  | last (identifier : Identifier) (arguments : Arguments) : IsDirect (.last identifier arguments)
  | under (identifier : Identifier) {rest : TypePath} (h : rest.IsDirect) :
    IsDirect (.under (.named identifier .absent) rest)

/-- The first segment that has angle brackets is in them as a whole. -/
inductive OpensBracketed : TypePath → Prop
  | here (content : Content) (rest : TypePath) : OpensBracketed (.under (.bracketed content) rest)
  | under (identifier : Identifier) {rest : TypePath} (h : rest.OpensBracketed) :
    OpensBracketed (.under (.named identifier .absent) rest)

/-- The identifier of a type is the last segment of what stands outside of brackets. -/
theorem isLast_outside (n : TypePath) : IsLast n.own.chars (outside 0 n.chars) := by
  cases n with
  | last identifier arguments =>
    refine .inl ?_
    rw [chars, Text.outside_zero_append identifier.opening_notMem identifier.closing_notMem,
      ← List.append_nil arguments.chars, arguments.outside_append]
    exact List.append_nil _
  | under segment rest =>
    obtain ⟨left, hleft⟩ := segment.exists_outside_zero
    rw [chars, hleft]
    exact rest.isLast_outside.prepend left

/-- The last segment outside of all angle brackets is the identifier of the type. -/
theorem lastSegment_outside (n : TypePath) :
    Text.lastSegment (outside 0 n.chars) = n.own.chars :=
  Text.lastSegment_of_isLast n.own.colon_notMem n.isLast_outside

theorem colon_notMem_shown (n : TypePath) : ':' ∉ n.shown := by
  fun_induction shown n with
  | case1 identifier _ => exact identifier.colon_notMem
  | case2 _ rest ih => exact ih
  | case3 identifier _ _ => exact identifier.colon_notMem
  | case4 => exact List.not_mem_nil

/-- The text up to the first angle bracket. -/
abbrev beforeBrackets (cs : List Char) : List Char :=
  cs.takeWhile (· != '<')

theorem beforeBrackets_append {part : List Char} (h : '<' ∉ part) (rest : List Char) :
    beforeBrackets (part ++ rest) = part ++ beforeBrackets rest :=
  List.takeWhile_append_of_pos fun _ hc ↦ bne_iff_ne.2 fun heq ↦ h (heq ▸ hc)

/-- Arguments begin with a bracket, or are none. -/
theorem beforeBrackets_arguments (arguments : Arguments) :
    beforeBrackets arguments.chars = [] := by
  cases arguments <;> rfl

/-- What a failure shows is the last segment in front of the brackets. -/
theorem isLast_beforeBrackets (n : TypePath) : IsLast n.shown (beforeBrackets n.chars) := by
  fun_induction shown n with
  | case1 identifier arguments =>
    refine .inl ?_
    rw [chars, beforeBrackets_append identifier.opening_notMem, beforeBrackets_arguments,
      List.append_nil]
  | case2 identifier rest ih =>
    have hchars : (under (.named identifier .absent) rest).chars =
        identifier.chars ++ ([':', ':'] ++ rest.chars) := by
      simp [chars, Segment.chars, Arguments.chars]
    rw [hchars, beforeBrackets_append identifier.opening_notMem, beforeBrackets_append (by decide)]
    exact ih.prepend identifier.chars
  | case3 identifier content rest =>
    refine .inl ?_
    rw [chars, Segment.chars, List.append_assoc, beforeBrackets_append identifier.opening_notMem]
    exact List.append_nil _
  | case4 => exact .inl rfl

/-- If no segment before the last one has brackets, it is the identifier of the type. -/
theorem shown_of_isDirect {n : TypePath} (h : n.IsDirect) : n.shown = n.own.chars := by
  induction h with
  | last => rfl
  | under identifier _ ih => exact ih

/-- It is empty just if the first segment with brackets is in them as a whole. -/
theorem shown_eq_nil_iff {n : TypePath} : n.shown = [] ↔ n.OpensBracketed := by
  fun_induction shown n with
  | case1 identifier => exact iff_of_false identifier.ne_nil nofun
  | case2 identifier rest ih =>
    rw [ih]
    exact ⟨.under identifier, fun | .under _ h => h⟩
  | case3 identifier => exact iff_of_false identifier.ne_nil nofun
  | case4 content rest => exact iff_of_true rfl (.here content rest)

end TypePath

/-! ### What failures show

The condition for a correct short name is exact in one direction only. If an earlier segment has
brackets, what is shown is the identifier of that segment, which may happen to be the same word.
-/

namespace Failure

/-- The failure of an error of a type of that name. -/
def ofTypePath (n : TypePath) (message : String) (sources : List String) : Failure :=
  ofError (String.ofList n.chars) message sources

/-- The short type of a failure is what is shown of the name. -/
theorem shortType_ofTypePath (n : TypePath) (message : String) (sources : List String) :
    (ofTypePath n message sources).shortType = String.ofList n.shown := by
  have hlast := Text.lastSegment_of_isLast n.colon_notMem_shown n.isLast_beforeBrackets
  rw [shortType, ofTypePath, ofError, String.toList_ofList, hlast]

/-- The sources follow what is said first. -/
theorem exists_foldl_sources (sources : List String) (head : String) : ∃ rest,
    sources.foldl (fun line source ↦ line ++ "\n  caused by: " ++ source) head = head ++ rest := by
  induction sources generalizing head with
  | nil => exact ⟨"", (String.append_empty).symm⟩
  | cons source sources ih =>
    obtain ⟨rest, hrest⟩ := ih (head ++ "\n  caused by: " ++ source)
    exact ⟨"\n  caused by: " ++ source ++ rest, by
      rw [List.foldl_cons, hrest]
      simp only [String.append_assoc]⟩

/-- What a failure shows of the name of the type of its error. -/
structure Shortened (n : TypePath) (message : String) (sources : List String) : Prop where
  /-- The type is called by its last segment outside of angle brackets. -/
  own : Text.lastSegment (outside 0 n.chars) = n.own.chars
  /-- It is shown by the first segment that has angle brackets, or else by its last one. -/
  shortType : (ofTypePath n message sources).shortType = String.ofList n.shown
  /-- That is what it is called by if no segment before the last one has angle brackets. -/
  direct : n.IsDirect → n.shown = n.own.chars
  /-- It is nothing if the first segment that has angle brackets is in them as a whole. -/
  empty_iff : n.shown = [] ↔ n.OpensBracketed
  /-- The text of the failure starts with what is shown. -/
  text : ∃ rest, (ofTypePath n message sources).text =
    String.ofList n.shown ++ ": " ++ message ++ rest

/-- The name of a type is shortened at its first angle bracket. -/
theorem shortened_ofTypePath (n : TypePath) (message : String) (sources : List String) :
    Shortened n message sources where
  own := n.lastSegment_outside
  shortType := shortType_ofTypePath n message sources
  direct := TypePath.shown_of_isDirect
  empty_iff := TypePath.shown_eq_nil_iff
  text := by
    rw [← shortType_ofTypePath n message sources]
    exact exists_foldl_sources sources _

/-- The text of a failure begins with it. -/
theorem text_ofTypePath (n : TypePath) (message : String) :
    (ofTypePath n message []).text = String.ofList n.shown ++ ": " ++ message := by
  rw [← shortType_ofTypePath n message []]
  rfl

/-! ### Types that are declared in methods

Such names are those that a program gets for types in the bodies of methods. They are written out to
the letter, since it is the first bracket in them that decides.
-/

/-- An identifier of one character. -/
def letter (c : Char) (h : ':' ∉ [c] ∧ '<' ∉ [c] ∧ '>' ∉ [c]) : TypePath.Identifier :=
  ⟨[c], List.cons_ne_nil _ _, h.1, h.2.1, h.2.2⟩

/-- The type `D` of the module `c`. -/
def typeOfModule : TypePath :=
  .under (.named (letter 'c' (by decide)) .absent) (.last (letter 'D' (by decide)) .absent)

/-- The type `F` of the method `e` that the type `a::B` has of a trait. -/
def typeOfTraitMethod : TypePath :=
  .under
    (.bracketed (.type
      (.under (.named (letter 'a' (by decide)) .absent) (.last (letter 'B' (by decide)) .absent))
      (.filler ⟨[' ', 'a', 's', ' '], by decide, by decide⟩ (.type typeOfModule .nothing))))
    (.under (.named (letter 'e' (by decide)) .absent) (.last (letter 'F' (by decide)) .absent))

/-- The type `E` of a method that the generic type `a::B` has. -/
def typeOfGenericMethod : TypePath :=
  .under (.named (letter 'a' (by decide)) .absent)
    (.under (.named (letter 'B' (by decide)) (.present (.type typeOfModule .nothing)))
      (.last (letter 'E' (by decide)) .absent))

/-- A type that is declared in a method of a trait is not called by what a failure shows, which is
nothing, and neither is one in a method of a generic type. -/
theorem not_shown_of_method :
    (String.ofList typeOfTraitMethod.chars = "<a::B as c::D>::e::F" ∧
      String.ofList typeOfTraitMethod.own.chars = "F" ∧
      (ofTypePath typeOfTraitMethod "m" []).shortType = "" ∧
      (ofTypePath typeOfTraitMethod "m" []).text = ": m") ∧
    String.ofList typeOfGenericMethod.chars = "a::B<c::D>::E" ∧
      String.ofList typeOfGenericMethod.own.chars = "E" ∧
      (ofTypePath typeOfGenericMethod "m" []).shortType = "B" ∧
      (ofTypePath typeOfGenericMethod "m" []).text = "B: m" := by
  refine ⟨⟨rfl, rfl, ?_, ?_⟩, rfl, rfl, ?_, ?_⟩
  · exact (shortType_ofTypePath ..).trans rfl
  · exact (text_ofTypePath ..).trans (by decide)
  · exact (shortType_ofTypePath ..).trans rfl
  · exact (text_ofTypePath ..).trans (by decide)

end Failure

end Offload
