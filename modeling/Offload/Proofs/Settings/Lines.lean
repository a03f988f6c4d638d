import Offload.Proofs.Settings.Document
import Offload.Proofs.Toml.Lines

/-!
# Settings written line by line

Some of the fields are chosen, each with a value, and each is written on a line of its own, in any
order and with any blanks, empty lines and comments around. What is read are the default settings
with the chosen values in place of the defaults (`Restored`).

A file is read as the text that it holds. It is rejected together with the text, only the wording
may name the file.

The texts are described by how they are built and not by what a reader does with them: a line is a
key, an equals sign, a value and its end, with blanks wherever they are allowed (`Toml.Written`).
Each value has all its spellings. So the theorem is about every text of that form and not about the
output of one particular writer.
-/

namespace Offload.Settings

open Toml (Entries Node Written entriesOf)

/-- Some fields with a value of each. A field of two values would be a key that is defined twice. -/
structure IsChoice (es : List (Field × Toml.Value)) : Prop where
  nodup : (es.map Prod.fst).Nodup
  takes : ∀ e ∈ es, e.1.Takes e.2
  inRange : ∀ f (n : Int), (f, .integer n) ∈ es → n < 2 ^ 63
  /-- There is no poll interval of zero. -/
  pollInterval : (.pollInterval, .integer 0) ∉ es

/-- The fields by their keys. -/
def keyed (es : List (Field × Toml.Value)) : List (String × Toml.Value) :=
  es.map fun (f, v) => (f.key, v)

/-- The default settings with the chosen values in their fields. -/
structure Replaces (es : List (Field × Toml.Value)) (s : Settings) : Prop where
  given : ∀ e ∈ es, e.1.Holds s e.2
  kept : ∀ f ∉ es.map Prod.fst, Field.Same s default f

/-- The settings of a text and of a file with that text are the same, or both are rejected. -/
def LoadAgrees (path text : String) : Prop :=
  (∃ s, ofToml text = .ok s ∧ load path (.ok (Wire.utf8 text)) = .ok s) ∨
    ∃ reason reason', ofToml text = .error (.configuration reason) ∧
      load path (.ok (Wire.utf8 text)) = .error (.configuration reason')

/-- What becomes of a choice that is written down and read again. -/
structure Restored (es : List (Field × Toml.Value)) : Prop where
  /-- It can be written down. -/
  written : ∃ text : String, Written (keyed es) text.toList
  /-- However it is written, and in whatever order, the same settings are read. -/
  restored : ∃ s, Replaces es s ∧ ∀ es', es'.Perm es →
    ∀ text : String, Written (keyed es') text.toList → ofToml text = .ok s
  /-- A file is read as any text that it holds. -/
  loaded : ∀ path text, LoadAgrees path text

/-- A file is read as its text is. Its name comes into the wording of a fault and into nothing else.
-/
theorem loadAgrees (path text : String) : LoadAgrees path text := by
  have hload : load path (.ok (Wire.utf8 text)) = (ofText text).mapError (Fault.toError path) := by
    simp only [load, Wire.ofUtf8?_utf8]
  rw [LoadAgrees, hload, ofToml]
  cases ofText text with
  | ok s => exact .inl ⟨s, rfl, rfl⟩
  | error fault => exact .inr ⟨_, _, rfl, rfl⟩

section Choices

variable {es es' : List (Field × Toml.Value)} {f : Field} {v : Toml.Value}

theorem mem_entriesOf_keyed : (f.key, Node.value v) ∈ entriesOf (keyed es) ↔ (f, v) ∈ es := by
  simp [entriesOf, keyed, Field.key_injective.eq_iff]

theorem mem_keys_keyed : f.key ∈ (entriesOf (keyed es)).map Prod.fst ↔ f ∈ es.map Prod.fst := by
  simp [entriesOf, keyed, Field.key_injective.eq_iff]

/-- A field does not take a value that is a fault of its entry. -/
theorem IsFault.not_takes {e : String × Node} {fault : Fault} (h : IsFault e fault)
    (he : e = (f.key, .value v)) (hfits : v.fits = true) : ¬ f.Takes v := by
  cases h with
  | unknownKey hkey => exact absurd (congrArg Prod.fst he).symm (hkey f)
  | badValue hadmits =>
    obtain ⟨hkey, hnode⟩ := Prod.mk.inj he
    obtain rfl := Field.key_injective hkey
    exact fun hv ↦ hadmits ⟨v, hnode, hfits, hv⟩

/-- Settings that reflect the chosen values have them in place of the defaults. -/
theorem Reflects.replaces {s : Settings} (h : Reflects (entriesOf (keyed es)) s) :
    Replaces es s :=
  ⟨fun (f, v) he ↦ h.stated f v (mem_entriesOf_keyed.2 he),
    fun f hf ↦ h.unstated f (mt mem_keys_keyed.1 hf)⟩

namespace IsChoice

theorem perm (h : IsChoice es) (hes : es'.Perm es) : IsChoice es' where
  nodup := (hes.map Prod.fst).nodup_iff.2 h.nodup
  takes e he := h.takes e (hes.mem_iff.1 he)
  inRange f n he := h.inRange f n (hes.mem_iff.1 he)
  pollInterval := fun he ↦ h.pollInterval (hes.mem_iff.1 he)

theorem nodup_keyed (h : IsChoice es) : ((keyed es).map Prod.fst).Nodup := by
  have hkeys : (keyed es).map Prod.fst = (es.map Prod.fst).map Field.key := by
    simp [keyed]
  rw [hkeys]
  exact h.nodup.map Field.key_injective

/-- The chosen numbers are in range. -/
theorem fits (h : IsChoice es) (he : (f, v) ∈ es) : v.fits = true := by
  have hinteger (h' : ∃ n : Nat, v = .integer n ∧ n < 2 ^ 64) : v.fits = true := by
    obtain ⟨n, rfl, -⟩ := h'
    have hn := h.inRange f n he
    exact Toml.fits_integer (by rw [Toml.greatest]; omega)
  have htakes : f.Takes v := h.takes _ he
  cases f with
  | terminateOnReturn =>
    obtain ⟨b, rfl⟩ := htakes
    rfl
  | _ => exact hinteger htakes

theorem clean (h : IsChoice es) : Clean (entriesOf (keyed es)) := by
  intro e he fault hfault
  obtain ⟨⟨key, v⟩, hkeyed, rfl⟩ := List.mem_map.1 he
  obtain ⟨⟨f, v⟩, hmem, heq⟩ := List.mem_map.1 hkeyed
  cases heq
  exact hfault.not_takes rfl (h.fits hmem) (h.takes _ hmem)

/-- However a choice is written, its lines are read as the entries of the document. -/
theorem document? (h : IsChoice es) {text : String} (hwritten : Written (keyed es) text.toList) :
    Toml.document? text.toList = some (entriesOf (keyed es)) :=
  Toml.document?_of_written hwritten h.nodup_keyed

/-- Every value that a field takes can be written. -/
theorem exists_isValue (h : IsChoice es) {e : Field × Toml.Value} (he : e ∈ es) :
    ∃ cs, Toml.IsValue e.2 cs := by
  obtain ⟨f, v⟩ := e
  have hinteger (h' : ∃ n : Nat, v = .integer n ∧ n < 2 ^ 64) : ∃ cs, Toml.IsValue v cs := by
    obtain ⟨n, rfl, -⟩ := h'
    have hn := h.inRange f n he
    exact ⟨_, .integer (Toml.isInteger_toDigits n) (by omega)⟩
  have htakes := h.takes _ he
  cases f with
  | terminateOnReturn =>
    obtain ⟨b, rfl⟩ := htakes
    exact ⟨_, .boolean b⟩
  | _ => exact hinteger htakes

/-- Every key is written without quotes. -/
theorem isBareKey_key (f : Field) : Toml.IsBareKey f.key := by
  cases f <;> exact ⟨by decide, List.all_eq_true.1 rfl⟩

/-- Every choice can be written down. -/
theorem exists_written (h : IsChoice es) : ∃ cs, Written (keyed es) cs := by
  refine Toml.exists_written fun e he ↦ ?_
  obtain ⟨chosen, hchosen, rfl⟩ := List.mem_map.1 he
  exact ⟨isBareKey_key chosen.1, h.exists_isValue hchosen⟩

theorem sound (h : IsChoice es) : (entriesOf (keyed es)).Sound := by
  obtain ⟨cs, hcs⟩ := h.exists_written
  exact Toml.sound_of_document? (Toml.document?_of_written hcs h.nodup_keyed)

end IsChoice

/-- A choice that is written down is read again, and a file is read as the text that it holds. -/
theorem restored_of_isChoice (h : IsChoice es) : Restored es := by
  constructor
  case written =>
    obtain ⟨cs, hcs⟩ := h.exists_written
    exact ⟨String.ofList cs, by rwa [String.toList_ofList]⟩
  case restored =>
    have hzero : zeroPoll ∉ entriesOf (keyed es) := mt mem_entriesOf_keyed.1 h.pollInterval
    obtain ⟨hpoll, -⟩ | ⟨-, s, hs, hreflects⟩ := ofEntries_of_clean h.clean h.sound.nodup
    · exact absurd hpoll hzero
    · refine ⟨s, hreflects.replaces, fun es' hes' text hwritten ↦ ?_⟩
      have hperm : (entriesOf (keyed es')).Perm (entriesOf (keyed es)) := (hes'.map _).map _
      rw [ofToml_eq_ok_iff, ofText_of_document? ((h.perm hes').document? hwritten),
        ofEntries_perm hperm h.sound, hs]
  case loaded => exact loadAgrees

/-- Three of the fields, in another order than their own. -/
theorem restored_of_isChoice_three :
    Restored [(.gracePeriod, .integer 200), (.maxConcurrent, .integer 2),
      (.terminateOnReturn, .boolean true)] :=
  restored_of_isChoice
    { nodup := by decide
      takes := by
        simp only [List.forall_mem_cons, List.not_mem_nil, false_implies, implies_true, and_true]
        exact ⟨⟨200, rfl, by decide⟩, ⟨2, rfl, by decide⟩, ⟨true, rfl⟩⟩
      inRange f n hmem := by
        simp at hmem
        omega
      pollInterval := by decide }

end Choices

end Offload.Settings
