import Offload.Proofs.Wire.Exact
import Offload.Proofs.Wire.Rejects

/-!
# Values are delimited

Every codec reads a value from one object and looks at nothing behind it. That holds of the codecs
of the parts, so it holds of the compounds by the laws of the combinators; the structures need one
case per field. Conversely, what is written of a value is one object, also of the dynamic values
that are written and not read back.

Records, shapes, nests and dynamic values are read by recursion on the levels that are open. Their
laws are by induction on these, with the law of the same decoder at one level less as the
hypothesis, and each case is a combinator.

That an encoder writes objects is needed for values that no decoder restores, too. A value that is
too deep is encoded and sent, and it is rejected as a whole and not because the reader lost its
place.
-/

namespace Offload.Wire

open Decoder (Exact)

namespace Codec

variable {α β : Type}

theorem exact_int (k : IntKind) (levels : Nat) : Exact ((int k).read levels) :=
  Decoder.exact_scalar (fun _ ↦ rfl) fun _ ↦ rfl

theorem exact_bool (levels : Nat) : Exact (bool.read levels) :=
  Decoder.exact_scalar (fun _ ↦ rfl) fun _ ↦ rfl

theorem exact_double (levels : Nat) : Exact (double.read levels) :=
  Decoder.exact_scalar (fun _ ↦ rfl) fun _ ↦ rfl

theorem exact_text (levels : Nat) : Exact (text.read levels) :=
  Decoder.exact_scalar (fun _ ↦ rfl) fun _ ↦ rfl

theorem exact_char (levels : Nat) : Exact (char.read levels) :=
  Decoder.exact_scalar (fun _ ↦ rfl) fun _ ↦ rfl

theorem exact_octet (levels : Nat) : Exact (octet.read levels) :=
  Decoder.exact_scalar (fun _ ↦ rfl) fun _ ↦ rfl

end Codec

namespace Record

/-- A record is read from one object, and so is each of its parents. -/
theorem exact_read (levels : Nat) : Exact (read levels) := by
  induction levels with
  | zero =>
    intro token
    cases token <;> exact .none
  | succ levels ih =>
    intro token
    cases token with
    | array n =>
      by_cases hn : n = 4
      · subst hn
        exact (Codec.exact_int .u64 levels).item.cons fun id ↦
          (Codec.exact_text levels).item.cons fun name ↦
            (Decoder.exact_list Codec.exact_text levels).item.cons fun tags ↦
              ih.option.item.cons fun parent ↦ .pure (make id name tags parent)
      · have hnone : read (levels + 1) (.array n) = fun _ ↦ none := by
          funext bs
          show (guard (n = 4) >>= fun _ ↦ _) = none
          rw [Decoder.guard_eq_none hn]
          rfl
        rw [hnone]
        exact .none
    | map n =>
      refine (Decoder.takes_fields (fun i draft ↦ ?_) levels n ({} : Draft)).bind fun draft ↦
        .ofOption _ fun record _ ↦ .pure record
      rcases i with - | - | - | i
      · exact (Codec.exact_int .u64 levels).once _ _
      · exact (Codec.exact_text levels).once _ _
      · exact (Decoder.exact_list Codec.exact_text levels).once _ _
      · exact ih.option.once _ _
    | _ => exact .none

end Record

namespace Shape

/-- Once its fields are read, a label reads no more. -/
theorem takes_label (draft : Option String × Option IntKind.u8.Value) : Takes 0 fun rest ↦
    match draft with
    | (some text, some size) => some (label text size, rest)
    | _ => none := by
  rcases draft with ⟨_ | text, _ | size⟩
  · exact .none
  · exact .none
  · exact .none
  · exact .pure (label text size)

/-- A label of a shape takes one object, whichever of its forms it has. -/
theorem exact_readLabel (levels : Nat) : Exact (readLabel levels) := by
  have hpair : Exact ((Codec.pair Codec.text (Codec.int .u8)).read levels) :=
    Decoder.exact_pair Codec.exact_text (Codec.exact_int .u8) levels
  intro token
  cases token with
  | map n =>
    rcases levels with - | inner
    · exact .none
    · refine (Decoder.takes_fields (fun i draft ↦ ?_) inner n (none, none)).bind takes_label
      rcases i with - | i
      · exact (Codec.exact_text inner).once _ _
      · exact (Codec.exact_int .u8 inner).once _ _
  | _ => exact (hpair _).map fun fields ↦ label fields.1 fields.2

/-- A shape is read from one object, a label or a map of one entry. -/
theorem exact_read (levels : Nat) : Exact (read levels) := by
  refine Decoder.exact_variant fun i ↦ ?_
  rcases i with - | - | - | i
  · exact Decoder.exact_absent empty
  · exact (Codec.exact_int .u32 levels).filterMap _
  · have hsides : Exact ((Codec.pair (Codec.int .i32) (Codec.int .i32)).read levels) :=
      Decoder.exact_pair (Codec.exact_int .i32) (Codec.exact_int .i32) levels
    exact hsides.filterMap fun sides ↦ some (rect sides.1 sides.2)
  · exact exact_readLabel levels

end Shape

namespace Nest

/-- A nest is read from one object, at any number of levels. -/
theorem exact_read (levels : Nat) : Exact (read levels) := by
  induction levels with
  | zero =>
    intro token
    cases token with
    | binary octets =>
      cases octets with
      | nil => exact .pure empty
      | cons => exact .none
    | _ => exact .none
  | succ levels ih =>
    rw [read_succ]
    exact (Decoder.exact_list (fun _ ↦ ih) (levels + 1)).filterMap _

end Nest

namespace Dynamic

theorem exact_readFirstKey : Exact readFirstKey :=
  Decoder.exact_scalar (fun _ ↦ rfl) fun _ ↦ rfl

/-- A dynamic value is read from one object, whatever it turns out to be. -/
theorem exact_read (levels : Nat) : Exact (read levels) := by
  induction levels with
  | zero =>
    intro token
    cases token with
    | nil | bool | single | double => exact .pure _
    | unsigned n => exact .ofMap (f := id) (ofInt? n)
    | signed n => exact .ofMap (f := id) (ofInt? n)
    | text s => exact .ofMap (ofUtf8? s)
    | _ => exact .none
  | succ levels ih =>
    intro token
    cases token with
    | array n =>
      have hitems := (Decoder.takes_items ih.item n).map list
      rwa [Nat.one_mul] at hitems
    | map n =>
      exact (Decoder.exact_entries exact_readFirstKey (Codec.exact_text levels) (fun _ ↦ ih)
        (levels + 1) (.map n)).map ofEntries
    | nil | bool | single | double => exact .pure _
    | unsigned n => exact .ofMap (f := id) (ofInt? n)
    | signed n => exact .ofMap (f := id) (ofInt? n)
    | text s => exact .ofMap (ofUtf8? s)
    | _ => exact .none

end Dynamic

namespace FailureKind

/-- The kind of a failure is read from one object. -/
theorem exact_read (levels : Nat) : Exact (codec.read levels) := by
  refine Decoder.exact_variant fun i ↦ ?_
  cases ofPosition? i with
  | none => exact fun _ ↦ .none
  | some kind => exact Decoder.exact_absent kind

end FailureKind

namespace Failure

theorem takes_store (levels i : Nat) (draft : Draft) : Takes 1 (store levels i draft) := by
  rcases i with - | - | - | i
  · exact (FailureKind.exact_read levels).once draft.kind fun v ↦ { draft with kind := some v }
  · exact (Codec.exact_text levels).once draft.typeName fun v ↦ { draft with typeName := some v }
  · exact (Codec.exact_text levels).once draft.message fun v ↦ { draft with message := some v }
  · exact (Decoder.exact_list Codec.exact_text levels).once draft.sources
      fun v ↦ { draft with sources := some v }

/-- A failure is read from one object, whether its fields stand in an array or in a map. -/
theorem exact_read (levels : Nat) : Exact (codec.read levels) := by
  rcases levels with - | levels
  · intro token
    cases token <;> exact .none
  · intro token
    cases token with
    | array n =>
      by_cases hn : n = 3 ∨ n = 4
      · have hkind := (FailureKind.exact_read levels).item
        have htext := (Codec.exact_text levels).item
        rcases hn with rfl | rfl
        · exact hkind.cons fun kind ↦ htext.cons fun typeName ↦ htext.cons fun message ↦
            .pure (Failure.mk kind typeName message [])
        · exact hkind.cons fun kind ↦ htext.cons fun typeName ↦ htext.cons fun message ↦
            (Decoder.exact_list Codec.exact_text levels).item.cons fun sources ↦
              .pure (Failure.mk kind typeName message sources)
      · have hnone : codec.read (levels + 1) (.array n) = fun _ ↦ none := by
          funext bs
          show (guard _ >>= fun _ ↦ _) = none
          rw [Decoder.guard_eq_none hn]
          rfl
        rw [hnone]
        exact .none
    | map n =>
      refine (Decoder.takes_fields (fun i draft ↦ ?_) levels n ({} : Draft)).bind fun draft ↦
        .ofOption _ fun failure _ ↦ .pure failure
      exact takes_store levels i draft
    | _ => exact .none

end Failure

namespace ValueType

/-- Every value is read from one object. -/
theorem exact_read (t : ValueType) (levels : Nat) : Exact (t.codec.read levels) := by
  cases t with
  | int kind => exact Codec.exact_int kind levels
  | bool => exact Codec.exact_bool levels
  | unit => exact Decoder.exact_absent ()
  | char => exact Codec.exact_char levels
  | double => exact Codec.exact_double levels
  | text => exact Codec.exact_text levels
  | octets => exact Decoder.exact_list Codec.exact_octet levels
  | optionInt => exact (Codec.exact_int .i64 levels).option
  | optionText => exact (Codec.exact_text levels).option
  | pair => exact Decoder.exact_pair (Codec.exact_int .i64) Codec.exact_text levels
  | numbers => exact Decoder.exact_list (Codec.exact_int .u64) levels
  | texts => exact Decoder.exact_list Codec.exact_text levels
  | table =>
    exact (Decoder.exact_entries (Codec.exact_text levels) (Codec.exact_text levels)
      (Codec.exact_int .i64) levels).filterMap fun entries ↦ some (Table.ofList entries)
  | record => exact Record.exact_read levels
  | shape => exact Shape.exact_read levels
  | nest => exact Nest.exact_read levels
  | dynamic => exact Dynamic.exact_read levels

end ValueType

namespace Outcome

/-- Every outcome is read from one object. -/
theorem exact_read {α : Type} {c : Codec α} (h : ∀ levels, Exact (c.read levels)) (levels : Nat) :
    Exact ((codec c).read levels) := by
  refine Decoder.exact_variant fun i ↦ ?_
  rcases i with - | i
  · exact (h levels).filterMap _
  · exact (Failure.exact_read levels).filterMap _

end Outcome

/-! ### What is written is one object

A codec writes headers and parts, and a header announces as many parts as it is written in front of.
For values that are restored this follows from reading; for the others it is shown from what is
written.
-/

/-- Bytes from which an exact decoder reads a value are an object. -/
theorem Decoder.Exact.isObject {α : Type} {d : Decoder α} (h : Exact d) {bs : Bytes} {a : α}
    (hr : d.Reads bs a) : IsObject bs := by
  obtain ⟨objects, hlength, hobjects, heq, -⟩ := h.item (hr [])
  obtain ⟨object, rfl⟩ := List.length_eq_one_iff.1 hlength
  rw [List.append_nil, List.append_nil, List.flatten_singleton] at heq
  exact heq ▸ hobjects object List.mem_cons_self

theorem Codec.isObject_text {s : String} (hs : (text.write s).length < 2 ^ 32) :
    IsObject (text.write s) :=
  (exact_text 0).isObject (restores_text hs 0)

namespace Dynamic

/-- A list is headed by the count of its items. The count fits as there is a byte for each item at
least. -/
theorem spells_list {items : List Dynamic} (hr : refusalOfItems? items = none)
    (hsize : (list items).write.length < 2 ^ 32) :
    Token.Spells (Token.writeArray items.length) (.array items.length) := by
  have hcount : items.length ≤ (items.flatMap write).length :=
    Decoder.length_le_flatMap_of_pos fun item hitem ↦
      length_write_pos (refusal?_eq_none_of_mem hr hitem) (length_write_lt_of_mem hitem hsize)
  rw [write_list, List.length_append] at hsize
  exact Token.spells_writeArray (by omega)

/-- A table is headed by the count of its entries. -/
theorem spells_table {entries : List (String × Dynamic)}
    (hsize : (table entries).write.length < 2 ^ 32) :
    Token.Spells (Token.writeMap entries.length) (.map entries.length) := by
  have hcount : entries.length ≤
      (entries.flatMap fun e ↦ Codec.text.write e.1 ++ e.2.write).length :=
    Decoder.length_le_flatMap_of_pos fun e he ↦ by
      rw [List.length_append]
      exact Nat.add_pos_left
        (Codec.spells_text (length_write_lt_of_mem_entries he hsize).1).length_pos _
  rw [write_table, List.length_append] at hsize
  exact Token.spells_writeMap (by omega)

/-- Whether it is read back or not, what is written of a value is one object. -/
theorem isObject_write {d : Dynamic} (hr : d.refusal? = none) (hsize : d.write.length < 2 ^ 32) :
    IsObject d.write := by
  induction hn : d.nesting using Nat.strongRecOn generalizing d with
  | ind n ih =>
    cases d with
    | null => exact (exact_read 0).isObject (restores .null (Nat.zero_le _) hsize)
    | bool b => exact (exact_read 0).isObject (restores (.bool b) (Nat.zero_le _) hsize)
    | int n => exact (exact_read 0).isObject (restores (.int n) (Nat.zero_le _) hsize)
    | float d =>
      exact (Token.spells_iff.1 (Token.spells_writeDouble d.bits)).isObject_of_children rfl
    | text s => exact Codec.isObject_text hsize
    | refuses reason => cases hr
    | numberKeyed =>
      -- it is written as a map from a number to a number, which is an object and no table
      have hnumber : ∀ m < 2 ^ 64, IsObject (Token.writeUnsigned m) := fun m hm ↦
        (Token.spells_iff.1 (Token.spells_writeUnsigned hm)).isObject_of_children rfl
      have hmap := Token.spells_iff.1 (Token.spells_writeMap (show 1 < 2 ^ 32 by decide))
      have hobject : IsObject (Token.writeMap 1 ++
          [Token.writeUnsigned 1, Token.writeUnsigned 2].flatten) :=
        hmap.isObject rfl (by simp [hnumber])
      exact hobject
    | list items =>
      have hitems : ∀ object ∈ items.map write, IsObject object := by
        simp only [List.mem_map, forall_exists_index, and_imp, forall_apply_eq_imp_iff₂]
        intro item hitem
        refine ih _ ?_ (refusal?_eq_none_of_mem hr hitem) (length_write_lt_of_mem hitem hsize) rfl
        rw [← hn, nesting]
        exact Nat.lt_succ_of_le (nesting_le_of_mem hitem)
      rw [write_list, List.flatMap_def]
      exact (Token.spells_iff.1 (spells_list hr hsize)).isObject (List.length_map write) hitems
    | table entries =>
      have hentries : ∀ object ∈ entries.flatMap fun e ↦ [Codec.text.write e.1, e.2.write],
          IsObject object := by
        simp only [List.mem_flatMap, List.mem_cons, List.not_mem_nil, or_false]
        rintro _ ⟨e, he, rfl | rfl⟩
        · exact Codec.isObject_text (length_write_lt_of_mem_entries he hsize).1
        · refine ih _ ?_ (refusal?_eq_none_of_mem_entries hr he)
            (length_write_lt_of_mem_entries he hsize).2 rfl
          rw [← hn, nesting]
          exact Nat.lt_succ_of_le (nesting_le_of_mem_entries he)
      have hflatten : (entries.flatMap fun e ↦ [Codec.text.write e.1, e.2.write]).flatten =
          entries.flatMap fun e ↦ Codec.text.write e.1 ++ e.2.write := by
        rw [← List.flatMap_id, List.flatMap_assoc]
        simp
      rw [write_table, ← hflatten]
      refine (Token.spells_iff.1 (spells_table hsize)).isObject ?_ hentries
      simp [Token.children, List.map_const', Nat.mul_comm]

end Dynamic

/-- What is written of a value that does not refuse is one object. -/
theorem ValueType.isObject_write {t : ValueType} {v : t.Value} (hr : t.codec.refusal? v = none)
    (hsize : (t.codec.write v).length < 2 ^ 32) : IsObject (t.codec.write v) := by
  by_cases ht : t.Travels v
  · -- it is restored where as many levels are open as it nests, however many these are
    exact (t.exact_read _).isObject (restores ht (Nat.le_refl _) hsize)
  · cases t with
    | dynamic => exact Dynamic.isObject_write hr hsize
    | _ => exact absurd trivial ht

end Offload.Wire
