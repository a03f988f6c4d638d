import Offload.Proofs.Wire.Codec
import Offload.Wire.Dynamic

/-!
# Dynamic values are restored

A dynamic value *travels* if it is one that can be made of a document: its numbers are finite, its
tables are in ascending order, and none of the values inside is one of the two that cannot make the
journey. Such a value does not refuse to be written, and is restored at as many levels as it nests.

A list and a table are restored item by item, so the induction is on what it means to travel. The
bound on the length is that of the whole value, and gives one for each part.

What does not travel has three causes: a float that is not finite, which is read as null, a table
with its keys out of order or twice, which is read as another one, and the two values that are there
to refuse and to be misread.
-/

namespace Offload.Wire.Dynamic

open Token (Spells)

/-- A value that is written and read back. -/
inductive Travels : Dynamic → Prop
  | null : Travels null
  | bool (b : Bool) : Travels (bool b)
  | int (n : Dynamic.Integer) : Travels (int n)
  | float {d : Double} (h : d.isFinite = true) : Travels (float d)
  | text (s : String) : Travels (text s)
  | list {items : List Dynamic} (h : ∀ item ∈ items, Travels item) : Travels (list items)
  | table {entries : List (String × Dynamic)} (ascends : Ascends entries)
    (h : ∀ entry ∈ entries, Travels entry.2) : Travels (table entries)

mutual

/-- The lists and tables inside each other. -/
def nesting : Dynamic → Nat
  | list items => nestingOfItems items + 1
  | table entries => nestingOfEntries entries + 1
  | _ => 0

/-- The deepest of the items. -/
def nestingOfItems : List Dynamic → Nat
  | [] => 0
  | item :: rest => max item.nesting (nestingOfItems rest)

/-- The deepest of the entries. -/
def nestingOfEntries : List (String × Dynamic) → Nat
  | [] => 0
  | (_, value) :: rest => max value.nesting (nestingOfEntries rest)

end

/-! ### Lists of values -/

theorem nesting_le_of_mem {item : Dynamic} {items : List Dynamic} (h : item ∈ items) :
    item.nesting ≤ nestingOfItems items := by
  induction items with
  | nil => cases h
  | cons first rest ih =>
    rw [nestingOfItems]
    rcases List.mem_cons.1 h with rfl | h
    · exact Nat.le_max_left ..
    · exact Nat.le_trans (ih h) (Nat.le_max_right ..)

theorem nesting_le_of_mem_entries {entry : String × Dynamic} {entries : List (String × Dynamic)}
    (h : entry ∈ entries) : entry.2.nesting ≤ nestingOfEntries entries := by
  induction entries with
  | nil => cases h
  | cons first rest ih =>
    rw [nestingOfEntries]
    rcases List.mem_cons.1 h with rfl | h
    · exact Nat.le_max_left ..
    · exact Nat.le_trans (ih h) (Nat.le_max_right ..)

theorem writeItems_eq (items : List Dynamic) : writeItems items = items.flatMap write := by
  induction items with
  | nil => rfl
  | cons item rest ih => rw [writeItems, ih, List.flatMap_cons]

theorem writeEntries_eq (entries : List (String × Dynamic)) :
    writeEntries entries = entries.flatMap fun e ↦ Codec.text.write e.1 ++ e.2.write := by
  induction entries with
  | nil => rfl
  | cons entry rest ih => rw [writeEntries, ih, List.flatMap_cons, List.append_assoc]

/-- A list is the array of its items. -/
theorem write_list (items : List Dynamic) :
    (list items).write = Token.writeArray items.length ++ items.flatMap write := by
  rw [write, writeItems_eq]

/-- A table is the map of its entries. -/
theorem write_table (entries : List (String × Dynamic)) :
    (table entries).write = Token.writeMap entries.length ++
      entries.flatMap fun e ↦ Codec.text.write e.1 ++ e.2.write := by
  rw [write, writeEntries_eq]

/-- What is written of an item fits if the list does. -/
theorem length_write_lt_of_mem {item : Dynamic} {items : List Dynamic} (h : item ∈ items)
    (hsize : (list items).write.length < 2 ^ 32) : item.write.length < 2 ^ 32 := by
  have hle := Codec.length_le_flatMap (f := write) h
  rw [write_list, List.length_append] at hsize
  omega

/-- What is written of a key and of its value fits if the table does. -/
theorem length_write_lt_of_mem_entries {entry : String × Dynamic}
    {entries : List (String × Dynamic)} (h : entry ∈ entries)
    (hsize : (table entries).write.length < 2 ^ 32) :
    (Codec.text.write entry.1).length < 2 ^ 32 ∧ entry.2.write.length < 2 ^ 32 := by
  have hle := Codec.length_le_flatMap
    (f := fun e : String × Dynamic ↦ Codec.text.write e.1 ++ e.2.write) h
  rw [write_table] at hsize
  simp only [List.length_append] at hle hsize
  omega

/-- A list does not refuse if no item of it does. -/
theorem refusalOfItems?_eq_none {items : List Dynamic}
    (h : ∀ item ∈ items, item.refusal? = none) : refusalOfItems? items = none := by
  induction items with
  | nil => rfl
  | cons item rest ih =>
    rw [refusalOfItems?, h item List.mem_cons_self, ih fun i hi ↦ h i (List.mem_cons_of_mem _ hi)]
    rfl

theorem refusalOfEntries?_eq_none {entries : List (String × Dynamic)}
    (h : ∀ entry ∈ entries, entry.2.refusal? = none) : refusalOfEntries? entries = none := by
  induction entries with
  | nil => rfl
  | cons entry rest ih =>
    rw [refusalOfEntries?, h entry List.mem_cons_self,
      ih fun e he ↦ h e (List.mem_cons_of_mem _ he)]
    rfl

/-! ### Values -/

/-- A value that travels can be written. -/
theorem refusal?_eq_none {d : Dynamic} (h : d.Travels) : d.refusal? = none := by
  induction h with
  | list _ ih => exact refusalOfItems?_eq_none ih
  | table _ _ ih => exact refusalOfEntries?_eq_none ih
  | _ => rfl

section

variable (levels : Nat) (bs : Bytes)

theorem read_nil : read levels .nil bs = some (null, bs) := by
  cases levels <;> rfl

theorem read_bool (b : Bool) : read levels (.bool b) bs = some (bool b, bs) := by
  cases levels <;> rfl

theorem read_integer (n : Int) :
    read levels (Token.ofInteger n) bs = (ofInt? n).map fun value ↦ (value, bs) := by
  rw [Token.ofInteger]
  by_cases h : 0 ≤ n
  · have hunsigned : read levels (.unsigned n.toNat) bs =
        (ofInt? (n.toNat : Int)).map fun value ↦ (value, bs) := by
      cases levels <;> rfl
    rw [if_pos h, hunsigned, Int.toNat_of_nonneg h]
  · rw [if_neg h]
    cases levels <;> rfl

theorem read_double (bits : Nat) :
    read levels (.double bits) bs = some (ofDouble ⟨UInt64.ofNat bits⟩, bs) := by
  cases levels <;> rfl

theorem read_text (s : Bytes) :
    read levels (.text s) bs = (ofUtf8? s).map fun s ↦ (text s, bs) := by
  cases levels <;> rfl

end

theorem reads_readFirstKey {s : String} (hs : (Codec.text.write s).length < 2 ^ 32) :
    readFirstKey.Reads (Codec.text.write s) s :=
  Decoder.reads_scalar (Codec.spells_text hs) (ofUtf8?_utf8 s)

theorem ofInt?_val (n : Dynamic.Integer) : ofInt? n.val = some (int n) := by
  rw [ofInt?, dif_pos n.property]

/-- A list is read if its items are at one level less. -/
theorem reads_list {levels : Nat} {items : List Dynamic}
    (h : ∀ item ∈ items, (read levels).Reads item.write item)
    (hsize : (list items).write.length < 2 ^ 32) :
    (read (levels + 1)).Reads (list items).write (list items) := by
  have hcount := Decoder.length_le_of_reads h
  rw [write_list, List.length_append] at hsize
  rw [write_list]
  refine Decoder.reads_of_spells (Token.spells_writeArray (by omega)) fun rest ↦ ?_
  show (Decoder.items (read levels) items.length _).map _ = _
  rw [Decoder.items_flatMap h]
  rfl

/-- A table is read if its values are at one level less and its keys ascend. -/
theorem reads_table {levels : Nat} {entries : List (String × Dynamic)} (hasc : Ascends entries)
    (h : ∀ entry ∈ entries, (read levels).Reads entry.2.write entry.2)
    (hsize : (table entries).write.length < 2 ^ 32) :
    (read (levels + 1)).Reads (table entries).write (table entries) := by
  rw [write_table] at hsize ⊢
  obtain ⟨hmap, hentries⟩ := @Codec.entries_write _ readFirstKey levels (fun _ ↦ read levels) write
    entries (fun _ ↦ reads_readFirstKey) h hsize levels
  refine Decoder.reads_of_spells hmap fun rest ↦ ?_
  show (Decoder.entries readFirstKey _ (fun _ ↦ read levels) (levels + 1) _ _).map _ = _
  rw [hentries]
  show some (ofEntries entries, rest) = _
  rw [ofEntries, Codec.ascending_of_ascends hasc]

/-- A value that travels is read at as many levels as it nests. -/
theorem restores {d : Dynamic} (h : d.Travels) : ∀ {levels : Nat}, d.nesting ≤ levels →
    d.write.length < 2 ^ 32 → codec.Restores levels d := by
  induction h with
  | null =>
    intro levels _ _ rest
    exact (Decoder.item_of_spells Token.spells_writeNil _ rest).trans (read_nil levels rest)
  | bool b =>
    intro levels _ _ rest
    exact (Decoder.item_of_spells (Token.spells_writeBool b) _ rest).trans (read_bool levels rest b)
  | int n =>
    intro levels _ _ rest
    have hspells := Token.spells_writeInteger n.property.1 n.property.2
    refine (Decoder.item_of_spells hspells _ rest).trans ((read_integer levels rest n.val).trans ?_)
    rw [ofInt?_val]
    rfl
  | @float d hfinite =>
    intro levels _ _ rest
    refine (Decoder.item_of_spells (Token.spells_writeDouble d.bits) _ rest).trans
      ((read_double levels rest _).trans ?_)
    simp [ofDouble, hfinite]
  | text s =>
    intro levels _ hsize rest
    refine (Decoder.item_of_spells (Codec.spells_text hsize) _ rest).trans
      ((read_text levels rest _).trans ?_)
    rw [ofUtf8?_utf8]
    rfl
  | @list items _ ih =>
    intro levels hl hsize
    -- a list nests, so a level is open and the items have the others
    rw [nesting] at hl
    obtain ⟨levels, rfl⟩ : ∃ inner, levels = inner + 1 := ⟨levels - 1, by omega⟩
    refine reads_list (fun item hitem ↦ ih item hitem ?_ (length_write_lt_of_mem hitem hsize)) hsize
    have hle := nesting_le_of_mem hitem
    omega
  | @table entries hasc _ ih =>
    intro levels hl hsize
    rw [nesting] at hl
    obtain ⟨levels, rfl⟩ : ∃ inner, levels = inner + 1 := ⟨levels - 1, by omega⟩
    refine reads_table hasc
      (fun e he ↦ ih e he ?_ (length_write_lt_of_mem_entries he hsize).2) hsize
    have hle := nesting_le_of_mem_entries he
    omega

end Offload.Wire.Dynamic
