import Offload.Proofs.Wire.Codec
import Offload.Wire.Nest
import Offload.Wire.Record

/-!
# Records, shapes and nests are restored

The three types that are read by their own recursion. A record takes a level, its tags another one,
and each parent one more; a nest takes a level for each bracket. A shape takes a level if it has
more than one value, for the map around its payload takes none.
-/

namespace Offload.Wire

open Token (Spells)

/-! ### Records

A record is written by recursion on its parents, and read by recursion on the levels. The two are
brought together by the bound that says that there are as many levels as parents.
-/

namespace Record

/-- The arrays of a record inside each other. The tags are one, whether there are any or not. -/
def nesting : Record → Nat
  | root .. => 2
  | child _ _ _ parent => parent.nesting + 1

/-- A record has a level for its fields and one for its tags. -/
theorem two_le_nesting (r : Record) : 2 ≤ r.nesting := by
  induction r with
  | root => exact Nat.le_refl 2
  | child id name tags parent ih => exact Nat.le_succ_of_le ih

/-- A record starts as the array of its four fields. -/
theorem exists_write_eq (r : Record) : ∃ body, r.write = Token.writeArray 4 ++ body := by
  cases r with
  | root => exact ⟨_, List.append_assoc ..⟩
  | child => exact ⟨_, List.append_assoc ..⟩

/-- Reading a record goes on behind its own fields, from the tags on. -/
theorem item_writeOwn {levels : Nat} {id : IntKind.u64.Value} {name : String} {tags : List String}
    (hsize : (writeOwn id name tags).length < 2 ^ 32) (bs : Bytes) :
    (read (levels + 1)).item (writeOwn id name tags ++ bs) =
      (((Codec.list Codec.text).read levels).item ((Codec.list Codec.text).write tags ++ bs)).bind
        fun r ↦ ((Decoder.option (read levels)).item r.2).bind fun r' ↦
          some (make id name r.1 r'.1, r'.2) := by
  simp only [writeOwn, List.length_append] at hsize
  have hname : (Codec.text.read levels).Reads (Codec.text.write name) name :=
    Codec.restores_text (by omega) _
  have hid := Codec.restores_int .u64 id levels
  rw [writeOwn, List.append_assoc, Decoder.item_of_spells (Token.spells_writeArray (by decide))]
  show (guard (4 = 4) >>= fun _ ↦ _) = _
  rw [Decoder.guard_eq_some rfl]
  simp only [List.append_assoc, Option.bind_eq_bind, Option.bind_some]
  rw [hid]
  simp only [Option.bind_some]
  rw [hname]
  rfl

/-- A record is read from its own fields and what its parent is read from. -/
theorem reads_make {levels : Nat} {id : IntKind.u64.Value} {name : String} {tags : List String}
    {parent : Option Record} {bs : Bytes} (hsize : (writeOwn id name tags).length < 2 ^ 32)
    (h : (Decoder.option (read (levels + 1))).Reads bs parent) :
    (read (levels + 2)).Reads (writeOwn id name tags ++ bs) (make id name tags parent) := by
  have htags : (Codec.list Codec.text).Restores (levels + 1) tags :=
    Codec.restores_texts levels (by
      simp only [writeOwn, List.length_append] at hsize
      omega)
  intro rest
  rw [List.append_assoc, item_writeOwn hsize, htags, Option.bind_some, h]
  rfl

/-- A record is restored if as many levels are open as it nests. -/
theorem restores (r : Record) {levels : Nat} (hl : r.nesting ≤ levels)
    (hsize : r.write.length < 2 ^ 32) : codec.Restores levels r := by
  induction r generalizing levels with
  | root id name tags =>
    obtain ⟨levels, rfl⟩ := Nat.exists_eq_add_of_le' hl
    rw [write, List.length_append] at hsize
    exact reads_make (by omega) Decoder.reads_option_none
  | child id name tags parent ih =>
    have htwo := parent.two_le_nesting
    rw [nesting] at hl
    obtain ⟨levels, rfl⟩ : ∃ inner, levels = inner + 2 := ⟨levels - 2, by omega⟩
    rw [write, List.length_append] at hsize
    -- the parent starts with the header of an array, so it is not taken for a missing one
    obtain ⟨body, hbody⟩ := parent.exists_write_eq
    have hparent : (read (levels + 1)).Reads parent.write parent := ih (by omega) (by omega)
    have hoption : (Decoder.option (read (levels + 1))).Reads parent.write (some parent) := by
      rw [hbody] at hparent ⊢
      exact Decoder.reads_option_some (Token.spells_writeArray (by decide)) (by simp) hparent
    exact reads_make (by omega) hoption

end Record

/-! ### Shapes -/

namespace Shape

/-- The arrays of a shape inside each other: the one of its values if it has more than one. -/
def nesting : Shape → Nat
  | empty | circle _ => 0
  | rect .. | label .. => 1

/-- A label is read from the array of its fields. -/
theorem reads_label {levels : Nat} {fields : String × IntKind.u8.Value} {bs : Bytes}
    (h : ((Codec.pair Codec.text (Codec.int .u8)).read levels).Reads (Token.writeArray 2 ++ bs)
      fields) :
    (readLabel levels).Reads (Token.writeArray 2 ++ bs) (label fields.1 fields.2) := by
  have htwo : Spells (Token.writeArray 2) (.array 2) := Token.spells_writeArray (by decide)
  refine Decoder.reads_of_spells htwo fun rest ↦ ?_
  have hread := h rest
  rw [List.append_assoc, Decoder.item_of_spells htwo] at hread
  simp only [readLabel]
  rw [hread]
  rfl

/-- A shape is restored if as many levels are open as it nests. -/
theorem restores (s : Shape) {levels : Nat} (hl : s.nesting ≤ levels)
    (hsize : s.write.length < 2 ^ 32) : codec.Restores levels s := by
  cases s with
  | empty =>
    show (Decoder.variant variantNames _ _).Reads (Codec.writeName "Empty") empty
    exact Codec.reads_writeName (i := 0) (by decide) (by decide) rfl
  | circle radius =>
    have hradius := Codec.restores_int .u32 radius levels
    exact Codec.reads_writeVariant (i := 1) (by decide) (by decide) (hradius.map rfl)
  | rect width height =>
    obtain ⟨levels, rfl⟩ : ∃ inner, levels = inner + 1 := Nat.exists_eq_add_of_le' hl
    have hsides := Codec.restores_pair (Codec.restores_int .i32 width levels)
      (Codec.restores_int .i32 height levels)
    have hpayload : (readPayload (levels + 1) 2).Reads _ (rect width height) :=
      hsides.map (f := fun sides : IntKind.i32.Value × IntKind.i32.Value ↦
        some (rect sides.1 sides.2)) rfl
    exact Codec.reads_writeVariant (by decide) (by decide) hpayload
  | label text size =>
    obtain ⟨levels, rfl⟩ : ∃ inner, levels = inner + 1 := Nat.exists_eq_add_of_le' hl
    have htext : (Codec.text.write text).length < 2 ^ 32 := by
      simp only [write, Codec.writeVariant, Codec.pair, List.length_append] at hsize
      omega
    have hfields := Codec.restores_pair (Codec.restores_text htext levels)
      (Codec.restores_int .u8 size levels)
    have hpayload : (readPayload (levels + 1) 3).Reads _ (label text size) := reads_label hfields
    exact Codec.reads_writeVariant (by decide) (by decide) hpayload

end Shape

/-! ### Nests

A nest is a list of nests. It is read at one level less for each height, and the brackets of all
nests beside it are behind those inside it.
-/

namespace Nest

/-- The nests that a nest lists are less high. -/
theorem height_lt_of_mem {n m : Nest} (h : m ∈ n.toList) : m.height < n.height := by
  induction n with
  | empty => cases h
  | cons first rest _ ih =>
    rcases List.mem_cons.1 h with rfl | h
    · exact Nat.lt_of_lt_of_le (Nat.lt_succ_self _) (Nat.le_max_left ..)
    · exact Nat.lt_of_lt_of_le (ih h) (Nat.le_max_right ..)

theorem one_le_height (n : Nest) : 1 ≤ n.height := by
  induction n with
  | empty => exact Nat.le_refl 1
  | cons first rest _ ih => exact Nat.le_trans ih (Nat.le_max_right ..)

/-- What a nest is written in front of stays there. -/
theorem writeOnto_append (n : Nest) (tail more : Bytes) :
    n.writeOnto tail ++ more = n.writeOnto (tail ++ more) := by
  induction n generalizing tail with
  | empty => rfl
  | cons first rest ihf ihr => rw [writeOnto, writeOnto, List.append_assoc, ihf, ihr]

/-- A nest is written as the list of its nests. -/
theorem write_eq (n : Nest) :
    n.write = Token.writeArray n.toList.length ++ n.toList.flatMap write := by
  have honto : ∀ (m : Nest) tail, m.writeOnto tail = m.toList.flatMap write ++ tail := by
    intro m
    induction m with
    | empty => exact fun _ ↦ rfl
    | cons first rest _ ih =>
      intro tail
      rw [writeOnto, ih, toList, List.flatMap_cons, write, List.append_assoc, List.append_assoc,
        writeOnto_append, List.nil_append]
  rw [write, honto, List.append_nil, length_toList]

/-- A nest is read as a list of nests at one level less. -/
theorem read_succ (levels : Nat) :
    read (levels + 1) =
      Decoder.filterMap (some ∘ ofList) (Decoder.list (fun _ ↦ read levels) (levels + 1)) := by
  funext token bs
  simp only [read, Decoder.filterMap]
  cases Decoder.list (fun _ ↦ read levels) (levels + 1) token bs <;> rfl

/-- A nest is restored if as many levels are open as it is high. -/
theorem restores (n : Nest) {levels : Nat} (hl : n.height ≤ levels)
    (hsize : n.write.length < 2 ^ 32) : codec.Restores levels n := by
  -- on the levels, since the nests of a list are read at one level less, all of them
  induction levels generalizing n with
  | zero => exact absurd hl (Nat.not_le_of_lt n.one_le_height)
  | succ levels ih =>
    rw [write_eq] at hsize
    have hnests : ∀ m ∈ n.toList, (read levels).Reads m.write m := fun m hm ↦ by
      have hlt := height_lt_of_mem hm
      have hle := Codec.length_le_flatMap (f := write) hm
      rw [List.length_append] at hsize
      exact ih m (by omega) (by omega)
    have hlist : (Decoder.list (fun _ ↦ read levels) (levels + 1)).Reads _ n.toList :=
      Decoder.reads_list hnests hsize
    show (read (levels + 1)).Reads n.write n
    rw [write_eq, read_succ]
    exact hlist.map (congrArg some n.ofList_toList)

end Nest

end Offload.Wire
