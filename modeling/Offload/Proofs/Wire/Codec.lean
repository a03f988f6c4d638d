import Offload.Proofs.Wire.Decoder
import Offload.Wire.Codec

/-!
# Codecs that restore

A codec *restores* a value at a number of open levels if it reads the value from what it writes.
Numbers, characters and the like are restored at every level, a text if its length fits 32 bits. A
compound needs a level of its own, and is restored if its parts are at the levels that are left.

What bounds the lengths is always the length of the whole. A caller has the bytes of a frame and
their number, and what is inside takes no more than that. So the laws of compounds ask for one
bound, and give it on to their parts.
-/

namespace Offload.Wire.Codec

open Token (Spells)

variable {α β : Type}

/-- Whether a value is read, with a number of levels open, from what is written of it. -/
def Restores (c : Codec α) (levels : Nat) (a : α) : Prop :=
  (c.read levels).Reads (c.write a) a

/-! ### Scalars

A scalar is one token, so it is restored as soon as the token is read back. Levels play no part.
-/

/-- The token of an integer is read as that integer. -/
theorem integer?_ofInteger (n : Int) : integer? (Token.ofInteger n) = some n := by
  rw [Token.ofInteger]
  split
  · next h => simp [integer?, Int.toNat_of_nonneg h]
  · rfl

theorem ofInteger_ne_nil (n : Int) : Token.ofInteger n ≠ .nil := by
  rw [Token.ofInteger]
  split <;> exact Token.noConfusion

/-- The integers of every type fit 64 bits. -/
theorem bounds_of_kind (k : IntKind) {n : Int} (hl : k.least ≤ n) (hu : n ≤ k.greatest) :
    -2 ^ 63 ≤ n ∧ n < 2 ^ 64 := by
  rcases k with ⟨_ | _, _ | _ | _ | _⟩ <;>
    simp only [IntKind.least, IntKind.greatest, Width.bits, if_true] at hl hu <;> omega

theorem spells_int (k : IntKind) (n : k.Value) :
    Spells ((int k).write n) (Token.ofInteger n.val) := by
  obtain ⟨hl, hu⟩ := bounds_of_kind k n.property.1 n.property.2
  exact Token.spells_writeInteger hl hu

/-- An integer of any kind is restored at any number of levels. -/
theorem restores_int (k : IntKind) (n : k.Value) (levels : Nat) : (int k).Restores levels n :=
  Decoder.reads_scalar (spells_int k n) (by rw [integer?_ofInteger]; exact k.ofInt?_val n)

theorem restores_bool (b : Bool) (levels : Nat) : bool.Restores levels b :=
  Decoder.reads_scalar (Token.spells_writeBool b) rfl

theorem restores_unit (u : Unit) (levels : Nat) : unit.Restores levels u := by
  intro rest
  exact Decoder.item_of_spells Token.spells_writeNil _ rest

/-- A float is restored bit by bit, also if it is not a number. -/
theorem restores_double (d : Double) (levels : Nat) : double.Restores levels d :=
  Decoder.reads_scalar (Token.spells_writeDouble d.bits) (by simp)

theorem restores_octet (b : UInt8) (levels : Nat) : octet.Restores levels b := by
  have hb : b.toNat < 2 ^ 8 := b.toNat_lt
  refine Decoder.reads_scalar (Token.spells_writeUnsigned (by omega)) ?_
  simp only [integer?, Option.bind_some]
  rw [if_pos (by omega)]
  simp

/-! ### Texts

A text is a length and as many bytes. Inside a frame its length is bounded by that of the frame, and
so it fits.
-/

/-- A text takes its own bytes and at most five more. -/
theorem textSize_bounds (length : Nat) :
    length ≤ textSize length ∧ textSize length ≤ 5 + length := by
  rw [textSize]
  split
  · omega
  · split
    · omega
    · split <;> omega

/-- A text is no longer than what is written of it. -/
theorem utf8ByteSize_le_length_write (s : String) : s.utf8ByteSize ≤ (text.write s).length := by
  rw [← text.size_eq s]
  exact (textSize_bounds s.utf8ByteSize).1

section

variable {s : String} (hs : (text.write s).length < 2 ^ 32)

include hs

theorem spells_text : Spells (text.write s) (.text (utf8 s)) :=
  Decoder.spells_name (Nat.lt_of_le_of_lt (utf8ByteSize_le_length_write s) hs)

theorem restores_text (levels : Nat) : text.Restores levels s :=
  Decoder.reads_scalar (spells_text hs) (ofUtf8?_utf8 s)

end

/-- A character is restored: it is written as a text of one character. -/
theorem restores_char (c : Char) (levels : Nat) : char.Restores levels c := by
  have hs : (text.write (String.singleton c)).length < 2 ^ 32 := by
    have hc : (String.singleton c).utf8ByteSize ≤ 4 := by
      rw [String.utf8ByteSize_singleton]
      exact c.utf8Size_le_four
    rw [← text.size_eq]
    show textSize _ < _
    rw [textSize]
    rw [if_pos (by omega)]
    omega
  refine Decoder.reads_scalar (spells_text hs) ?_
  simp [ofUtf8?_utf8]

/-! ### Compounds

For each compound the law of the decoder is applied to the header and the parts. Lists and options,
pairs and variants are independent of what is in them.
-/

theorem restores_option_none {c : Codec α} (levels : Nat) : (option c).Restores levels none :=
  Decoder.reads_option_none

/-- A value that is written as anything but nothing is told from a missing one. -/
theorem restores_option_some {c : Codec α} {levels : Nat} {a : α} {token : Token}
    (hs : Spells (c.write a) token) (hne : token ≠ .nil) (h : c.Restores levels a) :
    (option c).Restores levels (some a) := by
  have hread : (c.read levels).Reads (c.write a ++ []) a := by rwa [List.append_nil]
  have hoption := Decoder.reads_option_some hs hne hread
  rwa [List.append_nil] at hoption

section

variable {γ : Type} {f : γ → Bytes} {c : γ} {cs : List γ}

theorem length_le_flatMap (h : c ∈ cs) : (f c).length ≤ (cs.flatMap f).length := by
  obtain ⟨before, behind, rfl⟩ := List.append_of_mem h
  simp only [List.flatMap_append, List.flatMap_cons, List.length_append]
  omega

end

/-- A list is restored if its items are at one level less. -/
theorem restores_list {c : Codec α} {levels : Nat} {vs : List α}
    (h : ∀ v ∈ vs, c.Restores levels v) (hsize : ((list c).write vs).length < 2 ^ 32) :
    (list c).Restores (levels + 1) vs :=
  Decoder.reads_list h hsize

section

variable {ss : List String} (hsize : ((list text).write ss).length < 2 ^ 32)

include hsize

/-- The parts of a list that fits do fit. -/
theorem length_write_lt_of_mem {s : String} (hs : s ∈ ss) : (text.write s).length < 2 ^ 32 := by
  have hle := length_le_flatMap (f := text.write) hs
  have hlist : ((list text).write ss).length =
      (Token.writeArray ss.length).length + (ss.flatMap text.write).length := List.length_append
  omega

/-- Texts start as the array of them. -/
theorem spells_texts : Spells (Token.writeArray ss.length) (.array ss.length) := by
  have hle := Decoder.length_le_of_reads fun s hs ↦
    restores_text (length_write_lt_of_mem hsize hs) 0
  have hlist : ((list text).write ss).length =
      (Token.writeArray ss.length).length + (ss.flatMap text.write).length := List.length_append
  exact Token.spells_writeArray (by omega)

end

theorem restores_texts {ss : List String} (levels : Nat)
    (hsize : ((list text).write ss).length < 2 ^ 32) : (list text).Restores (levels + 1) ss :=
  restores_list (fun _ hs ↦ restores_text (length_write_lt_of_mem hsize hs) levels) hsize

/-- A pair is restored if its parts are at one level less. -/
theorem restores_pair {c : Codec α} {d : Codec β} {levels : Nat} {a : α} {b : β}
    (ha : c.Restores levels a) (hb : d.Restores levels b) :
    (pair c d).Restores (levels + 1) (a, b) :=
  Decoder.reads_pair ha hb

section

variable {names : List String} {bare : Nat → Option α} {payload : Nat → Decoder α} {a : α}

theorem reads_writeName {name : String} {i : Nat} (hi : names.findIdx? (· == name) = some i)
    (hn : name.utf8ByteSize < 2 ^ 32) (h : bare i = some a) :
    (Decoder.variant names bare payload).Reads (writeName name) a :=
  Decoder.reads_variant_bare hi hn h

/-- Behind the name of a variant its payload is read. -/
theorem item_writeVariant {name : String} {i : Nat} (hi : names.findIdx? (· == name) = some i)
    (hn : name.utf8ByteSize < 2 ^ 32) (bs : Bytes) :
    (Decoder.variant names bare payload).item (writeVariant name bs) = (payload i).item bs :=
  Decoder.item_variant hi hn bs

theorem reads_writeVariant {name : String} {i : Nat} {bs : Bytes}
    (hi : names.findIdx? (· == name) = some i) (hn : name.utf8ByteSize < 2 ^ 32)
    (h : (payload i).Reads bs a) :
    (Decoder.variant names bare payload).Reads (writeVariant name bs) a :=
  Decoder.reads_variant hi hn h

end

/-! ### Tables

A table is written in the order of its keys and read in any. It is restored since an ascending list
is already in the order in which it is put.
-/

/-- A key behind all others goes to the end. -/
theorem insertAscending_of_lt {key : String} {value : β} {entries : List (String × β)}
    (h : ∀ e ∈ entries, e.1 < key) :
    insertAscending key value entries = entries ++ [(key, value)] := by
  induction entries with
  | nil => rfl
  | cons e entries ih =>
    have he : e.1 < key := h e List.mem_cons_self
    have hne : key ≠ e.1 := fun heq ↦ String.lt_irrefl _ (heq ▸ he)
    rw [insertAscending, if_neg (fun hlt ↦ String.lt_irrefl _ (String.lt_trans hlt he)), if_neg hne,
      ih fun e' he' ↦ h e' (List.mem_cons_of_mem e he')]
    rfl

/-- Entries in ascending order are their own table. -/
theorem ascending_of_ascends {entries : List (String × β)} (h : Ascends entries) :
    ascending entries = entries := by
  -- the table so far and the entries to come are in order together
  have hfold : ∀ (more table : List (String × β)), Ascends (table ++ more) →
      more.foldl (fun table e ↦ insertAscending e.1 e.2 table) table =
        table ++ more := by
    intro more
    induction more with
    | nil => intro table _; simp
    | cons e more ih =>
      intro table htable
      have hlt : ∀ e' ∈ table, e'.1 < e.1 := fun e' he' ↦
        (List.pairwise_append.1 htable).2.2 e' he' e List.mem_cons_self
      rw [List.foldl_cons]
      show more.foldl _ (insertAscending e.1 e.2 table) = _
      rw [insertAscending_of_lt hlt, ih _ (by simpa using htable)]
      simp
  exact hfold entries [] h

/-- A map with texts for keys, where the first key may be read otherwise than the others: its
header fits, and it is read behind that. -/
theorem entries_write {firstKey : Decoder String} {levels : Nat} {value : Nat → Decoder β}
    {write : β → Bytes} {es : List (String × β)}
    (hfirst : ∀ s, (text.write s).length < 2 ^ 32 → firstKey.Reads (text.write s) s)
    (h : ∀ e ∈ es, (value levels).Reads (write e.2) e.2)
    (hsize : (Token.writeMap es.length ++
      es.flatMap fun e ↦ text.write e.1 ++ write e.2).length < 2 ^ 32) (keyLevels : Nat) :
    Spells (Token.writeMap es.length) (.map es.length) ∧
      ∀ rest, Decoder.entries firstKey (text.read keyLevels) value (levels + 1) (.map es.length)
        ((es.flatMap fun e ↦ text.write e.1 ++ write e.2) ++ rest) = some (es, rest) := by
  rw [List.length_append] at hsize
  have hkey : ∀ e ∈ es, (text.write e.1).length < 2 ^ 32 := fun e he ↦ by
    have hle := length_le_flatMap (f := fun e : String × β ↦ text.write e.1 ++ write e.2) he
    simp only [List.length_append] at hle
    omega
  have hentry : ∀ e ∈ es, (Decoder.entry (text.read keyLevels) (value levels)).Reads
      (text.write e.1 ++ write e.2) e := fun e he ↦
    Decoder.reads_entry (restores_text (hkey e he) keyLevels) (h e he)
  have hentry' : ∀ e ∈ es, (Decoder.entry firstKey (value levels)).Reads
      (text.write e.1 ++ write e.2) e := fun e he ↦
    Decoder.reads_entry (hfirst e.1 (hkey e he)) (h e he)
  have hle := Decoder.length_le_of_reads hentry
  exact ⟨Token.spells_writeMap (by omega), fun rest ↦ Decoder.entries_flatMap hentry' hentry rest⟩

/-- A table is restored if its values are at one level less. -/
theorem restores_table {c : Codec β} {levels : Nat} {t : Table β}
    (h : ∀ e ∈ t.entries, c.Restores levels e.2) (hsize : ((table c).write t).length < 2 ^ 32) :
    (table c).Restores (levels + 1) t := by
  have hkey : ∀ s, (text.write s).length < 2 ^ 32 →
      (text.read (levels + 1)).Reads (text.write s) s := fun s hs ↦ restores_text hs (levels + 1)
  obtain ⟨hmap, hentries⟩ := entries_write hkey h hsize (levels + 1)
  have hlist : some (Table.ofList t.entries) = some t :=
    congrArg some (Table.ext (ascending_of_ascends t.ascends))
  exact (Decoder.reads_of_spells hmap hentries).map
    (f := fun entries ↦ some (Table.ofList entries)) hlist

end Offload.Wire.Codec
