import Offload.Proofs.Wire.Type

/-!
# Values that are written and not read

The other half of the laws of restoring. Bytes are *rejected* if nothing is read from them, whatever
follows. A nest or a record is restored at as many levels as it nests, and rejected at fewer. A
dynamic value is read as itself or rejected (`Dynamic.reads_or_rejects`); and all that is read, from
whatever bytes, travels and keeps to the levels that are open (`Dynamic.travels_of_read`).

So what is written of a value is read as the value or not at all, and it is read just if the value
travels and nests no deeper than the levels (`ValueType.reads_iff`).

To be rejected is stronger than not to be restored. A decoder might read another value from the
bytes of one that it does not restore, and then a receiver would get an outcome that nobody sent.
`Rejects` excludes this for every continuation of the bytes, since behind a value in a structure
other fields follow.
-/

namespace Offload.Wire

open Token (Spells)

namespace Decoder

variable {α β : Type} {d : Decoder α} {bs cs header body : Bytes} {token : Token}

/-- Bytes from which a decoder reads nothing, whatever follows them. -/
def Rejects (d : Decoder α) (bs : Bytes) : Prop :=
  ∀ rest, d.item (bs ++ rest) = none

theorem rejects_of_spells (h : Spells header token) (hd : ∀ bs, d token bs = none) :
    d.Rejects (header ++ body) := by
  intro rest
  rw [List.append_assoc, item_of_spells h, hd]

section

variable {write : α → Bytes} {vs : List α}

/-- One value that is rejected is enough, if those before it are read. -/
theorem itemsOnto_flatMap_eq_none (h : ∀ v ∈ vs, d.Reads (write v) v ∨ d.Rejects (write v))
    (hex : ∃ v ∈ vs, d.Rejects (write v)) (done : List α) (rest : Bytes) :
    itemsOnto d vs.length done (vs.flatMap write ++ rest) = none := by
  induction vs generalizing done with
  | nil => simp at hex
  | cons v vs ih =>
    rw [List.flatMap_cons, List.append_assoc, List.length_cons, itemsOnto]
    rcases h v List.mem_cons_self with hv | hv
    · have hex' : ∃ w ∈ vs, d.Rejects (write w) := by
        obtain ⟨w, hw, hrejects⟩ := hex
        rcases List.mem_cons.1 hw with rfl | hw
        · have hread := hv []
          rw [hrejects []] at hread
          cases hread
        · exact ⟨w, hw, hrejects⟩
      rw [hv]
      exact ih (fun w hw ↦ h w (List.mem_cons_of_mem v hw)) hex' _
    · rw [hv]
      rfl

/-- Items are not read if one of them is rejected and the others are read or rejected. -/
theorem items_flatMap_eq_none (h : ∀ v ∈ vs, d.Reads (write v) v ∨ d.Rejects (write v))
    (hex : ∃ v ∈ vs, d.Rejects (write v)) (rest : Bytes) :
    items d vs.length (vs.flatMap write ++ rest) = none :=
  itemsOnto_flatMap_eq_none h hex [] rest

end

/-- What holds of every value that is read holds of every item. -/
theorem forall_of_itemsOnto {p : α → Prop}
    (h : ∀ token bs a rest, d token bs = some (a, rest) → p a) {n : Nat} {done vs : List α}
    {bs rest : Bytes} (hdone : ∀ a ∈ done, p a) (hitems : itemsOnto d n done bs = some (vs, rest)) :
    ∀ a ∈ vs, p a := by
  induction n generalizing done bs with
  | zero =>
    cases hitems
    simpa using hdone
  | succ n ih =>
    rw [itemsOnto, Option.bind_eq_some_iff] at hitems
    obtain ⟨⟨a, rest'⟩, ha, hitems⟩ := hitems
    obtain ⟨token, bs', ha⟩ := eq_some_of_item ha
    refine ih (fun b hb ↦ ?_) hitems
    rcases List.mem_cons.1 hb with rfl | hb
    · exact h _ _ _ _ ha
    · exact hdone b hb

/-- What holds of all that a decoder reads holds of all items. -/
theorem forall_of_items {p : α → Prop}
    (h : ∀ token bs a rest, d token bs = some (a, rest) → p a) {n : Nat} {vs : List α}
    {bs rest : Bytes} (hitems : items d n bs = some (vs, rest)) : ∀ a ∈ vs, p a :=
  forall_of_itemsOnto h (by simp) hitems

/-- What holds of all that is read as a value holds of the value of an entry. -/
theorem snd_of_entry {p : β → Prop} {key : Decoder α} {value : Decoder β}
    (h : ∀ token bs b rest, value token bs = some (b, rest) → p b) {token : Token} {bs rest : Bytes}
    {e : α × β} (he : entry key value token bs = some (e, rest)) : p e.2 := by
  rw [entry, Option.bind_eq_some_iff] at he
  obtain ⟨⟨a, rest'⟩, -, he⟩ := he
  rw [Option.map_eq_some_iff] at he
  obtain ⟨⟨b, rest''⟩, hb, heq⟩ := he
  obtain ⟨token', bs', hb⟩ := eq_some_of_item hb
  cases heq
  exact h _ _ _ _ hb

/-- What holds of every value that is read holds of the values of a map. -/
theorem forall_of_entries {p : β → Prop} {firstKey key : Decoder α} {value : Nat → Decoder β}
    {levels n : Nat} (h : ∀ token bs b rest, value levels token bs = some (b, rest) → p b)
    {es : List (α × β)} {bs rest : Bytes}
    (hentries : entries firstKey key value (levels + 1) (.map n) bs = some (es, rest)) :
    ∀ e ∈ es, p e.2 := by
  rcases n with - | n
  · cases hentries
    exact fun e he ↦ nomatch he
  · rw [entries, Option.bind_eq_some_iff] at hentries
    obtain ⟨⟨first, rest'⟩, hfirst, hothers⟩ := hentries
    rw [Option.map_eq_some_iff] at hothers
    obtain ⟨⟨others, rest''⟩, hothers, heq⟩ := hothers
    obtain ⟨token, bs', hfirst⟩ := eq_some_of_item hfirst
    cases heq
    intro e he
    rcases List.mem_cons.1 he with rfl | he
    · exact snd_of_entry h hfirst
    · exact forall_of_items (p := fun e ↦ p e.2) (fun _ _ _ _ ↦ snd_of_entry h) hothers e he

/-- An entry stands and falls with its value. -/
theorem rejects_entry {key : Decoder α} {value : Decoder β} {a : α} (hk : key.Reads bs a)
    (hv : value.Rejects cs) : (entry key value).Rejects (bs ++ cs) := by
  intro rest
  rw [item_entry, List.append_assoc, hk, Option.bind_some, hv]
  rfl

/-- A map is not read if one of its values is not, where the first key may be read otherwise. -/
theorem entries_flatMap_eq_none {firstKey key : Decoder α} {value : Nat → Decoder β} {levels : Nat}
    {write : α × β → Bytes} {es : List (α × β)}
    (hfirst : ∀ e ∈ es, (entry firstKey (value levels)).Reads (write e) e ∨
      (entry firstKey (value levels)).Rejects (write e))
    (h : ∀ e ∈ es, (entry key (value levels)).Reads (write e) e ∨
      (entry key (value levels)).Rejects (write e))
    (hex : ∃ e ∈ es, (entry firstKey (value levels)).Rejects (write e) ∧
      (entry key (value levels)).Rejects (write e)) (rest : Bytes) :
    entries firstKey key value (levels + 1) (.map es.length) (es.flatMap write ++ rest) = none := by
  obtain ⟨rejected, hmem, hrejects, hrejects'⟩ := hex
  rcases es with - | ⟨e, es⟩
  · cases hmem
  · rw [List.flatMap_cons, List.append_assoc]
    show ((entry firstKey (value levels)).item (write e ++ _)).bind _ = none
    rcases hfirst e List.mem_cons_self with he | he
    · -- the first entry is read, so it is another one that is not
      have hmem' : rejected ∈ es := by
        rcases List.mem_cons.1 hmem with rfl | hmem
        · exact absurd ((hrejects []).symm.trans (he [])) nofun
        · exact hmem
      have hothers := items_flatMap_eq_none (fun e' he' ↦ h e' (List.mem_cons_of_mem e he'))
        ⟨rejected, hmem', hrejects'⟩ rest
      rw [he, Option.bind_some]
      show (items (entry key (value levels)) es.length _).map _ = none
      rw [hothers]
      rfl
    · rw [he]
      rfl

end Decoder

/-! ### Nests

What is written of a nest is a bracket for each nest, so a nest that is too high is rejected at the
bracket that is one too many, whatever stands beside it.
-/

namespace Nest

/-- A nest is as high as it is by its highest nest, if it lists any. -/
theorem exists_mem_height (n : Nest) : n.height = 1 ∨ ∃ m ∈ n.toList, n.height = m.height + 1 := by
  induction n with
  | empty => exact .inl rfl
  | cons first rest _ ih =>
    rw [height]
    rcases Nat.le_total rest.height (first.height + 1) with hle | hle
    · exact .inr ⟨first, List.mem_cons_self, Nat.max_eq_left hle⟩
    · rw [Nat.max_eq_right hle]
      exact ih.imp id fun ⟨m, hm, heq⟩ ↦ ⟨m, List.mem_cons_of_mem _ hm, heq⟩

/-- A line of brackets is as high as there are brackets. -/
theorem height_line (n : Nat) : (line n).height = n + 1 := by
  induction n with
  | zero => rfl
  | succ n ih => rw [line, height, ih, height, Nat.max_eq_left (Nat.le_add_left 1 (n + 1))]

/-- It is written in a byte for each. -/
theorem length_write_line (n : Nat) : (line n).write.length = n + 1 := by
  induction n with
  | zero => rfl
  | succ n ih =>
    have hwrite : (line (n + 1)).write = Token.writeArray 1 ++ (line n).write := rfl
    rw [hwrite, List.length_append, ih, Nat.add_comm]
    rfl

theorem length_write_pos (n : Nest) : 0 < n.write.length := by
  have hheader := Token.length_writeArray_pos n.length
  rw [write, List.length_append]
  omega

/-- A nest starts as the array of its nests, which are no more than their bytes. -/
theorem spells_header {n : Nest} (hsize : n.write.length < 2 ^ 32) :
    Spells (Token.writeArray n.toList.length) (.array n.toList.length) := by
  have hle := Decoder.length_le_flatMap_of_pos fun m (_ : m ∈ n.toList) ↦ m.length_write_pos
  rw [write_eq, List.length_append] at hsize
  exact Token.spells_writeArray (by omega)

/-- A nest with more brackets inside each other than there are levels. -/
theorem rejects (n : Nest) {levels : Nat} (hl : levels < n.height)
    (hsize : n.write.length < 2 ^ 32) : (read levels).Rejects n.write := by
  -- on the levels, as for the nests that are restored
  induction levels generalizing n with
  | zero =>
    rw [write_eq]
    exact Decoder.rejects_of_spells (spells_header hsize) fun _ ↦ rfl
  | succ levels ih =>
    obtain ⟨highest, hmem, hheight⟩ := n.exists_mem_height.resolve_left (by omega)
    have hheader := spells_header hsize
    have hsmall : ∀ m ∈ n.toList, m.write.length < 2 ^ 32 := fun m hm ↦ by
      have hle := Codec.length_le_flatMap (f := write) hm
      rw [write_eq, List.length_append] at hsize
      omega
    have hnests : ∀ m ∈ n.toList, (read levels).Reads m.write m ∨ (read levels).Rejects m.write :=
      fun m hm ↦ by
        rcases Nat.lt_or_ge levels m.height with hlt | hge
        · exact .inr (ih m hlt (hsmall m hm))
        · exact .inl (restores m hge (hsmall m hm))
    have hrejects : (read levels).Rejects highest.write := ih highest (by omega) (hsmall _ hmem)
    intro rest
    rw [write_eq, List.append_assoc, Decoder.item_of_spells hheader, read_succ]
    show (Decoder.items (read levels) n.toList.length _).bind _ = none
    rw [Decoder.items_flatMap_eq_none hnests ⟨highest, hmem, hrejects⟩]
    rfl

end Nest

/-! ### Records

The parents of a record are the one thing in it that can go deep. A record is rejected at fewer
levels because its innermost parent is.
-/

namespace Record

/-- A record starts as the array of its four fields, for which no level may be open. -/
theorem rejects_zero (r : Record) : (read 0).Rejects r.write := by
  obtain ⟨body, hbody⟩ := r.exists_write_eq
  rw [hbody]
  exact Decoder.rejects_of_spells (Token.spells_writeArray (by decide)) fun _ ↦ rfl

/-- At one level no other is open for the tags. -/
theorem rejects_one {id : IntKind.u64.Value} {name : String} {tags : List String}
    (hsize : (writeOwn id name tags).length < 2 ^ 32) (bs : Bytes) :
    (read 1).Rejects (writeOwn id name tags ++ bs) := by
  have htags : ((Codec.list Codec.text).write tags).length < 2 ^ 32 := by
    simp only [writeOwn, List.length_append] at hsize
    omega
  intro rest
  rw [List.append_assoc, item_writeOwn hsize]
  show (Decoder.item _ (Token.writeArray _ ++ _ ++ _)).bind _ = none
  rw [List.append_assoc, Decoder.item_of_spells (Codec.spells_texts htags)]
  rfl

/-- A parent that is rejected is not taken for a missing one. -/
theorem rejects_option {levels : Nat} {parent : Record} (h : (read levels).Rejects parent.write) :
    (Decoder.option (read levels)).Rejects parent.write := by
  obtain ⟨body, hbody⟩ := parent.exists_write_eq
  have hheader : Spells (Token.writeArray 4) (.array 4) := Token.spells_writeArray (by decide)
  intro rest
  have hread := h rest
  rw [hbody, List.append_assoc, Decoder.item_of_spells hheader] at hread ⊢
  show (read levels (.array 4) _).map _ = none
  rw [hread]
  rfl

/-- A record is rejected at fewer levels than it nests. -/
theorem rejects (r : Record) {levels : Nat} (hl : levels < r.nesting)
    (hsize : r.write.length < 2 ^ 32) : (read levels).Rejects r.write := by
  induction r generalizing levels with
  | root id name tags =>
    rw [write, List.length_append] at hsize
    rw [nesting] at hl
    rcases levels with - | - | levels
    · exact rejects_zero _
    · exact rejects_one (by omega) _
    · omega
  | child id name tags parent ih =>
    rw [write, List.length_append] at hsize
    rw [nesting] at hl
    rcases levels with - | - | levels
    · exact rejects_zero _
    · exact rejects_one (by omega) _
    · -- the tags are read, so what decides is the parent
      have htags : (Codec.list Codec.text).Restores (levels + 1) tags :=
        Codec.restores_texts levels (by
          simp only [writeOwn, List.length_append] at hsize
          omega)
      have hparent : (Decoder.option (read (levels + 1))).Rejects parent.write :=
        rejects_option (ih (by omega) (by omega))
      intro rest
      rw [write, List.append_assoc, item_writeOwn (by omega), htags, Option.bind_some, hparent]
      rfl

end Record

/-- A shape needs one level at most. -/
theorem Shape.nesting_le_one (s : Shape) : s.nesting ≤ 1 := by
  cases s with
  | empty | circle => exact Nat.zero_le 1
  | rect | label => exact Nat.le_refl 1

/-! ### Dynamic values

These are the only values that are written and read as something else or not at all. That they are
never read as something else is a fact about what is written, and that what is read travels is one
about any bytes.
-/

namespace Dynamic

theorem nestingOfItems_le {items : List Dynamic} {n : Nat} (h : ∀ item ∈ items, item.nesting ≤ n) :
    nestingOfItems items ≤ n := by
  induction items with
  | nil => exact Nat.zero_le _
  | cons item rest ih =>
    rw [nestingOfItems]
    exact Nat.max_le.2 ⟨h item List.mem_cons_self, ih fun i hi ↦ h i (List.mem_cons_of_mem _ hi)⟩

theorem nestingOfEntries_le {entries : List (String × Dynamic)} {n : Nat}
    (h : ∀ entry ∈ entries, entry.2.nesting ≤ n) : nestingOfEntries entries ≤ n := by
  induction entries with
  | nil => exact Nat.zero_le _
  | cons entry rest ih =>
    rw [nestingOfEntries]
    exact Nat.max_le.2 ⟨h entry List.mem_cons_self, ih fun e he ↦ h e (List.mem_cons_of_mem _ he)⟩

theorem travels_ofInt? {n : Int} {d : Dynamic} (h : ofInt? n = some d) (levels : Nat) :
    d.Travels ∧ d.nesting ≤ levels := by
  rw [ofInt?] at h
  split at h
  · cases h
    exact ⟨.int _, Nat.zero_le _⟩
  · cases h

/-- A float that is read travels: one that is not finite is read as null. -/
theorem travels_ofDouble (d : Double) (levels : Nat) :
    (ofDouble d).Travels ∧ (ofDouble d).nesting ≤ levels := by
  rw [ofDouble]
  split
  · next h => exact ⟨.float h, Nat.zero_le _⟩
  · exact ⟨.null, Nat.zero_le _⟩

/-- All that is read travels and keeps to the levels that are open. -/
theorem travels_of_read {levels : Nat} {token : Token} {bs rest : Bytes} {d : Dynamic}
    (h : read levels token bs = some (d, rest)) : d.Travels ∧ d.nesting ≤ levels := by
  induction levels using Nat.strongRecOn generalizing token bs d rest with
  | ind levels ih =>
    -- the cases are the tokens that a value can begin with, in the order of the decoder
    rw [read.eq_def] at h
    split at h
    · cases h
      exact ⟨.null, Nat.zero_le _⟩
    · cases h
      exact ⟨.bool _, Nat.zero_le _⟩
    · obtain ⟨value, hvalue, heq⟩ := Option.map_eq_some_iff.1 h
      cases heq
      exact travels_ofInt? hvalue levels
    · obtain ⟨value, hvalue, heq⟩ := Option.map_eq_some_iff.1 h
      cases heq
      exact travels_ofInt? hvalue levels
    · cases h
      exact travels_ofDouble _ levels
    · cases h
      exact travels_ofDouble _ levels
    · obtain ⟨value, hvalue, heq⟩ := Option.map_eq_some_iff.1 h
      cases heq
      exact ⟨.text _, Nat.zero_le _⟩
    · next n inner =>
      obtain ⟨⟨items, rest'⟩, hitems, heq⟩ := Option.map_eq_some_iff.1 h
      cases heq
      have hread : ∀ item ∈ items, item.Travels ∧ item.nesting ≤ inner :=
        Decoder.forall_of_items (fun _ _ _ _ ↦ ih inner (Nat.lt_succ_self _)) hitems
      exact ⟨.list fun item hitem ↦ (hread item hitem).1,
        Nat.succ_le_succ (nestingOfItems_le fun item hitem ↦ (hread item hitem).2)⟩
    · next n inner =>
      obtain ⟨⟨entries, rest'⟩, hentries, heq⟩ := Option.map_eq_some_iff.1 h
      cases heq
      have hread : ∀ entry ∈ entries, entry.2.Travels ∧ entry.2.nesting ≤ inner := by
        refine Decoder.forall_of_entries (p := fun value ↦ Travels value ∧ value.nesting ≤ inner)
          ?_ hentries
        exact fun _ _ _ _ ↦ ih inner (Nat.lt_succ_self _)
      exact ⟨.table (ascends_ascending _) fun entry he ↦ (hread entry (mem_ascending he)).1,
        Nat.succ_le_succ (nestingOfEntries_le fun entry he ↦ (hread entry (mem_ascending he)).2)⟩
    · cases h

/-- A value that can be made: its numbers are finite and its tables in ascending order. One that
cannot make the journey is no exception. -/
inductive Proper : Dynamic → Prop
  | null : Proper null
  | bool (b : Bool) : Proper (bool b)
  | int (n : Dynamic.Integer) : Proper (int n)
  | float {d : Double} (h : d.isFinite = true) : Proper (float d)
  | text (s : String) : Proper (text s)
  | list {items : List Dynamic} (h : ∀ item ∈ items, Proper item) : Proper (list items)
  | table {entries : List (String × Dynamic)} (ascends : Ascends entries)
    (h : ∀ entry ∈ entries, Proper entry.2) : Proper (table entries)
  | refuses (reason : String) : Proper (refuses reason)
  | numberKeyed : Proper numberKeyed

theorem refusal?_eq_none_of_mem {items : List Dynamic} (h : refusalOfItems? items = none)
    {item : Dynamic} (hmem : item ∈ items) : item.refusal? = none := by
  induction items with
  | nil => cases hmem
  | cons first rest ih =>
    rw [refusalOfItems?, Option.orElse_eq_or, Option.or_eq_none_iff] at h
    rcases List.mem_cons.1 hmem with rfl | hmem
    · exact h.1
    · exact ih h.2 hmem

theorem refusal?_eq_none_of_mem_entries {entries : List (String × Dynamic)}
    (h : refusalOfEntries? entries = none) {entry : String × Dynamic} (hmem : entry ∈ entries) :
    entry.2.refusal? = none := by
  induction entries with
  | nil => cases hmem
  | cons first rest ih =>
    rw [refusalOfEntries?, Option.orElse_eq_or, Option.or_eq_none_iff] at h
    rcases List.mem_cons.1 hmem with rfl | hmem
    · exact h.1
    · exact ih h.2 hmem

/-- A value that does not refuse takes a byte at least. -/
theorem length_write_pos {d : Dynamic} (h : d.refusal? = none)
    (hsize : d.write.length < 2 ^ 32) : 0 < d.write.length := by
  cases d with
  | null => exact Token.spells_writeNil.length_pos
  | bool b => exact (Token.spells_writeBool b).length_pos
  | int n => exact (Token.spells_writeInteger n.property.1 n.property.2).length_pos
  | float d => exact (Token.spells_writeDouble d.bits).length_pos
  | text s => exact (Codec.spells_text hsize).length_pos
  | list items =>
    rw [write, List.length_append]
    exact Nat.add_pos_left (Token.length_writeArray_pos _) _
  | table entries =>
    rw [write, List.length_append]
    exact Nat.add_pos_left (Token.length_writeMap_pos _) _
  | refuses reason => cases h
  | numberKeyed => decide

theorem read_map (levels n : Nat) (bs : Bytes) :
    read (levels + 1) (.map n) bs =
      (Decoder.entries readFirstKey (Codec.text.read levels) (fun _ ↦ read levels) (levels + 1)
        (.map n) bs).map fun r ↦ (ofEntries r.1, r.2) :=
  rfl

/-- The map with a number for its key is not read, for no level is open to it or its key is no
text. -/
theorem rejects_numberKeyed (levels : Nat) : (read levels).Rejects numberKeyed.write := by
  intro rest
  rw [write, List.append_assoc, Decoder.item_of_spells (Token.spells_writeMap (by decide))]
  rcases levels with - | levels
  · rfl
  · have hkey : (Decoder.entry readFirstKey (read levels)).item
        (Token.writeUnsigned 1 ++ Token.writeUnsigned 2 ++ rest) = none := by
      rw [Decoder.item_entry, List.append_assoc,
        Decoder.item_of_spells (Token.spells_writeUnsigned (by decide))]
      rfl
    rw [read_map, Decoder.entries, hkey]
    rfl

section

variable {levels : Nat}

/-- A list is read if its items are, and rejected if one of them is. -/
theorem reads_or_rejects_list {items : List Dynamic} (hr : refusalOfItems? items = none)
    (h : ∀ item ∈ items, item.write.length < 2 ^ 32 → ∀ levels,
      (read levels).Reads item.write item ∨ (read levels).Rejects item.write)
    (hsize : (list items).write.length < 2 ^ 32) :
    (read levels).Reads (list items).write (list items) ∨
      (read levels).Rejects (list items).write := by
  have hsmall : ∀ item ∈ items, item.write.length < 2 ^ 32 :=
    fun item hitem ↦ length_write_lt_of_mem hitem hsize
  have hcount : items.length ≤ (items.flatMap write).length :=
    Decoder.length_le_flatMap_of_pos fun item hitem ↦
      length_write_pos (refusal?_eq_none_of_mem hr hitem) (hsmall item hitem)
  have hheader : Spells (Token.writeArray items.length) (.array items.length) := by
    rw [write_list, List.length_append] at hsize
    exact Token.spells_writeArray (by omega)
  rcases levels with - | levels
  · rw [write_list]
    exact .inr (Decoder.rejects_of_spells hheader fun _ ↦ rfl)
  · have hitems := fun item hitem ↦ h item hitem (hsmall item hitem) levels
    by_cases hex : ∃ item ∈ items, (read levels).Rejects item.write
    · refine .inr fun rest ↦ ?_
      rw [write_list, List.append_assoc, Decoder.item_of_spells hheader]
      show (Decoder.items (read levels) items.length _).map _ = none
      rw [Decoder.items_flatMap_eq_none hitems hex]
      rfl
    · refine .inl (reads_list (fun item hitem ↦ ?_) hsize)
      exact (hitems item hitem).resolve_right fun hrejects ↦ hex ⟨item, hitem, hrejects⟩

/-- A table is read if its values are, and rejected if one of them is. -/
theorem reads_or_rejects_table {entries : List (String × Dynamic)} (hasc : Ascends entries)
    (h : ∀ entry ∈ entries, entry.2.write.length < 2 ^ 32 → ∀ levels,
      (read levels).Reads entry.2.write entry.2 ∨ (read levels).Rejects entry.2.write)
    (hsize : (table entries).write.length < 2 ^ 32) :
    (read levels).Reads (table entries).write (table entries) ∨
      (read levels).Rejects (table entries).write := by
  have hsmall : ∀ e ∈ entries, (Codec.text.write e.1).length < 2 ^ 32 ∧
      e.2.write.length < 2 ^ 32 := fun e he ↦ length_write_lt_of_mem_entries he hsize
  have hcount : entries.length ≤
      (entries.flatMap fun e ↦ Codec.text.write e.1 ++ e.2.write).length :=
    Decoder.length_le_flatMap_of_pos fun e he ↦ by
      rw [List.length_append]
      exact Nat.add_pos_left (Codec.spells_text (hsmall e he).1).length_pos _
  have hheader : Spells (Token.writeMap entries.length) (.map entries.length) := by
    rw [write_table, List.length_append] at hsize
    exact Token.spells_writeMap (by omega)
  rcases levels with - | levels
  · rw [write_table]
    exact .inr (Decoder.rejects_of_spells hheader fun _ ↦ rfl)
  · have hvalues := fun e he ↦ h e he (hsmall e he).2 levels
    by_cases hex : ∃ e ∈ entries, (read levels).Rejects e.2.write
    · -- one value that is rejected is enough, whether its key is the first one or not
      have hentries : ∀ (key : Decoder String),
          (∀ s, (Codec.text.write s).length < 2 ^ 32 → key.Reads (Codec.text.write s) s) →
          (∀ e ∈ entries, (Decoder.entry key (read levels)).Reads
            (Codec.text.write e.1 ++ e.2.write) e ∨ (Decoder.entry key (read levels)).Rejects
            (Codec.text.write e.1 ++ e.2.write)) := fun key hkey e he ↦
        (hvalues e he).imp (Decoder.reads_entry (hkey e.1 (hsmall e he).1))
          (Decoder.rejects_entry (hkey e.1 (hsmall e he).1))
      obtain ⟨rejected, hmem, hrejects⟩ := hex
      have hkey := (hsmall rejected hmem).1
      have hnone : ∀ rest, Decoder.entries readFirstKey (Codec.text.read levels)
          (fun _ ↦ read levels) (levels + 1) (.map entries.length)
          ((entries.flatMap fun e ↦ Codec.text.write e.1 ++ e.2.write) ++ rest) = none :=
        Decoder.entries_flatMap_eq_none (hentries readFirstKey fun s hs ↦ reads_readFirstKey hs)
          (hentries (Codec.text.read levels) fun s hs ↦ Codec.restores_text hs levels)
          ⟨rejected, hmem, Decoder.rejects_entry (reads_readFirstKey hkey) hrejects,
            Decoder.rejects_entry (Codec.restores_text hkey levels) hrejects⟩
      refine .inr fun rest ↦ ?_
      rw [write_table, List.append_assoc, Decoder.item_of_spells hheader, read_map, hnone]
      rfl
    · refine .inl (reads_table hasc (fun e he ↦ ?_) hsize)
      exact (hvalues e he).resolve_right fun hrejects ↦ hex ⟨e, he, hrejects⟩

end

/-- What is written of a value is read as the value or not at all. -/
theorem reads_or_rejects {d : Dynamic} (hp : d.Proper) : d.refusal? = none →
    d.write.length < 2 ^ 32 → ∀ levels,
    (read levels).Reads d.write d ∨ (read levels).Rejects d.write := by
  induction hp with
  | null => exact fun _ hsize _ ↦ .inl (restores .null (Nat.zero_le _) hsize)
  | bool b => exact fun _ hsize _ ↦ .inl (restores (.bool b) (Nat.zero_le _) hsize)
  | int n => exact fun _ hsize _ ↦ .inl (restores (.int n) (Nat.zero_le _) hsize)
  | float h => exact fun _ hsize _ ↦ .inl (restores (.float h) (Nat.zero_le _) hsize)
  | text s => exact fun _ hsize _ ↦ .inl (restores (.text s) (Nat.zero_le _) hsize)
  | refuses reason => exact fun hr ↦ nomatch hr
  | numberKeyed => exact fun _ _ levels ↦ .inr (rejects_numberKeyed levels)
  | list _ ih =>
    intro hr hsize levels
    exact reads_or_rejects_list hr
      (fun item hitem ↦ ih item hitem (refusal?_eq_none_of_mem hr hitem)) hsize
  | table hasc _ ih =>
    intro hr hsize levels
    exact reads_or_rejects_table hasc
      (fun e he ↦ ih e he (refusal?_eq_none_of_mem_entries hr he)) hsize

end Dynamic

/-! ### Every value type

The two halves meet in one equivalence for each type, from which it can be told beforehand whether a
value comes through.
-/

namespace ValueType

/-- Whether a value can be made at all. Dynamic values are the only ones for which that is a
question. -/
def Proper : (t : ValueType) → t.Value → Prop
  | dynamic, d => Dynamic.Proper d
  | _, _ => True

variable {t : ValueType} {v : t.Value} {levels : Nat} (hl : 1 ≤ levels)
  (hsize : (t.codec.write v).length < 2 ^ 32)

include hl hsize

/-- What is written of a value is read as the value or not at all. -/
theorem reads_or_rejects (hp : t.Proper v) (hr : t.codec.refusal? v = none) :
    (t.codec.read levels).Reads (t.codec.write v) v ∨
      (t.codec.read levels).Rejects (t.codec.write v) := by
  by_cases h : t.Travels v ∧ t.nesting v ≤ levels
  · exact .inl (restores h.1 h.2 hsize)
  · cases t with
    | record => exact .inr (Record.rejects v (Nat.lt_of_not_le fun hle ↦ h ⟨trivial, hle⟩) hsize)
    | nest => exact .inr (Nest.rejects v (Nat.lt_of_not_le fun hle ↦ h ⟨trivial, hle⟩) hsize)
    | dynamic => exact Dynamic.reads_or_rejects hp hr hsize levels
    | shape => exact absurd ⟨trivial, Nat.le_trans (Shape.nesting_le_one v) hl⟩ h
    | octets | pair | numbers | texts | table => exact absurd ⟨trivial, hl⟩ h
    | _ => exact absurd ⟨trivial, Nat.zero_le _⟩ h

/-- A value that is read from what is written of it travels and keeps to the levels. -/
theorem travels_of_item {bs rest : Bytes}
    (h : (t.codec.read levels).item (t.codec.write v ++ bs) = some (v, rest)) :
    t.Travels v ∧ t.nesting v ≤ levels := by
  cases t with
  | record =>
    refine ⟨trivial, Nat.le_of_not_lt fun hlt ↦ ?_⟩
    exact absurd ((Record.rejects v hlt hsize bs).symm.trans h) nofun
  | nest =>
    refine ⟨trivial, Nat.le_of_not_lt fun hlt ↦ ?_⟩
    exact absurd ((Nest.rejects v hlt hsize bs).symm.trans h) nofun
  | dynamic =>
    obtain ⟨token, bs', hread⟩ := Decoder.eq_some_of_item h
    exact Dynamic.travels_of_read hread
  | shape => exact ⟨trivial, Nat.le_trans (Shape.nesting_le_one v) hl⟩
  | octets | pair | numbers | texts | table => exact ⟨trivial, hl⟩
  | _ => exact ⟨trivial, Nat.zero_le _⟩

/-- What is written of a value is read as it just if the value travels and nests no deeper than the
levels. -/
theorem reads_iff :
    (t.codec.read levels).Reads (t.codec.write v) v ↔ t.Travels v ∧ t.nesting v ≤ levels :=
  ⟨fun h ↦ travels_of_item hl hsize (h []), fun h ↦ restores h.1 h.2 hsize⟩

end ValueType

end Offload.Wire
