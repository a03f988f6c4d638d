import Mathlib.Data.List.Forall2
import Offload.Proofs.Wire.Delimited

/-!
# The representations of a failure

A failure is written as an array of four, and read from many other bytes: its fields may stand in a
map, in any order and between other entries, its sources may lack, and each token in it may have any
of its forms. `Failure.Form` has all of these representations, put together from the forms of the
parts, and each of them is read as the failure (`Failure.Form.reads`).

A map in which a field is missing or there twice is no representation, whatever its values are. That
needs no case for what could be wrong with a value: what is read from a map of entries has met each
field at most once, and the first three (`Failure.met_of_fields`).
-/

namespace Offload.Wire

open Token (Spells)

/-! ### Texts and keys

A key is known by its text, or by the position of the field. Two keys of different fields are
different tokens, and a key of no field is skipped with its value.
-/

/-- The forms of a text of the given bytes. It may be a byte string as well. -/
def TextForm (payload bs : Bytes) : Prop :=
  Token.Form (.text payload) bs ∨ Token.Form (.binary payload) bs

/-- The forms of the key of the field or variant at a position: its name, or the position as an
unsigned number. -/
inductive KeyForm (names : List String) (i : Nat) : Bytes → Prop
  | name {name : String} {key : Bytes} : names[i]? = some name → TextForm (utf8 name) key →
      KeyForm names i key
  | position {key : Bytes} : i < names.length → Token.Form (.unsigned i) key → KeyForm names i key

/-- The forms of a key that belongs to none of the names. -/
inductive OtherKeyForm (names : List String) : Bytes → Prop
  | name {payload key : Bytes} : (∀ name ∈ names, utf8 name ≠ payload) → TextForm payload key →
      OtherKeyForm names key
  | position {n : Nat} {key : Bytes} : names.length ≤ n → Token.Form (.unsigned n) key →
      OtherKeyForm names key

namespace Decoder

variable {α σ : Type} {names : List String} {i : Nat} {key : Bytes}

/-- A name is found in its place if no two are the same. -/
theorem find?_of_getElem? (hn : names.Nodup) {name : String} (h : names[i]? = some name) :
    (Identifier.name (utf8 name)).find? names = some i := by
  obtain ⟨hi, rfl⟩ := List.getElem?_eq_some_iff.1 h
  refine find?_name (List.findIdx?_eq_some_iff_getElem.2 ⟨hi, beq_self_eq_true _, fun j hj ↦ ?_⟩)
  have hne : names[j] ≠ names[i] := List.pairwise_iff_getElem.1 hn j i (Nat.lt_trans hj hi) hi hj
  simpa using hne

/-- A text in any form is a name. -/
theorem exists_identifier_of_textForm {payload : Bytes} (h : TextForm payload key) :
    ∃ token, Spells key token ∧ identifier? token = some (.name payload) :=
  h.elim (fun h ↦ ⟨_, h.spells, rfl⟩) fun h ↦ ⟨_, h.spells, rfl⟩

/-- The key of a field is found at its position. -/
theorem find?_of_keyForm (hn : names.Nodup) (h : KeyForm names i key) :
    ∃ token identifier, Spells key token ∧ identifier? token = some identifier ∧
      identifier.find? names = some i := by
  cases h with
  | name hname htext =>
    obtain ⟨token, hspells, hidentifier⟩ := exists_identifier_of_textForm htext
    exact ⟨token, _, hspells, hidentifier, find?_of_getElem? hn hname⟩
  | position hi hform => exact ⟨_, _, hform.spells, rfl, if_pos hi⟩

/-- A key of another field is a token too, and no name of the structure. -/
theorem find?_of_otherKeyForm (h : OtherKeyForm names key) :
    ∃ token identifier, Spells key token ∧ identifier? token = some identifier ∧
      identifier.find? names = none := by
  cases h with
  | name hnames htext =>
    obtain ⟨token, hspells, hidentifier⟩ := exists_identifier_of_textForm htext
    refine ⟨token, _, hspells, hidentifier, List.findIdx?_eq_none_iff.2 fun name hname ↦ ?_⟩
    exact beq_eq_false_iff_ne.2 (hnames name hname)
  | position hi hform => exact ⟨_, _, hform.spells, rfl, if_neg (Nat.not_lt_of_le hi)⟩

/-- A key that is found at a position is one of its forms. -/
theorem keyForm_of_find? {token : Token} {identifier : Identifier} (hform : token.Form key)
    (hidentifier : identifier? token = some identifier) (hi : identifier.find? names = some i) :
    KeyForm names i key := by
  have hname : ∀ payload, TextForm payload key →
      (Identifier.name payload).find? names = some i → KeyForm names i key := by
    intro payload htext hfind
    obtain ⟨hlt, heq, -⟩ := List.findIdx?_eq_some_iff_getElem.1 hfind
    exact .name (List.getElem?_eq_getElem hlt) ((beq_iff_eq.1 heq).symm ▸ htext)
  cases token with
  | text payload =>
    cases hidentifier
    exact hname payload (.inl hform) hi
  | binary payload =>
    cases hidentifier
    exact hname payload (.inr hform) hi
  | unsigned n =>
    cases hidentifier
    obtain ⟨hlt, heq⟩ := Option.ite_none_right_eq_some.1 hi
    cases heq
    exact .position hlt hform
  | _ => cases hidentifier

theorem eq_of_spells {token token' : Token} (h : Spells key token) (h' : Spells key token') :
    token = token' :=
  congrArg Prod.fst (Option.some.inj ((h []).symm.trans (h' [])))

/-- A key belongs to one field. -/
theorem eq_of_keyForm (hn : names.Nodup) {j : Nat} (hi : KeyForm names i key)
    (hj : KeyForm names j key) : i = j := by
  obtain ⟨token, identifier, hspells, hidentifier, hfind⟩ := find?_of_keyForm hn hi
  obtain ⟨token', identifier', hspells', hidentifier', hfind'⟩ := find?_of_keyForm hn hj
  cases eq_of_spells hspells hspells'
  cases hidentifier.symm.trans hidentifier'
  exact Option.some.inj (hfind.symm.trans hfind')

/-! ### Fields and variants by their keys

The fields of a structure are taken from a map in the order in which they come. A draft holds those
that were met, and each of them is stored once.
-/

section

variable {store : Nat → σ → Bytes → Option (σ × Bytes)} {levels n : Nat} {draft : σ}

/-- A field is stored under its key, however that is written. -/
theorem fields_of_keyForm (hn : names.Nodup) (h : KeyForm names i key) (bs : Bytes) :
    fields names store levels (n + 1) draft (key ++ bs) =
      (store i draft bs).bind fun r ↦ fields names store levels n r.1 r.2 := by
  obtain ⟨token, identifier, hspells, hidentifier, hfind⟩ := find?_of_keyForm hn h
  simp only [fields, hspells bs, Option.bind_some, hidentifier, hfind]

/-- A value under any other key is skipped. -/
theorem fields_of_otherKeyForm (h : OtherKeyForm names key) (bs : Bytes) :
    fields names store levels (n + 1) draft (key ++ bs) =
      ((any levels).item bs).bind fun r ↦ fields names store levels n draft r.2 := by
  obtain ⟨token, identifier, hspells, hidentifier, hfind⟩ := find?_of_otherKeyForm h
  simp only [fields, hspells bs, Option.bind_some, hidentifier, hfind]

/-- If the fields of a map are read, the first entry was stored in its field or belongs to none. -/
theorem step_of_fields (hn : names.Nodup) (hstore : ∀ i draft, Takes 1 (store i draft))
    {value bs : Bytes} (hk : IsObject key) (hv : IsObject value) {r : σ × Bytes}
    (h : fields names store levels (n + 1) draft (key ++ (value ++ bs)) = some r) :
    (∃ i draft', KeyForm names i key ∧ store i draft (value ++ bs) = some (draft', bs) ∧
      fields names store levels n draft' bs = some r) ∨
    ((∀ i, ¬ KeyForm names i key) ∧ fields names store levels n draft bs = some r) := by
  obtain ⟨-, @⟨-, -, token, header, objects, hform, -, hlength, -⟩⟩ := hk
  rw [List.append_assoc, fields, hform.spells, Option.bind_some] at h
  obtain ⟨identifier, hidentifier, h⟩ := Option.bind_eq_some_iff.1 h
  -- a token that names anything announces nothing, so it is the whole key
  rw [children_of_identifier? hidentifier] at hlength
  obtain rfl := List.eq_nil_of_length_eq_zero hlength
  rw [List.flatten_nil, List.nil_append] at h
  rw [List.flatten_nil, List.append_nil]
  cases hfind : identifier.find? names with
  | some i =>
    simp only [hfind] at h
    obtain ⟨⟨draft', rest⟩, hdraft, hrest⟩ := Option.bind_eq_some_iff.1 h
    obtain rfl := (hstore i draft).eq_of_object hv hdraft
    exact .inl ⟨i, draft', keyForm_of_find? hform hidentifier hfind, hdraft, hrest⟩
  | none =>
    simp only [hfind] at h
    obtain ⟨⟨⟨⟩, rest⟩, hany, hrest⟩ := Option.bind_eq_some_iff.1 h
    obtain rfl := (exact_any levels).item.eq_of_object hv hany
    refine .inr ⟨fun i hi ↦ ?_, hrest⟩
    obtain ⟨token', identifier', hspells, hidentifier', hfind'⟩ := find?_of_keyForm hn hi
    cases eq_of_spells hform.spells hspells
    cases hidentifier.symm.trans hidentifier'
    cases hfind.symm.trans hfind'

end

section

variable {bare : Nat → Option α} {payload : Nat → Decoder α} {header bs : Bytes} {a : α}

/-- A variant is known by its name, however that is written. -/
theorem item_variant_of_keyForm (hn : names.Nodup) (hm : Token.Form (.map 1) header)
    (hk : KeyForm names i key) (rest : Bytes) :
    (variant names bare payload).item (header ++ (key ++ rest)) = (payload i).item rest := by
  obtain ⟨token, identifier, hspells, hidentifier, hfind⟩ := find?_of_keyForm hn hk
  exact item_variant_of_spells hm.spells hspells (by rw [hidentifier, Option.bind_some, hfind]) rest

/-- A variant is read from its name in any form and its payload. -/
theorem reads_variant_of_keyForm (hn : names.Nodup) (hm : Token.Form (.map 1) header)
    (hk : KeyForm names i key) (h : (payload i).Reads bs a) :
    (variant names bare payload).Reads (header ++ (key ++ bs)) a := by
  intro rest
  rw [List.append_assoc, List.append_assoc, item_variant_of_keyForm hn hm hk]
  exact h rest

theorem reads_variant_bare_of_keyForm (hn : names.Nodup) (hk : KeyForm names i key)
    (h : bare i = some a) : (variant names bare payload).Reads key a := by
  obtain ⟨token, identifier, hspells, hidentifier, hfind⟩ := find?_of_keyForm hn hk
  exact reads_variant_of_spells hspells (by rw [hidentifier, Option.bind_some, hfind]) h

end

end Decoder

/-! ### The parts of a failure

The forms of the parts are independent of each other. Each of them is a relation between a value and
bytes, and a reader is shown to take all bytes of the form and to leave what follows them.
-/

theorem TextForm.reads {s : String} {bs : Bytes} (h : TextForm (utf8 s) bs) (levels : Nat) :
    (Codec.text.read levels).Reads bs s :=
  h.elim (fun h ↦ Decoder.reads_scalar h.spells (ofUtf8?_utf8 s))
    fun h ↦ Decoder.reads_scalar h.spells (ofUtf8?_utf8 s)

/-- The forms of a list of texts. -/
inductive TextsForm (ss : List String) : Bytes → Prop
  | mk {header : Bytes} {items : List Bytes} : Token.Form (.array ss.length) header →
      List.Forall₂ (fun s item ↦ TextForm (utf8 s) item) ss items →
      TextsForm ss (header ++ items.flatten)

theorem TextsForm.reads {ss : List String} {bs : Bytes} (h : TextsForm ss bs) (levels : Nat) :
    ((Codec.list Codec.text).read (levels + 1)).Reads bs ss := by
  cases h with
  | mk hform hitems =>
    obtain ⟨hlength, hforms⟩ := List.forall₂_iff_zip.1 hitems
    refine Decoder.reads_of_spells hform.spells fun rest ↦ ?_
    have hread : Decoder.itemsOnto (Codec.text.read levels) _ [] _ = _ :=
      Decoder.itemsOnto_flatten (fun r hr ↦ (hforms hr).reads levels) [] rest
    rwa [List.length_zip, ← hlength, Nat.min_self, List.map_fst_zip (Nat.le_of_eq hlength),
      List.map_snd_zip (Nat.le_of_eq hlength.symm)] at hread

namespace FailureKind

/-- The position of a kind. -/
def position : FailureKind → Nat
  | .error => 0
  | .panic => 1

theorem ofPosition?_position (kind : FailureKind) : ofPosition? (position kind) = some kind := by
  cases kind <;> rfl

/-- The forms of a kind: its key alone, or a map of the key and nothing. -/
inductive Form (kind : FailureKind) : Bytes → Prop
  | bare {key : Bytes} : KeyForm names (position kind) key → Form kind key
  | entry {header key payload : Bytes} : Token.Form (.map 1) header →
      KeyForm names (position kind) key → Token.Form .nil payload →
      Form kind (header ++ (key ++ payload))

/-- The kind of a failure is read from each of its forms. -/
theorem Form.reads {kind : FailureKind} {bs : Bytes} (h : Form kind bs) (levels : Nat) :
    (codec.read levels).Reads bs kind := by
  have hn : names.Nodup := by decide
  cases h with
  | bare hk => exact Decoder.reads_variant_bare_of_keyForm hn hk (ofPosition?_position kind)
  | entry hm hk hp =>
    refine Decoder.reads_variant_of_keyForm hn hm hk ?_
    rw [ofPosition?_position]
    intro rest
    exact Decoder.item_of_spells hp.spells _ rest

end FailureKind

namespace Failure

variable {f : Failure} {levels : Nat}

/-- The forms of the field at a position. -/
def FieldForm (f : Failure) : Nat → Bytes → Prop
  | 0 => FailureKind.Form f.kind
  | 1 => TextForm (utf8 f.typeName)
  | 2 => TextForm (utf8 f.message)
  | _ => TextsForm f.sources

/-- The forms of an entry of a map: the key and the value of a field, or another key and any value
that keeps to the levels. -/
inductive EntryForm (f : Failure) (levels : Nat) : Option Nat → Bytes → Prop
  | field {i : Nat} {key value : Bytes} : KeyForm fieldNames i key → FieldForm f i value →
      EntryForm f levels (some i) (key ++ value)
  | other {key value : Bytes} : OtherKeyForm fieldNames key → Object levels value →
      EntryForm f levels none (key ++ value)

/-- The forms of a failure. The sources may lack if there are none. -/
inductive Form (f : Failure) (levels : Nat) : Bytes → Prop
  | array {fields : List Nat} {header : Bytes} {items : List Bytes} :
      fields = [0, 1, 2, 3] ∨ f.sources = [] ∧ fields = [0, 1, 2] →
      Token.Form (.array fields.length) header → List.Forall₂ (FieldForm f) fields items →
      Form f levels (header ++ items.flatten)
  | map {keys : List (Option Nat)} {header : Bytes} {entries : List Bytes} :
      (keys.filterMap id).Perm [0, 1, 2, 3] ∨ f.sources = [] ∧ (keys.filterMap id).Perm [0, 1, 2] →
      Token.Form (.map keys.length) header → List.Forall₂ (EntryForm f levels) keys entries →
      Form f levels (header ++ entries.flatten)

/-! ### Every form is read

The induction is on the entries of the map, with the draft so far. Entries that are no field of a
failure are objects of any kind, and are skipped as such.
-/

/-- The draft in which the fields at some positions are those of a failure. -/
def draft (f : Failure) (seen : List Nat) : Draft where
  kind := if 0 ∈ seen then some f.kind else none
  typeName := if 1 ∈ seen then some f.typeName else none
  message := if 2 ∈ seen then some f.message else none
  sources := if 3 ∈ seen then some f.sources else none

theorem nodup_fieldNames : fieldNames.Nodup := by decide

theorem lt_of_keyForm {i : Nat} {key : Bytes} (h : KeyForm fieldNames i key) : i < 4 := by
  cases h with
  | name hname _ => exact (List.getElem?_eq_some_iff.1 hname).1
  | position hi _ => exact hi

/-- A field is taken into a draft that does not have it yet. -/
theorem store_of_fieldForm {i : Nat} {bs : Bytes} (hi : i < 4) (h : FieldForm f i bs)
    {seen : List Nat} (hnew : i ∉ seen) (rest : Bytes) :
    store (levels + 1) i (draft f seen) (bs ++ rest) = some (draft f (i :: seen), rest) := by
  match i, hi, h with
  | 0, _, hkind =>
    simp only [store, draft, if_neg hnew, Decoder.once, FailureKind.Form.reads hkind _ rest]
    simp
  | 1, _, htext =>
    simp only [store, draft, if_neg hnew, Decoder.once, TextForm.reads htext _ rest]
    simp
  | 2, _, htext =>
    simp only [store, draft, if_neg hnew, Decoder.once, TextForm.reads htext _ rest]
    simp
  | 3, _, htexts =>
    simp only [store, draft, if_neg hnew, Decoder.once, sources, TextsForm.reads htexts _ rest]
    simp

/-- The fields of a map are those of the failure that have a key there. -/
theorem fields_of_entryForms {keys : List (Option Nat)} {entries : List Bytes}
    (h : List.Forall₂ (EntryForm f (levels + 1)) keys entries) {seen : List Nat}
    (hnew : ((keys.filterMap id).reverse ++ seen).Nodup) (rest : Bytes) :
    Decoder.fields fieldNames (store (levels + 1)) (levels + 1) keys.length (draft f seen)
        (entries.flatten ++ rest) =
      some (draft f ((keys.filterMap id).reverse ++ seen), rest) := by
  induction h generalizing seen with
  | nil => rfl
  | @cons key entry keys entries hentry _ ih =>
    rw [List.length_cons, List.flatten_cons, List.append_assoc]
    cases hentry with
    | @field i key value hkey hvalue =>
      have hreverse : ((some i :: keys).filterMap id).reverse ++ seen =
          (keys.filterMap id).reverse ++ (i :: seen) := by
        simp [List.append_assoc]
      rw [hreverse] at hnew ⊢
      have hi : i ∉ seen := (List.nodup_cons.1 (List.nodup_append.1 hnew).2.1).1
      rw [List.append_assoc, Decoder.fields_of_keyForm nodup_fieldNames hkey,
        store_of_fieldForm (lt_of_keyForm hkey) hvalue hi]
      exact ih hnew
    | other hkey hvalue =>
      rw [List.append_assoc, Decoder.fields_of_otherKeyForm hkey,
        hvalue.reads_any (Nat.le_refl _)]
      exact ih hnew

/-- A draft with its first three fields is the failure, with its sources or without any. -/
theorem toFailure?_draft {seen : List Nat} (hseen : ∀ i < 3, i ∈ seen)
    (hsources : 3 ∈ seen ∨ f.sources = []) : (draft f seen).toFailure? = some f := by
  have hgetD : (if 3 ∈ seen then some f.sources else none).getD [] = f.sources := by
    split
    · rfl
    · next hn => exact (hsources.resolve_left hn).symm
  simp only [Draft.toFailure?, draft, if_pos (hseen 0 (by decide)), if_pos (hseen 1 (by decide)),
    if_pos (hseen 2 (by decide)), hgetD]
  rfl

/-- The first three fields in their order, as an array of three or four begins with them. -/
theorem read_array {n : Nat} (hn : n = 3 ∨ n = 4) {kind typeName message : Bytes}
    (hkind : FieldForm f 0 kind) (htype : FieldForm f 1 typeName) (hmessage : FieldForm f 2 message)
    (rest : Bytes) :
    codec.read (levels + 1) (.array n) (kind ++ (typeName ++ (message ++ rest))) =
      if n = 3 then some ({ f with sources := [] }, rest)
      else (sources.read levels).item rest >>= fun r ↦ some ({ f with sources := r.1 }, r.2) := by
  show (guard (n = 3 ∨ n = 4) >>= fun _ ↦ _) = _
  rw [Decoder.guard_eq_some hn]
  simp only [Option.bind_eq_bind, Option.bind_some]
  rw [FailureKind.Form.reads hkind]
  simp only [Option.bind_some]
  rw [TextForm.reads htype]
  simp only [Option.bind_some]
  rw [TextForm.reads hmessage]
  rfl

/-- A representation is read, whatever follows it, where as many levels are open behind its own as
the values of its other keys have, and one at least. -/
theorem Form.reads {bs : Bytes} (h : Form f (levels + 1) bs) :
    (codec.read (levels + 2)).Reads bs f := by
  cases h with
  | array hfields hform hitems =>
    refine Decoder.reads_of_spells hform.spells fun rest ↦ ?_
    rcases hfields with rfl | ⟨hnone, rfl⟩
    · obtain - | ⟨hkind, - | ⟨htype, - | ⟨hmessage, - | ⟨hsources, - | -⟩⟩⟩⟩ := hitems
      simp only [List.flatten_cons, List.flatten_nil, List.append_nil, List.append_assoc]
      refine (read_array (.inr rfl) hkind htype hmessage _).trans ?_
      rw [if_neg (by decide), sources, TextsForm.reads hsources]
      rfl
    · obtain - | ⟨hkind, - | ⟨htype, - | ⟨hmessage, - | -⟩⟩⟩ := hitems
      simp only [List.flatten_cons, List.flatten_nil, List.append_nil, List.append_assoc]
      refine (read_array (.inl rfl) hkind htype hmessage _).trans ?_
      rw [if_pos rfl, ← hnone]
  | @map keys header entries hfields hform hentries =>
    refine Decoder.reads_of_spells hform.spells fun rest ↦ ?_
    -- the fields that have a key, in the order in which the draft gets them
    obtain ⟨seen, hseen, hnodup, hall, hsources⟩ : ∃ seen,
        seen = (keys.filterMap id).reverse ++ [] ∧ seen.Nodup ∧ (∀ i < 3, i ∈ seen) ∧
          (3 ∈ seen ∨ f.sources = []) := by
      have hreverse : ((keys.filterMap id).reverse ++ []).Perm (keys.filterMap id) := by
        rw [List.append_nil]
        exact List.reverse_perm _
      rcases hfields with hperm | ⟨hnone, hperm⟩
      · have hseen := hreverse.trans hperm
        exact ⟨_, rfl, hseen.nodup_iff.2 (by decide),
          fun i hi ↦ hseen.mem_iff.2 (by simp; omega), .inl (hseen.mem_iff.2 (by decide))⟩
      · have hseen := hreverse.trans hperm
        exact ⟨_, rfl, hseen.nodup_iff.2 (by decide),
          fun i hi ↦ hseen.mem_iff.2 (by simp; omega), .inr hnone⟩
    have hrun := fields_of_entryForms hentries (hseen ▸ hnodup) rest
    rw [← hseen] at hrun
    have hempty : draft f [] = {} := rfl
    show (Decoder.fields fieldNames (store (levels + 1)) (levels + 1) keys.length {} _ >>= _) = _
    rw [← hempty, hrun]
    show ((draft f seen).toFailure? >>= _) = _
    rw [toFailure?_draft hall hsources]
    rfl

/-! ### What is missing or there twice

Nothing is assumed here about the values. It is what was read that is looked at: a draft that is a
failure has met its first three fields, and met none of them twice.
-/

/-- Whether the field at a position was met. -/
def Draft.Has (draft : Draft) : Nat → Prop
  | 0 => draft.kind.isSome
  | 1 => draft.typeName.isSome
  | 2 => draft.message.isSome
  | _ => draft.sources.isSome

/-- A draft that is a failure has its first three fields. -/
theorem has_of_toFailure? {draft : Draft} (h : draft.toFailure? = some f) {i : Nat} (hi : i < 3) :
    draft.Has i := by
  simp only [Draft.toFailure?, Option.bind_eq_bind, Option.bind_eq_some_iff] at h
  obtain ⟨kind, hkind, typeName, htype, message, hmessage, -⟩ := h
  match i, hi with
  | 0, _ => exact Option.isSome_of_eq_some hkind
  | 1, _ => exact Option.isSome_of_eq_some htype
  | 2, _ => exact Option.isSome_of_eq_some hmessage

/-- A field that is stored was not there before, and no other comes with it. -/
theorem has_of_store {i : Nat} (hi : i < 4) {draft draft' : Draft} {bs rest : Bytes}
    (h : store levels i draft bs = some (draft', rest)) :
    ¬ draft.Has i ∧ ∀ j < 4, draft'.Has j ↔ j = i ∨ draft.Has j := by
  have hcases : i = 0 ∨ i = 1 ∨ i = 2 ∨ i = 3 := by omega
  rcases hcases with rfl | rfl | rfl | rfl
  all_goals
    simp only [store] at h
    obtain ⟨hnone, a, -, rfl⟩ := Decoder.eq_put_of_once h
    refine ⟨by simp [Draft.Has, hnone], fun j hj ↦ ?_⟩
    obtain rfl | rfl | rfl | rfl : j = 0 ∨ j = 1 ∨ j = 2 ∨ j = 3 := by omega
    all_goals simp [Draft.Has]

/-- If the fields of a map are read, no field was met before or twice, and those that are met then
are those that have a key there. -/
theorem met_of_fields {entries : List (Bytes × Bytes)}
    (hentries : ∀ e ∈ entries, IsObject e.1 ∧ IsObject e.2) {draft draft' : Draft}
    {bs rest : Bytes}
    (h : Decoder.fields fieldNames (store levels) levels entries.length draft
      ((entries.flatMap fun e ↦ e.1 ++ e.2) ++ bs) = some (draft', rest)) :
    (entries.Pairwise fun e e' ↦ ∀ i, KeyForm fieldNames i e.1 → ¬ KeyForm fieldNames i e'.1) ∧
      (∀ e ∈ entries, ∀ i, KeyForm fieldNames i e.1 → ¬ draft.Has i) ∧
      ∀ i < 4, draft'.Has i ↔ draft.Has i ∨ ∃ e ∈ entries, KeyForm fieldNames i e.1 := by
  induction entries generalizing draft with
  | nil =>
    cases h
    exact ⟨.nil, nofun, fun i _ ↦ by simp⟩
  | cons e entries ih =>
    obtain ⟨hk, hv⟩ := hentries e List.mem_cons_self
    have hothers := fun e' he ↦ hentries e' (List.mem_cons_of_mem _ he)
    simp only [List.flatMap_cons, List.append_assoc, List.length_cons] at h
    rcases Decoder.step_of_fields nodup_fieldNames (takes_store levels) hk hv h with
      ⟨i, draft₁, hi, hdraft₁, hrest⟩ | ⟨hnone, hrest⟩
    · obtain ⟨hpairs, hnew, hmet⟩ := ih hothers hrest
      obtain ⟨hlacks, hhas⟩ := has_of_store (lt_of_keyForm hi) hdraft₁
      -- the key is that of one field only, so what is met later is met under other keys
      have honly : ∀ j, KeyForm fieldNames j e.1 → j = i := fun j hj ↦
        Decoder.eq_of_keyForm nodup_fieldNames hj hi
      refine ⟨List.pairwise_cons.2 ⟨fun e' he j hj hj' ↦ ?_, hpairs⟩, fun e' he j hj ↦ ?_,
        fun j hj ↦ ?_⟩
      · exact hnew e' he j hj' ((hhas j (lt_of_keyForm hj)).2 (.inl (honly j hj)))
      · rcases List.mem_cons.1 he with rfl | he
        · exact honly j hj ▸ hlacks
        · exact fun hd ↦ hnew e' he j hj ((hhas j (lt_of_keyForm hj)).2 (.inr hd))
      · rw [hmet j hj, hhas j hj, List.exists_mem_cons_iff]
        have hfirst : KeyForm fieldNames j e.1 ↔ j = i := ⟨honly j, fun heq ↦ heq ▸ hi⟩
        rw [hfirst, or_assoc, or_left_comm]
    · -- a key of no field: its value is skipped, and the draft stays as it is
      obtain ⟨hpairs, hnew, hmet⟩ := ih hothers hrest
      refine ⟨List.pairwise_cons.2 ⟨fun e' he j hj ↦ absurd hj (hnone j), hpairs⟩,
        fun e' he j hj ↦ ?_, fun j hj ↦ ?_⟩
      · rcases List.mem_cons.1 he with rfl | he
        · exact absurd hj (hnone j)
        · exact hnew e' he j hj
      · rw [hmet j hj, List.exists_mem_cons_iff, or_iff_right (hnone j)]

/-- Bytes that go on as a failure does and are none: an array of another length, whatever its items
are, or a map with two entries for one field or none for one that may not lack. -/
inductive Malformed : Bytes → Prop
  | array {n : Nat} {header : Bytes} : n ≠ 3 → n ≠ 4 → Token.Form (.array n) header →
      Malformed header
  | repeats {entries : List (Bytes × Bytes)} {header : Bytes} {i : Nat} {e e' : Bytes × Bytes} :
      Token.Form (.map entries.length) header →
      (∀ entry ∈ entries, IsObject entry.1 ∧ IsObject entry.2) → [e, e'].Sublist entries →
      KeyForm fieldNames i e.1 → KeyForm fieldNames i e'.1 →
      Malformed (header ++ entries.flatMap fun entry ↦ entry.1 ++ entry.2)
  | lacks {entries : List (Bytes × Bytes)} {header : Bytes} {i : Nat} :
      Token.Form (.map entries.length) header →
      (∀ entry ∈ entries, IsObject entry.1 ∧ IsObject entry.2) → i < 3 →
      (∀ entry ∈ entries, ¬ KeyForm fieldNames i entry.1) →
      Malformed (header ++ entries.flatMap fun entry ↦ entry.1 ++ entry.2)

/-- What is read from a map of entries has no field twice and the first three of them. -/
theorem fields_of_item_map {entries : List (Bytes × Bytes)} {header bs rest : Bytes}
    (hform : Token.Form (.map entries.length) header)
    (hentries : ∀ entry ∈ entries, IsObject entry.1 ∧ IsObject entry.2)
    (h : (codec.read levels).item
      (header ++ (entries.flatMap fun entry ↦ entry.1 ++ entry.2) ++ bs) = some (f, rest)) :
    (entries.Pairwise fun e e' ↦ ∀ i, KeyForm fieldNames i e.1 → ¬ KeyForm fieldNames i e'.1) ∧
      ∀ i < 3, ∃ entry ∈ entries, KeyForm fieldNames i entry.1 := by
  rw [List.append_assoc, Decoder.item_of_spells hform.spells] at h
  rcases levels with - | levels
  · cases h
  · obtain ⟨⟨draft, rest'⟩, hdraft, h⟩ := Option.bind_eq_some_iff.1 h
    obtain ⟨f', hf', heq⟩ := Option.bind_eq_some_iff.1 h
    obtain ⟨hpairs, -, hmet⟩ := met_of_fields hentries hdraft
    refine ⟨hpairs, fun i hi ↦ ?_⟩
    -- the draft was empty before
    have hempty : ¬ ({} : Draft).Has i := by
      match i, hi with
      | 0, _ | 1, _ | 2, _ => simp [Draft.Has]
    exact ((hmet i (by omega)).1 (has_of_toFailure? hf' hi)).resolve_left hempty

/-- A malformed body is rejected. -/
theorem Malformed.rejects {bs : Bytes} (h : Malformed bs) (levels : Nat) :
    (codec.read levels).Rejects bs := by
  intro rest
  cases h with
  | @array n _ hthree hfour hform =>
    rw [Decoder.item_of_spells hform.spells]
    rcases levels with - | levels
    · rfl
    · show (guard (n = 3 ∨ n = 4) >>= fun _ ↦ _) = none
      rw [Decoder.guard_eq_none (not_or.2 ⟨hthree, hfour⟩)]
      rfl
  | repeats hform hentries hsublist hi hi' =>
    refine Option.eq_none_iff_forall_ne_some.2 fun r h ↦ ?_
    have hpairs := (fields_of_item_map hform hentries h).1
    exact List.pairwise_iff_forall_sublist.1 hpairs hsublist _ hi hi'
  | lacks hform hentries hi hnone =>
    refine Option.eq_none_iff_forall_ne_some.2 fun r h ↦ ?_
    obtain ⟨entry, hentry, hkey⟩ := (fields_of_item_map hform hentries h).2 _ hi
    exact hnone entry hentry hkey

end Failure

end Offload.Wire
