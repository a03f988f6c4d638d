import Offload.Proofs.Wire.Form
import Offload.Proofs.Wire.Rejects

/-!
# The levels of what is read

A value nests as deep as it is written, and what it is read from may be less deep: a byte string
stands for a sequence of numbers and closes no level, and without bytes it stands for any sequence.
So a value may be read at fewer levels than it nests, though never at more than one fewer
(`ValueType.nesting_le_of_read`): inside the byte string there is nothing that could have levels of
its own. For a nest the one level is made use of by `Nest.reads_line`.
-/

namespace Offload.Wire

namespace Decoder

variable {α σ : Type} {d : Decoder α} {bs rest : Bytes}

/-- What every stored field keeps holds of the draft in the end. -/
theorem of_fields {p : σ → Prop} {names : List String}
    {store : Nat → σ → Bytes → Option (σ × Bytes)} {levels n : Nat} {draft draft' : σ}
    (hstore : ∀ i draft bs draft' rest, p draft → store i draft bs = some (draft', rest) → p draft')
    (hdraft : p draft) (h : fields names store levels n draft bs = some (draft', rest)) :
    p draft' := by
  induction n generalizing draft bs with
  | zero =>
    cases h
    exact hdraft
  | succ n ih =>
    obtain ⟨⟨token, bs'⟩, -, h⟩ := Option.bind_eq_some_iff.1 h
    obtain ⟨identifier, -, h⟩ := Option.bind_eq_some_iff.1 h
    split at h
    · obtain ⟨⟨draft₁, bs₁⟩, hdraft₁, h⟩ := Option.bind_eq_some_iff.1 h
      exact ih (hstore _ _ _ _ _ hdraft hdraft₁) h
    · obtain ⟨⟨⟨⟩, bs₁⟩, -, hrest⟩ := Option.bind_eq_some_iff.1 h
      exact ih hdraft hrest

/-- A value that is there is read by the decoder of the value. -/
theorem eq_some_of_option {token : Token} {a : α}
    (h : option d token bs = some (some a, rest)) : d token bs = some (a, rest) := by
  have hmap : ∀ r : Option (α × Bytes), r.map (fun s ↦ (some s.1, s.2)) = some (some a, rest) →
      r = some (a, rest) := by
    rintro (- | ⟨a', rest'⟩) hr
    · cases hr
    · cases hr
      rfl
  cases token with
  | nil => cases h
  | _ => exact hmap _ h

/-- A variant is read as a bare one or from a payload. -/
theorem eq_some_of_variant {names : List String} {bare : Nat → Option α}
    {payload : Nat → Decoder α} {token : Token} {a : α}
    (h : variant names bare payload token bs = some (a, rest)) :
    (∃ i, bare i = some a) ∨ ∃ i token' bs', payload i token' bs' = some (a, rest) := by
  rw [variant.eq_def] at h
  split at h
  · obtain ⟨-, h⟩ := Option.ite_none_right_eq_some.1 h
    obtain ⟨⟨token, bs₁⟩, -, h⟩ := Option.bind_eq_some_iff.1 h
    obtain ⟨i, -, hitem⟩ := Option.bind_eq_some_iff.1 h
    exact .inr ⟨i, eq_some_of_item hitem⟩
  · obtain ⟨a', ha, heq⟩ := Option.map_eq_some_iff.1 h
    obtain ⟨i, -, hi⟩ := Option.bind_eq_some_iff.1 ha
    exact .inl ⟨i, (Prod.mk.inj heq).1 ▸ hi⟩

end Decoder

/-! ### Nests

The hypothesis of the induction is the law of the items at one level less. A byte string is the one
token that is a sequence and has no items of its own.
-/

namespace Nest

/-- A nest of nests is one higher than the highest. -/
theorem height_ofList_le {nests : List Nest} {n : Nat} (h : ∀ nest ∈ nests, nest.height ≤ n) :
    (ofList nests).height ≤ n + 1 := by
  induction nests with
  | nil => exact Nat.le_add_left 1 n
  | cons nest nests ih =>
    rw [ofList, height]
    exact Nat.max_le.2 ⟨Nat.succ_le_succ (h nest List.mem_cons_self),
      ih fun m hm ↦ h m (List.mem_cons_of_mem _ hm)⟩

/-- A nest is no number. -/
theorem read_unsigned (levels n : Nat) (bs : Bytes) : read levels (.unsigned n) bs = none := by
  cases levels <;> rfl

/-- A byte string is read as a nest if it has no bytes. -/
theorem ofOctet_eq_none (levels : Nat) (octet : UInt8) :
    Decoder.ofOctet (read levels) octet = none := by
  rw [Decoder.ofOctet, read_unsigned]
  rfl

/-- A nest that is read is at most one higher than the levels that were open. -/
theorem height_le_of_read {levels : Nat} {token : Token} {bs rest : Bytes} {n : Nest}
    (h : read levels token bs = some (n, rest)) : n.height ≤ levels + 1 := by
  induction levels generalizing token bs rest n with
  | zero =>
    rw [read.eq_def] at h
    split at h
    · cases h
      exact Nat.le_refl 1
    · cases h
    · next heq => cases heq
  | succ levels ih =>
    obtain ⟨⟨nests, rest'⟩, hnests, heq⟩ := Option.map_eq_some_iff.1 h
    cases heq
    refine height_ofList_le ?_
    cases token with
    | array count => exact Decoder.forall_of_items (fun _ _ _ _ ↦ ih) hnests
    | binary octets =>
      obtain ⟨values, hvalues, heq⟩ := Option.map_eq_some_iff.1 hnests
      cases heq
      cases octets with
      | nil =>
        cases hvalues
        exact nofun
      | cons octet octets =>
        rw [List.mapM_cons, ofOctet_eq_none] at hvalues
        cases hvalues
    | _ => cases hnests

/-- The innermost nest of a line may be a byte string, and closes no level then. -/
theorem reads_line (n : Nat) :
    (read n).Reads (List.replicate n 0x91 ++ [0xC4, 0x00]) (line n) := by
  induction n with
  | zero =>
    have hform : Token.Form (.binary []) [0xC4, 0x00] :=
      .binary (show (0xC4, 1) ∈ _ by decide) (by decide)
    exact fun rest ↦ Decoder.item_of_spells hform.spells _ rest
  | succ n ih =>
    have hform : Token.Form (.array 1) [0x91] := .smallArray (by decide)
    have hlist : ∀ rest, Decoder.list (fun _ ↦ read n) (n + 1) (.array 1)
        (List.replicate n 0x91 ++ [0xC4, 0x00] ++ rest) = some ([line n], rest) := fun rest ↦ by
      rw [Decoder.list, Decoder.items, Decoder.itemsOnto, ih rest]
      rfl
    have hbytes : List.replicate (n + 1) 0x91 ++ [0xC4, 0x00] =
        [0x91] ++ (List.replicate n 0x91 ++ [(0xC4 : UInt8), 0x00]) := by
      rw [List.replicate_succ, List.cons_append, List.singleton_append]
    rw [hbytes]
    refine Decoder.reads_of_spells hform.spells fun rest ↦ ?_
    rw [read_succ, Decoder.filterMap, hlist]
    rfl

end Nest

/-! ### Records

The tags of a record and its parents are in different fields, and the deeper of the two counts.
-/

namespace Record

/-- A record nests at most one deeper than its parent, and than its tags. -/
theorem nesting_make_le {id : IntKind.u64.Value} {name : String} {tags : List String}
    {parent : Option Record} {n : Nat} (h : ∀ r, parent = some r → r.nesting ≤ n) (hn : 1 ≤ n) :
    (make id name tags parent).nesting ≤ n + 1 := by
  cases parent with
  | none => exact Nat.succ_le_succ hn
  | some r => exact Nat.succ_le_succ (h r rfl)

/-- A record that is read is at most one deeper than the levels that were open. -/
theorem nesting_le_of_read {levels : Nat} {token : Token} {bs rest : Bytes} {r : Record}
    (h : read levels token bs = some (r, rest)) : r.nesting ≤ levels + 1 := by
  induction levels generalizing token bs rest r with
  | zero => cases token <;> cases h
  | succ levels ih =>
    have hparent : ∀ {bs rest : Bytes} {parent : Option Record},
        (Decoder.option (read levels)).item bs = some (parent, rest) →
        ∀ r, parent = some r → r.nesting ≤ levels + 1 := by
      rintro bs rest _ hitem r rfl
      obtain ⟨token, bs', hoption⟩ := Decoder.eq_some_of_item hitem
      exact ih (Decoder.eq_some_of_option hoption)
    cases token with
    | array n =>
      obtain ⟨-, -, hid⟩ := Option.bind_eq_some_iff.1 h
      obtain ⟨⟨id, bs₁⟩, -, hname⟩ := Option.bind_eq_some_iff.1 hid
      obtain ⟨⟨name, bs₂⟩, -, htags⟩ := Option.bind_eq_some_iff.1 hname
      obtain ⟨⟨tags, bs₃⟩, -, hrest⟩ := Option.bind_eq_some_iff.1 htags
      obtain ⟨⟨parent, bs₄⟩, hitem, heq⟩ := Option.bind_eq_some_iff.1 hrest
      cases heq
      exact nesting_make_le (hparent hitem) (Nat.le_add_left 1 levels)
    | map n =>
      obtain ⟨⟨draft, rest'⟩, hfields, hrecord⟩ := Option.bind_eq_some_iff.1 h
      obtain ⟨record, hdraft, heq⟩ := Option.bind_eq_some_iff.1 hrecord
      cases heq
      -- no other field changes the parent, so the one of the draft is one that was read
      have hkept : ∀ r, draft.parent.getD none = some r → r.nesting ≤ levels + 1 := by
        refine Decoder.of_fields (p := fun draft : Draft ↦ ∀ r, draft.parent.getD none = some r →
          r.nesting ≤ levels + 1) (fun i draft bs draft' rest hdraft hstore ↦ ?_)
          (fun r hr ↦ by cases hr) hfields
        rcases i with - | - | - | i
        · obtain ⟨-, a, -, rfl⟩ := Decoder.eq_put_of_once hstore
          exact hdraft
        · obtain ⟨-, a, -, rfl⟩ := Decoder.eq_put_of_once hstore
          exact hdraft
        · obtain ⟨-, a, -, rfl⟩ := Decoder.eq_put_of_once hstore
          exact hdraft
        · obtain ⟨-, parent, hitem, rfl⟩ := Decoder.eq_put_of_once hstore
          exact hparent hitem
      simp only [Draft.toRecord?, Option.bind_eq_bind, Option.bind_eq_some_iff] at hdraft
      obtain ⟨id, -, name, -, tags, -, heq⟩ := hdraft
      cases heq
      exact nesting_make_le hkept (Nat.le_add_left 1 levels)
    | _ => cases h

end Record

/-! ### Every value type

All types but these two have a fixed depth, or one that is counted as it is read.
-/

/-- What is read nests one level deeper at most than the levels that are open. -/
theorem ValueType.nesting_le_of_read {t : ValueType} (ht : t ≠ .dynamic) {levels : Nat}
    {token : Token} {bs rest : Bytes} {v : t.Value}
    (h : t.codec.read levels token bs = some (v, rest)) : t.nesting v ≤ levels + 1 := by
  cases t with
  | record => exact Record.nesting_le_of_read h
  | nest => exact Nest.height_le_of_read h
  | dynamic => exact absurd rfl ht
  | shape => exact Nat.le_trans (Shape.nesting_le_one v) (Nat.le_add_left 1 levels)
  | octets | pair | numbers | texts | table => exact Nat.le_add_left 1 levels
  | _ => exact Nat.zero_le _

/-- The value of a success is read at the levels of the outcome. -/
theorem Outcome.eq_some_of_read_success {α : Type} {c : Codec α} {levels : Nat} {token : Token}
    {bs rest : Bytes} {value : α}
    (h : (codec c).read levels token bs = some (.success value, rest)) :
    ∃ token' bs', c.read levels token' bs' = some (value, rest) := by
  rcases Decoder.eq_some_of_variant h with ⟨i, hi⟩ | ⟨i, token', bs', hpayload⟩
  · cases hi
  · rcases i with - | i
    · obtain ⟨⟨value', rest'⟩, hvalue, heq⟩ := Option.bind_eq_some_iff.1 hpayload
      cases heq
      exact ⟨token', bs', hvalue⟩
    · obtain ⟨⟨failure, rest'⟩, -, heq⟩ := Option.bind_eq_some_iff.1 hpayload
      cases heq

end Offload.Wire
