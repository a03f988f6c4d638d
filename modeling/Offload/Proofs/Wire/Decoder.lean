import Offload.Proofs.Wire.Token
import Offload.Wire.Decoder

/-!
# What decoders read

A decoder *reads* a value from bytes if it makes it of them and leaves exactly what follows them,
whatever that is. This is what lets values stand one behind the other, so each combinator has one
law: if its parts read their values, it reads the compound from the header and the parts.
-/

namespace Offload.Wire.Decoder

open Token (Spells)

variable {α β : Type} {d : Decoder α} {bs cs header body : Bytes} {token : Token} {a : α} {b : β}

/-- Bytes from which a decoder reads a value, whatever follows them. -/
def Reads (d : Decoder α) (bs : Bytes) (a : α) : Prop :=
  ∀ rest, d.item (bs ++ rest) = some (a, rest)

/-! ### From tokens

A decoder is a function of the first token and of what follows it. To read a value is to have a
token that is spelt by the first bytes, and to make the value of it and of the rest.
-/

/-- A decoder goes on behind the token that the first bytes spell. -/
theorem item_of_spells (h : Spells header token) (d : Decoder α) (rest : Bytes) :
    d.item (header ++ rest) = d token rest := by
  rw [item, h rest]
  rfl

/-- What is read is made of some token. -/
theorem eq_some_of_item {rest : Bytes} (h : d.item bs = some (a, rest)) :
    ∃ token bs', d token bs' = some (a, rest) := by
  obtain ⟨⟨token, bs'⟩, -, h⟩ := Option.bind_eq_some_iff.1 h
  exact ⟨token, bs', h⟩

/-- A value is read if the decoder makes it of its first token and what stands behind that. -/
theorem reads_of_spells (h : Spells header token)
    (hd : ∀ rest, d token (body ++ rest) = some (a, rest)) : d.Reads (header ++ body) a := by
  intro rest
  rw [List.append_assoc, item_of_spells h, hd]

/-- A decoder of single tokens reads what a token says. -/
theorem reads_scalar {f : Token → Option α} (h : Spells bs token) (hf : f token = some a) :
    (scalar f).Reads bs a := by
  intro rest
  rw [item_of_spells h, scalar, hf]
  rfl

/-- A check that holds lets reading go on. -/
theorem guard_eq_some {p : Prop} [Decidable p] (h : p) : (guard p : Option Unit) = some () :=
  if_pos h

theorem guard_eq_none {p : Prop} [Decidable p] (h : ¬ p) : (guard p : Option Unit) = none :=
  if_neg h

/-- Nothing is read from no bytes. -/
theorem Reads.length_pos (h : d.Reads bs a) : 0 < bs.length := by
  rcases bs with - | ⟨b, bs⟩
  · cases h []
  · exact Nat.succ_pos _

theorem item_filterMap (f : α → Option β) (d : Decoder α) (bs : Bytes) :
    (filterMap f d).item bs = (d.item bs).bind fun r ↦ (f r.1).map fun b ↦ (b, r.2) := by
  simp only [item, filterMap]
  cases Token.read? bs <;> rfl

theorem Reads.map {f : α → Option β} (h : d.Reads bs a) (hf : f a = some b) :
    (filterMap f d).Reads bs b := by
  intro rest
  rw [item_filterMap, h rest]
  simp only [Option.bind_some, hf, Option.map_some]

/-! ### Compounds

Sequences are read with an accumulator, in reverse. The laws speak of the whole sequence, so callers
do not see it.
-/

theorem reads_option_none : (option d).Reads Token.writeNil none := by
  intro rest
  rw [item_of_spells Token.spells_writeNil]
  rfl

/-- A value whose first token is not that of nothing is told from a missing one. -/
theorem reads_option_some (hs : Spells header token) (hne : token ≠ .nil)
    (h : d.Reads (header ++ body) a) : (option d).Reads (header ++ body) (some a) := by
  refine reads_of_spells hs fun rest ↦ ?_
  have hd := h rest
  rw [List.append_assoc, item_of_spells hs] at hd
  have hoption : option d token (body ++ rest) =
      (d token (body ++ rest)).map fun r ↦ (some r.1, r.2) := by
    cases token <;> first | rfl | exact absurd rfl hne
  rw [hoption, hd]
  rfl

section

variable {write : α → Bytes} {vs : List α}

/-- Items are read one behind the other, each from bytes of its own. -/
theorem itemsOnto_flatten {items : List (α × Bytes)} (h : ∀ r ∈ items, d.Reads r.2 r.1)
    (done : List α) (rest : Bytes) :
    itemsOnto d items.length done ((items.map Prod.snd).flatten ++ rest) =
      some (done.reverse ++ items.map Prod.fst, rest) := by
  induction items generalizing done with
  | nil => simp [itemsOnto]
  | cons r items ih =>
    have hr := h r List.mem_cons_self ((items.map Prod.snd).flatten ++ rest)
    have hitems := ih fun r' hr' ↦ h r' (List.mem_cons_of_mem r hr')
    rw [List.map_cons, List.flatten_cons, List.append_assoc, List.length_cons, itemsOnto, hr]
    show itemsOnto d items.length (r.1 :: done) ((items.map Prod.snd).flatten ++ rest) = _
    rw [hitems, List.reverse_cons, List.append_assoc]
    rfl

/-- Items are read one behind the other, onto those that are there. -/
theorem itemsOnto_flatMap (h : ∀ v ∈ vs, d.Reads (write v) v) (done : List α) (rest : Bytes) :
    itemsOnto d vs.length done (vs.flatMap write ++ rest) = some (done.reverse ++ vs, rest) := by
  have hitems : ∀ r ∈ vs.map fun v ↦ (v, write v), d.Reads r.2 r.1 := by
    simpa only [List.forall_mem_map] using h
  have hread := itemsOnto_flatten hitems done rest
  rw [List.length_map, List.map_map, List.map_map] at hread
  rw [List.flatMap_def]
  exact hread.trans (by rw [show Prod.fst ∘ (fun v ↦ (v, write v)) = id from rfl, List.map_id])

theorem items_flatMap (h : ∀ v ∈ vs, d.Reads (write v) v) (rest : Bytes) :
    items d vs.length (vs.flatMap write ++ rest) = some (vs, rest) :=
  itemsOnto_flatMap h [] rest

/-- Values that take a byte each at least are no more than their bytes. -/
theorem length_le_flatMap_of_pos (h : ∀ v ∈ vs, 0 < (write v).length) :
    vs.length ≤ (vs.flatMap write).length := by
  induction vs with
  | nil => exact Nat.zero_le _
  | cons v vs ih =>
    have hv := h v List.mem_cons_self
    have hvs := ih fun w hw ↦ h w (List.mem_cons_of_mem v hw)
    rw [List.flatMap_cons, List.length_cons, List.length_append]
    omega

/-- There are no more items than bytes. -/
theorem length_le_of_reads (h : ∀ v ∈ vs, d.Reads (write v) v) :
    vs.length ≤ (vs.flatMap write).length :=
  length_le_flatMap_of_pos fun v hv ↦ (h v hv).length_pos

theorem reads_list {element : Nat → Decoder α} {levels : Nat}
    (h : ∀ v ∈ vs, (element levels).Reads (write v) v)
    (hsize : (Token.writeArray vs.length ++ vs.flatMap write).length < 2 ^ 32) :
    (list element (levels + 1)).Reads (Token.writeArray vs.length ++ vs.flatMap write) vs := by
  have hle := length_le_of_reads h
  rw [List.length_append] at hsize
  exact reads_of_spells (Token.spells_writeArray (by omega)) fun rest ↦ items_flatMap h rest

end

theorem reads_pair {first : Nat → Decoder α} {second : Nat → Decoder β} {levels : Nat}
    (hf : (first levels).Reads bs a) (hg : (second levels).Reads cs b) :
    (pair first second (levels + 1)).Reads (Token.writeArray 2 ++ (bs ++ cs)) (a, b) := by
  refine reads_of_spells (Token.spells_writeArray (by decide)) fun rest ↦ ?_
  show ((first levels).item (bs ++ cs ++ rest)).bind _ = _
  rw [List.append_assoc, hf]
  show ((second levels).item (cs ++ rest)).map _ = _
  rw [hg]
  rfl

theorem item_entry (key : Decoder α) (value : Decoder β) (bs : Bytes) :
    (entry key value).item bs = (key.item bs).bind fun r ↦
      (value.item r.2).map fun r' ↦ ((r.1, r'.1), r'.2) := by
  simp only [item, entry]
  cases Token.read? bs <;> rfl

theorem reads_entry {key : Decoder α} {value : Decoder β} (hk : key.Reads bs a)
    (hv : value.Reads cs b) : (entry key value).Reads (bs ++ cs) (a, b) := by
  intro rest
  rw [item_entry, List.append_assoc, hk, Option.bind_some, hv]
  rfl

/-- A map is read whose entries are, where the first key may be read otherwise. -/
theorem entries_flatMap {firstKey key : Decoder α} {value : Nat → Decoder β} {levels : Nat}
    {write : α × β → Bytes} {es : List (α × β)}
    (hfirst : ∀ e ∈ es, (entry firstKey (value levels)).Reads (write e) e)
    (h : ∀ e ∈ es, (entry key (value levels)).Reads (write e) e) (rest : Bytes) :
    entries firstKey key value (levels + 1) (.map es.length) (es.flatMap write ++ rest) =
      some (es, rest) := by
  rcases es with - | ⟨e, es⟩
  · rfl
  · have hothers := items_flatMap fun e' he ↦ h e' (List.mem_cons_of_mem e he)
    rw [List.flatMap_cons, List.append_assoc]
    show ((entry firstKey (value levels)).item (write e ++ _)).bind _ = _
    rw [hfirst e List.mem_cons_self]
    show (items (entry key (value levels)) es.length (es.flatMap write ++ rest)).map _ = _
    rw [hothers]
    rfl

/-! ### Fields and variants

Names are compared as bytes, and a name that is not in the list is no variant. A field that comes a
second time is rejected before its value is read.
-/

/-- A field that is read was not there before. -/
theorem eq_put_of_once {σ : Type} {current : Option α} {put : α → σ} {rest : Bytes} {s : σ}
    (h : once current d put bs = some (s, rest)) :
    current = none ∧ ∃ a, d.item bs = some (a, rest) ∧ s = put a := by
  cases current with
  | some a => cases h
  | none =>
    obtain ⟨⟨a, rest'⟩, ha, heq⟩ := Option.map_eq_some_iff.1 h
    obtain ⟨rfl, rfl⟩ := Prod.mk.inj heq
    exact ⟨rfl, a, ha, rfl⟩

theorem find?_name {names : List String} {name : String} {i : Nat}
    (h : names.findIdx? (· == name) = some i) :
    (Identifier.name (utf8 name)).find? names = some i := by
  have heq : ∀ other, (utf8 other == utf8 name) = (other == name) := by
    intro other
    rw [Bool.eq_iff_iff, beq_iff_eq, beq_iff_eq]
    refine ⟨fun hbytes ↦ ?_, fun hsame ↦ by rw [hsame]⟩
    have hsome := congrArg ofUtf8? hbytes
    rw [ofUtf8?_utf8, ofUtf8?_utf8] at hsome
    exact Option.some.inj hsome
  simpa only [Identifier.find?, heq] using h

section

variable {names : List String} {bare : Nat → Option α} {payload : Nat → Decoder α} {name : String}
  {i : Nat}

theorem spells_name (hn : name.utf8ByteSize < 2 ^ 32) :
    Spells (Token.writeText (utf8 name)) (.text (utf8 name)) :=
  Token.spells_writeText (by rwa [length_utf8])

/-- A variant with a payload is told by its key, and is what is made of the payload. -/
theorem item_variant_of_spells (hm : Spells header (.map 1)) (hk : Spells bs token)
    (hi : (identifier? token).bind (Identifier.find? names) = some i) (rest : Bytes) :
    (variant names bare payload).item (header ++ (bs ++ rest)) = (payload i).item rest := by
  rw [item_of_spells hm, variant, if_pos rfl, hk rest]
  simp only [Option.bind_some, hi]

/-- A variant without payload is told by its key alone. -/
theorem reads_variant_of_spells (hk : Spells bs token)
    (hi : (identifier? token).bind (Identifier.find? names) = some i) (h : bare i = some a) :
    (variant names bare payload).Reads bs a := by
  intro rest
  have hbare : variant names bare payload token rest =
      (((identifier? token).bind (Identifier.find? names)).bind bare).map fun a ↦ (a, rest) := by
    cases token with
    | map => cases hi
    | _ => rfl
  rw [item_of_spells hk, hbare, hi, Option.bind_some, h]
  rfl

/-- A variant with a payload is a map of one entry. -/
theorem item_variant (hi : names.findIdx? (· == name) = some i)
    (hn : name.utf8ByteSize < 2 ^ 32) (rest : Bytes) :
    (variant names bare payload).item
      (Token.writeMap 1 ++ (Token.writeText (utf8 name) ++ rest)) = (payload i).item rest :=
  item_variant_of_spells (Token.spells_writeMap (by decide)) (spells_name hn) (find?_name hi) rest

/-- A variant with a payload is read by its name. -/
theorem reads_variant (hi : names.findIdx? (· == name) = some i)
    (hn : name.utf8ByteSize < 2 ^ 32) (h : (payload i).Reads bs a) :
    (variant names bare payload).Reads
      (Token.writeMap 1 ++ (Token.writeText (utf8 name) ++ bs)) a := by
  intro rest
  rw [List.append_assoc, List.append_assoc, item_variant hi hn]
  exact h rest

/-- A variant without payload is read by its name alone. -/
theorem reads_variant_bare (hi : names.findIdx? (· == name) = some i)
    (hn : name.utf8ByteSize < 2 ^ 32) (h : bare i = some a) :
    (variant names bare payload).Reads (Token.writeText (utf8 name)) a :=
  reads_variant_of_spells (spells_name hn) (find?_name hi) h

end

end Offload.Wire.Decoder
