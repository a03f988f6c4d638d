import Offload.Proofs.Wire.Token

/-!
# The forms of a token

What is written of a token is the shortest of its forms. Here are all of them: a number, a length
or a count may be written in any of the widths that hold it, and a form says by its first byte
which one it is. `Form` lists them as the format does, so that what is read can be told without
reading: bytes spell a token just if they are one of its forms (`spells_iff`), and nothing else is
read from the front of any bytes (`exists_form_of_read?`).

The format gives every first byte one meaning. That is used in both directions. For each form there
is an equation that says what is read behind its first byte, and the other direction goes through
the first bytes in their order, so that nothing is left out.

Extensions are forms as well, though no value is written as one. A reader that skips values has to
know where they end.
-/

namespace Offload.Wire

/-! ### Numbers of a width

A number is spelt with the most significant byte first. Widths are counted in bytes, and a number
that fits a width has one spelling in it.
-/

theorem ofBigEndian_cons (b : UInt8) (bs : Bytes) :
    ofBigEndian (b :: bs) = b.toNat * 256 ^ bs.length + ofBigEndian bs := by
  have h := ofBigEndian_append [b] bs
  simpa [ofBigEndian] using h

/-- As many bytes hold numbers below a power of 256. -/
theorem ofBigEndian_lt (bs : Bytes) : ofBigEndian bs < 256 ^ bs.length := by
  induction bs with
  | nil => exact Nat.one_pos
  | cons b bs ih =>
    have hb : b.toNat < 256 := b.toNat_lt
    calc ofBigEndian (b :: bs) = b.toNat * 256 ^ bs.length + ofBigEndian bs := ofBigEndian_cons b bs
      _ < b.toNat * 256 ^ bs.length + 256 ^ bs.length := Nat.add_lt_add_left ih _
      _ = (b.toNat + 1) * 256 ^ bs.length := (Nat.succ_mul ..).symm
      _ ≤ 256 * 256 ^ bs.length := Nat.mul_le_mul_right _ hb
      _ = 256 ^ (b :: bs).length := (Nat.pow_succ').symm

/-- Bytes of one width that spell the same number are the same. -/
theorem eq_of_ofBigEndian_eq {bs cs : Bytes} (hlength : bs.length = cs.length)
    (h : ofBigEndian bs = ofBigEndian cs) : bs = cs := by
  induction bs generalizing cs with
  | nil => exact (List.eq_nil_of_length_eq_zero hlength.symm).symm
  | cons b bs ih =>
    rcases cs with - | ⟨c, cs⟩
    · cases hlength
    · have hrest : bs.length = cs.length := Nat.succ.inj hlength
      have hlt := ofBigEndian_lt bs
      have hlt' := ofBigEndian_lt cs
      rw [ofBigEndian_cons, ofBigEndian_cons, ← hrest] at h
      rw [← hrest] at hlt'
      have hpos : 0 < 256 ^ bs.length := Nat.pow_pos (by decide)
      -- the first byte is the quotient by what the others can hold
      have hfirst : b.toNat = c.toNat := by
        have hdiv := congrArg (· / 256 ^ bs.length) h
        simpa only [Nat.mul_comm _ (256 ^ bs.length), Nat.mul_add_div hpos,
          Nat.div_eq_of_lt hlt, Nat.div_eq_of_lt hlt', Nat.add_zero] using hdiv
      rw [hfirst] at h
      rw [UInt8.toNat_inj.1 hfirst, ih hrest (Nat.add_left_cancel h)]

/-- Bytes are written again as they were read. -/
theorem bigEndian_ofBigEndian (bs : Bytes) : bigEndian bs.length (ofBigEndian bs) = bs :=
  eq_of_ofBigEndian_eq (length_bigEndian ..) (ofBigEndian_bigEndian (ofBigEndian_lt bs))

/-- A number of a width is read from its bytes, and these are as many as its width. -/
theorem eq_append_of_number? {width n : Nat} {bs rest : Bytes}
    (h : number? width bs = some (n, rest)) :
    bs = bigEndian width n ++ rest ∧ n < 256 ^ width := by
  obtain ⟨⟨digits, rest'⟩, hdigits, heq⟩ := Option.map_eq_some_iff.1 h
  obtain ⟨rfl, rfl⟩ := Prod.mk.inj heq
  obtain ⟨rfl, rfl⟩ := eq_append_of_take? hdigits
  rw [bigEndian_ofBigEndian]
  exact ⟨rfl, ofBigEndian_lt digits⟩

namespace Token

/-! ### Forms

The tables of first bytes are those of the format. Where a form has its number in the first byte
itself, it is bounded by the room that is left there.
-/

/-- The first bytes of the unsigned numbers of one width each. -/
def unsignedWidths : List (UInt8 × Nat) :=
  [(0xCC, 1), (0xCD, 2), (0xCE, 4), (0xCF, 8)]

/-- The first bytes of the signed numbers. -/
def signedWidths : List (UInt8 × Nat) :=
  [(0xD0, 1), (0xD1, 2), (0xD2, 4), (0xD3, 8)]

/-- The first bytes of the texts, by the width of their length. -/
def textWidths : List (UInt8 × Nat) :=
  [(0xD9, 1), (0xDA, 2), (0xDB, 4)]

/-- The first bytes of the byte strings. -/
def binaryWidths : List (UInt8 × Nat) :=
  [(0xC4, 1), (0xC5, 2), (0xC6, 4)]

/-- The first bytes of the arrays. -/
def arrayWidths : List (UInt8 × Nat) :=
  [(0xDC, 2), (0xDD, 4)]

/-- The first bytes of the maps. -/
def mapWidths : List (UInt8 × Nat) :=
  [(0xDE, 2), (0xDF, 4)]

/-- The first bytes of the extensions, by the width of their length. -/
def extensionWidths : List (UInt8 × Nat) :=
  [(0xC7, 1), (0xC8, 2), (0xC9, 4)]

/-- The first bytes of the extensions of one length each. -/
def extensionLengths : List (UInt8 × Nat) :=
  [(0xD4, 1), (0xD5, 2), (0xD6, 4), (0xD7, 8), (0xD8, 16)]

/-- The forms of a token. The small numbers, lengths and counts have one more, in which they are
part of the first byte. -/
inductive Form : Token → Bytes → Prop
  | nil : Form .nil [0xC0]
  | bool (b : Bool) : Form (.bool b) [if b then 0xC3 else 0xC2]
  | smallUnsigned {n : Nat} : n < 0x80 → Form (.unsigned n) (bigEndian 1 n)
  | unsigned {first : UInt8} {width n : Nat} : (first, width) ∈ unsignedWidths → n < 256 ^ width →
      Form (.unsigned n) (first :: bigEndian width n)
  | smallSigned {n : Nat} : 0xE0 ≤ n → n < 0x100 →
      Form (.signed ((n : Int) - 0x100)) (bigEndian 1 n)
  | signed {first : UInt8} {width n : Nat} : (first, width) ∈ signedWidths → n < 256 ^ width →
      Form (.signed (twosComplement (8 * width) n)) (first :: bigEndian width n)
  | single {bits : Nat} : bits < 256 ^ 4 → Form (.single bits) (0xCA :: bigEndian 4 bits)
  | double {bits : Nat} : bits < 256 ^ 8 → Form (.double bits) (0xCB :: bigEndian 8 bits)
  | smallText {bs : Bytes} : bs.length < 0x20 →
      Form (.text bs) (bigEndian 1 (0xA0 + bs.length) ++ bs)
  | text {first : UInt8} {width : Nat} {bs : Bytes} : (first, width) ∈ textWidths →
      bs.length < 256 ^ width → Form (.text bs) (first :: (bigEndian width bs.length ++ bs))
  | binary {first : UInt8} {width : Nat} {bs : Bytes} : (first, width) ∈ binaryWidths →
      bs.length < 256 ^ width → Form (.binary bs) (first :: (bigEndian width bs.length ++ bs))
  | smallArray {n : Nat} : n < 0x10 → Form (.array n) (bigEndian 1 (0x90 + n))
  | array {first : UInt8} {width n : Nat} : (first, width) ∈ arrayWidths → n < 256 ^ width →
      Form (.array n) (first :: bigEndian width n)
  | smallMap {n : Nat} : n < 0x10 → Form (.map n) (bigEndian 1 (0x80 + n))
  | map {first : UInt8} {width n : Nat} : (first, width) ∈ mapWidths → n < 256 ^ width →
      Form (.map n) (first :: bigEndian width n)
  | shortExtension {first kind : UInt8} {bs : Bytes} : (first, bs.length) ∈ extensionLengths →
      Form (.extension kind bs) (first :: kind :: bs)
  | extension {first kind : UInt8} {width : Nat} {bs : Bytes} : (first, width) ∈ extensionWidths →
      bs.length < 256 ^ width →
      Form (.extension kind bs) (first :: (bigEndian width bs.length ++ kind :: bs))

/-! ### Every form is read

From a form to what is read there is one equation for each table, and no search.
-/

/-- A small number is its own first byte. -/
theorem readAfter?_smallUnsigned {n : Nat} (h : n < 0x80) (bs : Bytes) :
    readAfter? n bs = some (.unsigned n, bs) :=
  if_pos h

theorem readAfter?_smallMap {n : Nat} (h : n < 0x10) (bs : Bytes) :
    readAfter? (0x80 + n) bs = some (.map n, bs) := by
  unfold readAfter?
  rw [if_neg (by omega), if_pos (by omega), Nat.add_sub_cancel_left]

theorem readAfter?_smallArray {n : Nat} (h : n < 0x10) (bs : Bytes) :
    readAfter? (0x90 + n) bs = some (.array n, bs) := by
  unfold readAfter?
  rw [if_neg (by omega), if_neg (by omega), if_pos (by omega), Nat.add_sub_cancel_left]

theorem readAfter?_smallText {n : Nat} (h : n < 0x20) (bs : Bytes) :
    readAfter? (0xA0 + n) bs = ofPayload? .text n bs := by
  unfold readAfter?
  rw [if_neg (by omega), if_neg (by omega), if_neg (by omega), if_pos (by omega),
    Nat.add_sub_cancel_left]

/-- A small negative number has its value in the first byte. -/
theorem readAfter?_smallSigned {n : Nat} (h : 0xE0 ≤ n) (bs : Bytes) :
    readAfter? n bs = some (.signed ((n : Int) - 0x100), bs) := by
  unfold readAfter?
  rw [if_neg (by omega), if_neg (by omega), if_neg (by omega), if_neg (by omega)]
  split
  all_goals first
    | omega
    | exact if_pos h

section

variable {first : UInt8} {width : Nat}

theorem readAfter?_unsigned (h : (first, width) ∈ unsignedWidths) (bs : Bytes) :
    readAfter? first.toNat bs = ofNumber? width .unsigned bs := by
  simp only [unsignedWidths, List.mem_cons, Prod.mk.injEq, List.not_mem_nil, or_false] at h
  rcases h with ⟨rfl, rfl⟩ | ⟨rfl, rfl⟩ | ⟨rfl, rfl⟩ | ⟨rfl, rfl⟩ <;> rfl

/-- A number with a sign follows its first byte, as a complement of its width. -/
theorem readAfter?_signed (h : (first, width) ∈ signedWidths) (bs : Bytes) :
    readAfter? first.toNat bs =
      ofNumber? width (fun n ↦ .signed (twosComplement (8 * width) n)) bs := by
  simp only [signedWidths, List.mem_cons, Prod.mk.injEq, List.not_mem_nil, or_false] at h
  rcases h with ⟨rfl, rfl⟩ | ⟨rfl, rfl⟩ | ⟨rfl, rfl⟩ | ⟨rfl, rfl⟩ <;> rfl

theorem readAfter?_text (h : (first, width) ∈ textWidths) (bs : Bytes) :
    readAfter? first.toNat bs = ofCounted? width .text bs := by
  simp only [textWidths, List.mem_cons, Prod.mk.injEq, List.not_mem_nil, or_false] at h
  rcases h with ⟨rfl, rfl⟩ | ⟨rfl, rfl⟩ | ⟨rfl, rfl⟩ <;> rfl

theorem readAfter?_binary (h : (first, width) ∈ binaryWidths) (bs : Bytes) :
    readAfter? first.toNat bs = ofCounted? width .binary bs := by
  simp only [binaryWidths, List.mem_cons, Prod.mk.injEq, List.not_mem_nil, or_false] at h
  rcases h with ⟨rfl, rfl⟩ | ⟨rfl, rfl⟩ | ⟨rfl, rfl⟩ <;> rfl

theorem readAfter?_array (h : (first, width) ∈ arrayWidths) (bs : Bytes) :
    readAfter? first.toNat bs = ofNumber? width .array bs := by
  simp only [arrayWidths, List.mem_cons, Prod.mk.injEq, List.not_mem_nil, or_false] at h
  rcases h with ⟨rfl, rfl⟩ | ⟨rfl, rfl⟩ <;> rfl

theorem readAfter?_map (h : (first, width) ∈ mapWidths) (bs : Bytes) :
    readAfter? first.toNat bs = ofNumber? width .map bs := by
  simp only [mapWidths, List.mem_cons, Prod.mk.injEq, List.not_mem_nil, or_false] at h
  rcases h with ⟨rfl, rfl⟩ | ⟨rfl, rfl⟩ <;> rfl

/-- An extension has its length behind the first byte, and then its type. -/
theorem readAfter?_extension (h : (first, width) ∈ extensionWidths) (bs : Bytes) :
    readAfter? first.toNat bs =
      (number? width bs).bind fun (length, rest) ↦ ofExtension? length rest := by
  simp only [extensionWidths, List.mem_cons, Prod.mk.injEq, List.not_mem_nil, or_false] at h
  rcases h with ⟨rfl, rfl⟩ | ⟨rfl, rfl⟩ | ⟨rfl, rfl⟩ <;> rfl

/-- An extension of a common length has none, and the first byte stands for it. -/
theorem readAfter?_shortExtension {length : Nat} (h : (first, length) ∈ extensionLengths)
    (bs : Bytes) : readAfter? first.toNat bs = ofExtension? length bs := by
  simp only [extensionLengths, List.mem_cons, Prod.mk.injEq, List.not_mem_nil, or_false] at h
  rcases h with ⟨rfl, rfl⟩ | ⟨rfl, rfl⟩ | ⟨rfl, rfl⟩ | ⟨rfl, rfl⟩ | ⟨rfl, rfl⟩ <;> rfl

end

theorem ofExtension?_append (kind : UInt8) (bs rest : Bytes) :
    ofExtension? bs.length (kind :: bs ++ rest) = some (.extension kind bs, rest) := by
  simp [ofExtension?, ofPayload?, take?_append]

/-- Bytes in one of the forms of a token are read as the token, whatever follows them. -/
theorem Form.spells {token : Token} {bs : Bytes} (h : Form token bs) : Spells bs token := by
  cases h with
  | nil => exact fun _ ↦ rfl
  | bool b => exact spells_writeBool b
  | smallUnsigned hn => exact spells_of_readAfter? (by omega) (readAfter?_smallUnsigned hn)
  | unsigned hfirst hn => exact spells_number (readAfter?_unsigned hfirst) hn
  | smallSigned hl hn => exact spells_of_readAfter? hn (readAfter?_smallSigned hl)
  | signed hfirst hn => exact spells_number (readAfter?_signed hfirst) hn
  | single hn => exact spells_number (fun _ ↦ rfl) hn
  | double hn => exact spells_number (fun _ ↦ rfl) hn
  | @smallText payload hn =>
    intro rest
    have hbyte : (UInt8.ofNat (0xA0 + payload.length)).toNat = 0xA0 + payload.length :=
      UInt8.toNat_ofNat_of_lt' (by simp only [UInt8.size]; omega)
    rw [bigEndian_one]
    show readAfter? (UInt8.ofNat (0xA0 + payload.length)).toNat (payload ++ rest) = _
    rw [hbyte, readAfter?_smallText hn, ofPayload?, take?_append]
    rfl
  | text hfirst hn => exact spells_counted (readAfter?_text hfirst) hn
  | binary hfirst hn => exact spells_counted (readAfter?_binary hfirst) hn
  | smallArray hn => exact spells_of_readAfter? (by omega) (readAfter?_smallArray hn)
  | array hfirst hn => exact spells_number (readAfter?_array hfirst) hn
  | smallMap hn => exact spells_of_readAfter? (by omega) (readAfter?_smallMap hn)
  | map hfirst hn => exact spells_number (readAfter?_map hfirst) hn
  | @shortExtension first kind payload hfirst =>
    intro rest
    exact (readAfter?_shortExtension hfirst _).trans (ofExtension?_append kind payload rest)
  | @extension first kind width payload hfirst hn =>
    intro rest
    show readAfter? first.toNat (bigEndian width payload.length ++ kind :: payload ++ rest) = _
    rw [readAfter?_extension hfirst, List.append_assoc, number?_bigEndian_append hn]
    exact ofExtension?_append kind payload rest

/-! ### Nothing else is read

In the other direction each first byte has to be looked at. They are taken in their ranges, and the
tables are lists, so the cases are as many as there are forms.
-/

/-- The first bytes that are no part of a number, a length or a count. -/
theorem mem_widths {b : UInt8} (hl : 0xC0 ≤ b.toNat) (hu : b.toNat < 0xE0) :
    b ∈ [0xC0, 0xC1, 0xC2, 0xC3, 0xCA, 0xCB] ∨ b ∈ unsignedWidths.map Prod.fst ∨
      b ∈ signedWidths.map Prod.fst ∨ b ∈ textWidths.map Prod.fst ∨
      b ∈ binaryWidths.map Prod.fst ∨ b ∈ arrayWidths.map Prod.fst ∨
      b ∈ mapWidths.map Prod.fst ∨ b ∈ extensionWidths.map Prod.fst ∨
      b ∈ extensionLengths.map Prod.fst := by
  have hall : ∀ n < 0x20, UInt8.ofNat (0xC0 + n) ∈ [0xC0, 0xC1, 0xC2, 0xC3, 0xCA, 0xCB] ∨
      UInt8.ofNat (0xC0 + n) ∈ unsignedWidths.map Prod.fst ∨
      UInt8.ofNat (0xC0 + n) ∈ signedWidths.map Prod.fst ∨
      UInt8.ofNat (0xC0 + n) ∈ textWidths.map Prod.fst ∨
      UInt8.ofNat (0xC0 + n) ∈ binaryWidths.map Prod.fst ∨
      UInt8.ofNat (0xC0 + n) ∈ arrayWidths.map Prod.fst ∨
      UInt8.ofNat (0xC0 + n) ∈ mapWidths.map Prod.fst ∨
      UInt8.ofNat (0xC0 + n) ∈ extensionWidths.map Prod.fst ∨
      UInt8.ofNat (0xC0 + n) ∈ extensionLengths.map Prod.fst := by
    decide
  have h := hall (b.toNat - 0xC0) (by omega)
  rwa [Nat.add_sub_cancel' hl, UInt8.ofNat_toNat] at h

theorem mem_of_mem_map_fst {b : UInt8} {widths : List (UInt8 × Nat)}
    (h : b ∈ widths.map Prod.fst) : ∃ width, (b, width) ∈ widths := by
  simpa using h

section

variable {bs rest : Bytes} {read : Token}

/-- A token of a number is made of the bytes of that number. -/
theorem eq_of_ofNumber? {width : Nat} {token : Nat → Token}
    (h : ofNumber? width token bs = some (read, rest)) :
    ∃ n < 256 ^ width, read = token n ∧ bs = bigEndian width n ++ rest := by
  obtain ⟨⟨n, rest'⟩, hn, heq⟩ := Option.map_eq_some_iff.1 h
  obtain ⟨rfl, rfl⟩ := Prod.mk.inj heq
  obtain ⟨rfl, hlt⟩ := eq_append_of_number? hn
  exact ⟨n, hlt, rfl, rfl⟩

/-- A token with a payload is made of that payload, and of no byte behind it. -/
theorem eq_of_ofPayload? {length : Nat} {token : Bytes → Token}
    (h : ofPayload? token length bs = some (read, rest)) :
    ∃ payload, payload.length = length ∧ read = token payload ∧ bs = payload ++ rest := by
  obtain ⟨⟨payload, rest'⟩, hpayload, heq⟩ := Option.map_eq_some_iff.1 h
  obtain ⟨rfl, rfl⟩ := Prod.mk.inj heq
  obtain ⟨rfl, hlength⟩ := eq_append_of_take? hpayload
  exact ⟨payload, hlength, rfl, rfl⟩

/-- A token whose payload stands behind its length is made of the two. -/
theorem eq_of_ofCounted? {width : Nat} {token : Bytes → Token}
    (h : ofCounted? width token bs = some (read, rest)) :
    ∃ payload, payload.length < 256 ^ width ∧ read = token payload ∧
      bs = bigEndian width payload.length ++ payload ++ rest := by
  obtain ⟨⟨length, rest'⟩, hlength, hpayload⟩ := Option.bind_eq_some_iff.1 h
  obtain ⟨rfl, hlt⟩ := eq_append_of_number? hlength
  obtain ⟨payload, rfl, rfl, rfl⟩ := eq_of_ofPayload? hpayload
  exact ⟨payload, hlt, rfl, (List.append_assoc ..).symm⟩

theorem eq_of_ofExtension? {length : Nat} (h : ofExtension? length bs = some (read, rest)) :
    ∃ kind payload, payload.length = length ∧ read = .extension kind payload ∧
      bs = kind :: payload ++ rest := by
  rcases bs with - | ⟨kind, bs⟩
  · cases h
  · obtain ⟨payload, hlength, rfl, rfl⟩ := eq_of_ofPayload? h
    exact ⟨kind, payload, hlength, rfl, rfl⟩

end

/-- Behind a first byte that is no part of a number, a length or a count, the rest of a form is
read that begins with it. -/
theorem exists_form_of_widths {b : UInt8} (hl : 0xC0 ≤ b.toNat) (hu : b.toNat < 0xE0)
    {bs rest : Bytes} {token : Token} (h : readAfter? b.toNat bs = some (token, rest)) :
    ∃ body, bs = body ++ rest ∧ Form token (b :: body) := by
  rcases mem_widths hl hu with hmem | hmem | hmem | hmem | hmem | hmem | hmem | hmem | hmem
  · simp only [List.mem_cons, List.not_mem_nil, or_false] at hmem
    rcases hmem with rfl | rfl | rfl | rfl | rfl | rfl
    · cases h
      exact ⟨[], rfl, .nil⟩
    · cases h
    · cases h
      exact ⟨[], rfl, .bool false⟩
    · cases h
      exact ⟨[], rfl, .bool true⟩
    · have hsingle : ofNumber? 4 single bs = some (token, rest) := h
      obtain ⟨n, hn, rfl, rfl⟩ := eq_of_ofNumber? hsingle
      exact ⟨_, rfl, .single hn⟩
    · have hdouble : ofNumber? 8 double bs = some (token, rest) := h
      obtain ⟨n, hn, rfl, rfl⟩ := eq_of_ofNumber? hdouble
      exact ⟨_, rfl, .double hn⟩
  all_goals obtain ⟨width, hfirst⟩ := mem_of_mem_map_fst hmem
  · rw [readAfter?_unsigned hfirst] at h
    obtain ⟨n, hn, rfl, rfl⟩ := eq_of_ofNumber? h
    exact ⟨_, rfl, .unsigned hfirst hn⟩
  · rw [readAfter?_signed hfirst] at h
    obtain ⟨n, hn, rfl, rfl⟩ := eq_of_ofNumber? h
    exact ⟨_, rfl, .signed hfirst hn⟩
  · rw [readAfter?_text hfirst] at h
    obtain ⟨payload, hn, rfl, rfl⟩ := eq_of_ofCounted? h
    exact ⟨_, rfl, .text hfirst hn⟩
  · rw [readAfter?_binary hfirst] at h
    obtain ⟨payload, hn, rfl, rfl⟩ := eq_of_ofCounted? h
    exact ⟨_, rfl, .binary hfirst hn⟩
  · rw [readAfter?_array hfirst] at h
    obtain ⟨n, hn, rfl, rfl⟩ := eq_of_ofNumber? h
    exact ⟨_, rfl, .array hfirst hn⟩
  · rw [readAfter?_map hfirst] at h
    obtain ⟨n, hn, rfl, rfl⟩ := eq_of_ofNumber? h
    exact ⟨_, rfl, .map hfirst hn⟩
  · rw [readAfter?_extension hfirst] at h
    obtain ⟨⟨length, bs'⟩, hlength, hpayload⟩ := Option.bind_eq_some_iff.1 h
    obtain ⟨rfl, hn⟩ := eq_append_of_number? hlength
    obtain ⟨kind, payload, rfl, rfl, rfl⟩ := eq_of_ofExtension? hpayload
    exact ⟨_, (List.append_assoc ..).symm, .extension hfirst hn⟩
  · rw [readAfter?_shortExtension hfirst] at h
    obtain ⟨kind, payload, rfl, rfl, rfl⟩ := eq_of_ofExtension? h
    exact ⟨_, rfl, .shortExtension hfirst⟩

/-- What is read behind a first byte is the rest of a form that begins with it. -/
theorem exists_form_of_readAfter? {b : UInt8} {bs rest : Bytes} {token : Token}
    (h : readAfter? b.toNat bs = some (token, rest)) :
    ∃ body, bs = body ++ rest ∧ Form token (b :: body) := by
  have hsmall : ∀ n, b.toNat = n → bigEndian 1 n = [b] := fun n hn ↦ by
    rw [bigEndian_one, ← hn, UInt8.ofNat_toNat]
  -- the ranges of the first byte, in ascending order
  rcases Nat.lt_or_ge b.toNat 0x80 with hb | hb
  · rw [readAfter?_smallUnsigned hb] at h
    cases h
    exact ⟨[], rfl, hsmall _ rfl ▸ .smallUnsigned hb⟩
  rcases Nat.lt_or_ge b.toNat 0x90 with hmap | hmap
  · obtain ⟨n, hn⟩ := Nat.exists_eq_add_of_le hb
    rw [hn, readAfter?_smallMap (by omega)] at h
    cases h
    exact ⟨[], rfl, hsmall _ hn ▸ .smallMap (by omega)⟩
  rcases Nat.lt_or_ge b.toNat 0xA0 with harray | harray
  · obtain ⟨n, hn⟩ := Nat.exists_eq_add_of_le hmap
    rw [hn, readAfter?_smallArray (by omega)] at h
    cases h
    exact ⟨[], rfl, hsmall _ hn ▸ .smallArray (by omega)⟩
  rcases Nat.lt_or_ge b.toNat 0xC0 with hl | hl
  · obtain ⟨n, hn⟩ := Nat.exists_eq_add_of_le harray
    rw [hn, readAfter?_smallText (by omega)] at h
    obtain ⟨payload, rfl, rfl, rfl⟩ := eq_of_ofPayload? h
    have hform : Form (.text payload) (bigEndian 1 (0xA0 + payload.length) ++ payload) :=
      .smallText (by omega)
    rw [hsmall _ hn] at hform
    exact ⟨payload, rfl, hform⟩
  rcases Nat.lt_or_ge b.toNat 0xE0 with hu | hu
  · exact exists_form_of_widths hl hu h
  · rw [readAfter?_smallSigned hu] at h
    cases h
    exact ⟨[], rfl, hsmall _ rfl ▸ .smallSigned hu b.toNat_lt⟩

/-- A token is read from one of its forms, at the front of the bytes. -/
theorem exists_form_of_read? {bs rest : Bytes} {token : Token}
    (h : read? bs = some (token, rest)) : ∃ form, Form token form ∧ bs = form ++ rest := by
  rcases bs with - | ⟨b, bs⟩
  · cases h
  · obtain ⟨body, rfl, hform⟩ := exists_form_of_readAfter? h
    exact ⟨b :: body, hform, rfl⟩

/-- The bytes from which a token is read, whatever follows them, are its forms. -/
theorem spells_iff {token : Token} {bs : Bytes} : Spells bs token ↔ Form token bs := by
  refine ⟨fun h ↦ ?_, Form.spells⟩
  obtain ⟨form, hform, heq⟩ := exists_form_of_read? (h [])
  rw [List.append_nil, List.append_nil] at heq
  rwa [heq]

end Token

end Offload.Wire
