import Offload.Wire.Token

/-!
# What written tokens spell

The bytes of a token are known by their first one, which also says how many follow, so a token is
read back whatever follows it: bytes *spell* a token if `Token.read?` makes it of them and leaves
exactly the bytes behind them. Every token is written in the shortest of its forms, and each of
these spells it, as long as a number fits 64 bits and a length fits 32.
-/

namespace Offload.Wire.Token

/-- Bytes from which a token is read, whatever follows them. -/
def Spells (bs : Bytes) (token : Token) : Prop :=
  ∀ rest, read? (bs ++ rest) = some (token, rest)

theorem Spells.length_pos {bs : Bytes} {token : Token} (h : Spells bs token) : 0 < bs.length := by
  rcases bs with - | ⟨b, bs⟩
  · cases h []
  · exact Nat.succ_pos _

/-! ### Forms -/

theorem bigEndian_one {n : Nat} : bigEndian 1 n = [UInt8.ofNat n] := by
  simp [bigEndian]

/-- A token that is all in its first byte. -/
theorem spells_of_readAfter? {n : Nat} {token : Token} (hn : n < 256)
    (h : ∀ rest, readAfter? n rest = some (token, rest)) : Spells (bigEndian 1 n) token := by
  intro rest
  rw [bigEndian_one]
  show readAfter? (UInt8.ofNat n).toNat rest = _
  rw [UInt8.toNat_ofNat_of_lt' hn, h]

/-- A number behind a byte that says how wide it is. -/
theorem spells_number {first : UInt8} {width n : Nat} {token : Nat → Token}
    (h : ∀ bs, readAfter? first.toNat bs = ofNumber? width token bs) (hn : n < 256 ^ width) :
    Spells (first :: bigEndian width n) (token n) := by
  intro rest
  show readAfter? first.toNat (bigEndian width n ++ rest) = _
  rw [h, ofNumber?, number?_bigEndian_append hn]
  rfl

/-- Bytes behind their length, behind a byte that says how wide the length is. -/
theorem spells_counted {first : UInt8} {width : Nat} {token : Bytes → Token} {payload : Bytes}
    (h : ∀ bs, readAfter? first.toNat bs = ofCounted? width token bs)
    (hp : payload.length < 256 ^ width) :
    Spells (first :: (bigEndian width payload.length ++ payload)) (token payload) := by
  intro rest
  show readAfter? first.toNat (bigEndian width payload.length ++ payload ++ rest) = _
  rw [h, List.append_assoc, ofCounted?, number?_bigEndian_append hp]
  simp [ofPayload?, take?_append]

/-! ### Integers

A number is written in the shortest form that holds it. Each case is a bound on the number, with or
without a sign, and the form that belongs to it.
-/

/-- A number of 64 bits is written as its token. -/
theorem spells_writeUnsigned {n : Nat} (h : n < 2 ^ 64) :
    Spells (writeUnsigned n) (unsigned n) := by
  rw [writeUnsigned]
  split
  · next hn =>
    refine spells_of_readAfter? (by omega) fun rest ↦ ?_
    unfold readAfter?
    rw [if_pos hn]
  · split
    · next hn => exact spells_number (fun _ ↦ rfl) hn
    · split
      · next hn => exact spells_number (fun _ ↦ rfl) hn
      · split
        · next hn => exact spells_number (fun _ ↦ rfl) hn
        · exact spells_number (fun _ ↦ rfl) h

/-- A negative number of some bits comes back from its two's complement. -/
theorem twosComplement_complement {bits : Nat} (hb : bits ≠ 0) {n : Int} (hn : n < 0)
    (h : -2 ^ (bits - 1) ≤ n) : twosComplement bits (complement bits n) = n := by
  obtain ⟨b, rfl⟩ := Nat.exists_eq_succ_of_ne_zero hb
  have hpow : (2 : Int) ^ (b + 1) = 2 * 2 ^ b := by rw [Int.pow_succ, Int.mul_comm]
  have hcast : ((complement (b + 1) n : Nat) : Int) = n + 2 ^ (b + 1) := by
    rw [complement, Int.toNat_of_nonneg]
    simp only [Nat.succ_eq_add_one, Nat.add_sub_cancel] at h
    omega
  simp only [Nat.succ_eq_add_one, Nat.add_sub_cancel] at h ⊢
  -- the sign bit is set, so the number is read as a negative one
  have hge : ¬ complement (b + 1) n < 2 ^ b := by
    intro hlt
    have hlt' : ((complement (b + 1) n : Nat) : Int) < 2 ^ b := by exact_mod_cast hlt
    omega
  rw [twosComplement, Nat.add_sub_cancel, if_neg hge, hcast]
  omega

/-- The token that an integer is written as. -/
def ofInteger (n : Int) : Token :=
  if 0 ≤ n then unsigned n.toNat else signed n

/-- A negative number of a width has a complement of that width. -/
theorem complement_lt {bits : Nat} {n : Int} (hn : n < 0) : complement bits n < 2 ^ bits := by
  have hpow : (0 : Int) < 2 ^ bits := Int.pow_pos (by decide)
  have hcast : (((2 : Nat) ^ bits : Nat) : Int) = 2 ^ bits := by simp
  rw [complement]
  omega

/-- A negative number in one of the forms that keep its two's complement. -/
theorem spells_complement {first : UInt8} {width : Nat} (hw : width ≠ 0) {n : Int} (hn : n < 0)
    (hle : -2 ^ (8 * width - 1) ≤ n)
    (h : ∀ bs, readAfter? first.toNat bs =
      ofNumber? width (fun m ↦ signed (twosComplement (8 * width) m)) bs) :
    Spells (first :: bigEndian width (complement (8 * width) n)) (signed n) := by
  have hlt : complement (8 * width) n < 256 ^ width := by
    rw [show 256 = 2 ^ 8 from rfl, ← Nat.pow_mul]
    exact complement_lt hn
  have hspells := spells_number h hlt
  rwa [twosComplement_complement (by omega) hn hle] at hspells

/-- An integer that fits 64 bits, with or without a sign, is written as its token. -/
theorem spells_writeInteger {n : Int} (hl : -2 ^ 63 ≤ n) (hu : n < 2 ^ 64) :
    Spells (writeInteger n) (ofInteger n) := by
  rw [writeInteger, ofInteger]
  split
  · exact spells_writeUnsigned (by omega)
  · next hn =>
    have hneg : n < 0 := Int.not_le.1 hn
    split
    · next h =>
      have hlt : complement 8 n < 256 := complement_lt hneg
      have hge : 0xE0 ≤ complement 8 n := by
        rw [complement]
        omega
      have hcast : ((complement 8 n : Nat) : Int) - 0x100 = n := by
        rw [complement]
        omega
      refine spells_of_readAfter? hlt fun rest ↦ ?_
      -- only the bounds of the byte and its value are used from here on
      generalize complement 8 n = m at *
      unfold readAfter?
      rw [if_neg (by omega), if_neg (by omega), if_neg (by omega), if_neg (by omega)]
      split <;> first | omega | simp_all
    · split
      · next h => exact spells_complement (by decide) hneg h fun _ ↦ rfl
      · split
        · next h => exact spells_complement (by decide) hneg h fun _ ↦ rfl
        · split
          · next h => exact spells_complement (by decide) hneg h fun _ ↦ rfl
          · exact spells_complement (by decide) hneg hl fun _ ↦ rfl

/-! ### Texts and headers

Lengths and counts are written like numbers, in tables of their own, and the small ones are a part
of the first byte.
-/

/-- A text whose length fits 32 bits is written as its token. -/
theorem spells_writeText {bs : Bytes} (h : bs.length < 2 ^ 32) :
    Spells (writeText bs) (text bs) := by
  unfold writeText
  simp only
  split
  · next hn =>
    intro rest
    rw [bigEndian_one, List.append_assoc]
    show readAfter? (UInt8.ofNat (0xA0 + bs.length)).toNat (bs ++ rest) = _
    rw [UInt8.toNat_ofNat_of_lt' (by simp only [UInt8.size]; omega)]
    unfold readAfter?
    rw [if_neg (by omega), if_neg (by omega), if_neg (by omega), if_pos (by omega),
      Nat.add_sub_cancel_left]
    simp [ofPayload?, take?_append]
  · split
    · next hn => exact spells_counted (fun _ ↦ rfl) hn
    · split
      · next hn => exact spells_counted (fun _ ↦ rfl) hn
      · exact spells_counted (fun _ ↦ rfl) h

theorem spells_writeArray {length : Nat} (h : length < 2 ^ 32) :
    Spells (writeArray length) (array length) := by
  rw [writeArray]
  split
  · next hn =>
    refine spells_of_readAfter? (by omega) fun rest ↦ ?_
    unfold readAfter?
    rw [if_neg (by omega), if_neg (by omega), if_pos (by omega), Nat.add_sub_cancel_left]
  · split
    · next hn => exact spells_number (fun _ ↦ rfl) hn
    · exact spells_number (fun _ ↦ rfl) h

theorem length_writeArray_pos (length : Nat) : 0 < (writeArray length).length := by
  rw [writeArray]
  split
  · simp
  · split <;> simp

theorem length_writeMap_pos (length : Nat) : 0 < (writeMap length).length := by
  rw [writeMap]
  split
  · simp
  · split <;> simp

/-- The header of a map is written as its token if the count fits 32 bits. -/
theorem spells_writeMap {length : Nat} (h : length < 2 ^ 32) :
    Spells (writeMap length) (map length) := by
  rw [writeMap]
  split
  · next hn =>
    refine spells_of_readAfter? (by omega) fun rest ↦ ?_
    unfold readAfter?
    rw [if_neg (by omega), if_pos (by omega), Nat.add_sub_cancel_left]
  · split
    · next hn => exact spells_number (fun _ ↦ rfl) hn
    · exact spells_number (fun _ ↦ rfl) h

/-! ### The other scalars -/

theorem spells_writeNil : Spells writeNil nil :=
  fun _ ↦ rfl

theorem spells_writeBool (b : Bool) : Spells (writeBool b) (bool b) := by
  cases b <;> exact fun _ ↦ rfl

theorem spells_writeDouble (bits : UInt64) : Spells (writeDouble bits) (double bits.toNat) :=
  spells_number (fun _ ↦ rfl) bits.toNat_lt

end Offload.Wire.Token
