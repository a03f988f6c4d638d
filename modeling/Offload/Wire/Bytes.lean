import Offload.Power

/-!
# Bytes

Byte strings are lists, so that a decoder is a function from a list to a value and the rest of the
list. This module holds what all readers share: splitting off a counted prefix, numbers in
big-endian order, and UTF-8.
-/

namespace Offload.Wire

/-- A byte string. -/
abbrev Bytes := List UInt8

/-- The first `n` bytes and the rest, if there are `n`. -/
def take? (n : Nat) (bs : Bytes) : Option (Bytes × Bytes) :=
  let first := bs.take n
  if first.length = n then some (first, bs.drop n) else none

/-- The number that the bytes spell, most significant byte first. -/
def ofBigEndian (bs : Bytes) : Nat :=
  bs.foldl (fun n b => n * 256 + b.toNat) 0

/-- The lowest `width` bytes of a number, most significant byte first. -/
def bigEndian : (width : Nat) → Nat → Bytes
  | 0, _ => []
  | width + 1, n => UInt8.ofNat (n / 256 ^ width) :: bigEndian width n

/-- A number of `width` bytes. -/
def number? (width : Nat) (bs : Bytes) : Option (Nat × Bytes) :=
  (take? width bs).map fun (digits, rest) => (ofBigEndian digits, rest)

/-- The two's complement reading of a number of `bits` bits. -/
def twosComplement (bits n : Nat) : Int :=
  if n < 2 ^ (bits - 1) then n else (n : Int) - 2 ^ bits

/-- The UTF-8 bytes of a text. -/
def utf8 (s : String) : Bytes :=
  s.toByteArray.data.toList

/-- The text that the bytes spell, if they are well-formed UTF-8. -/
def ofUtf8? (bs : Bytes) : Option String :=
  String.fromUTF8? ⟨bs.toArray⟩

/-! ### Splitting and joining -/

theorem take?_append (p r : Bytes) : take? p.length (p ++ r) = some (p, r) := by
  simp [take?]

theorem eq_append_of_take? {n : Nat} {bs p r : Bytes} (h : take? n bs = some (p, r)) :
    bs = p ++ r ∧ p.length = n := by
  simp only [take?] at h
  split at h
  · next hn =>
    simp only [Option.some.injEq, Prod.mk.injEq] at h
    obtain ⟨rfl, rfl⟩ := h
    exact ⟨(List.take_append_drop n bs).symm, hn⟩
  · simp at h

@[simp] theorem length_bigEndian (width n : Nat) : (bigEndian width n).length = width := by
  induction width generalizing n with
  | zero => rfl
  | succ width ih => simp [bigEndian, ih]

theorem ofBigEndian_append (p q : Bytes) :
    ofBigEndian (p ++ q) = ofBigEndian p * 256 ^ q.length + ofBigEndian q := by
  have shift : ∀ (bs : Bytes) (n : Nat),
      bs.foldl (fun n b => n * 256 + b.toNat) n = n * 256 ^ bs.length + ofBigEndian bs := by
    intro bs
    induction bs with
    | nil => intro n; simp [ofBigEndian]
    | cons b bs ih =>
      intro n
      simp only [ofBigEndian, List.foldl_cons, List.length_cons, Nat.pow_succ]
      rw [ih, ih (0 * 256 + b.toNat)]
      simp only [Nat.zero_mul, Nat.zero_add, Nat.add_mul, Nat.add_assoc, Nat.mul_assoc,
        Nat.mul_comm 256]
  rw [ofBigEndian, List.foldl_append, shift]
  rfl

theorem ofBigEndian_bigEndian {width n : Nat} (h : n < 256 ^ width) :
    ofBigEndian (bigEndian width n) = n := by
  induction width generalizing n with
  | zero => simp at h; simp [h, bigEndian, ofBigEndian]
  | succ width ih =>
    have hmod : ∀ m,
        ofBigEndian (bigEndian width m) = ofBigEndian (bigEndian width (m % 256 ^ width)) := by
      intro m
      congr 1
      clear ih h n
      suffices H : ∀ w, w ≤ width → bigEndian w m = bigEndian w (m % 256 ^ width) from
        H width (Nat.le_refl _)
      intro w
      induction w with
      | zero => intro _; rfl
      | succ w ih =>
        intro hw
        simp only [bigEndian, ih (Nat.le_of_succ_le hw), List.cons.injEq, and_true]
        apply UInt8.toNat_inj.1
        simp only [UInt8.toNat_ofNat']
        have hsplit : 256 ^ width = 256 ^ w * 256 * 256 ^ (width - w - 1) := by
          rw [← Nat.pow_succ, ← Nat.pow_add]
          congr 1
          omega
        rw [hsplit, Nat.mul_assoc, Nat.mod_mul_right_div_self, Nat.mod_mul_right_mod]
    rw [show bigEndian (width + 1) n =
        [UInt8.ofNat (n / 256 ^ width)] ++ bigEndian width n from rfl,
      ofBigEndian_append, hmod n, ih (Nat.mod_lt _ (Nat.pow_pos (by decide))), length_bigEndian]
    have hq : n / 256 ^ width < 256 := by
      rw [Nat.div_lt_iff_lt_mul (Nat.pow_pos (by decide)), Nat.mul_comm]
      rwa [Nat.pow_succ] at h
    simp only [ofBigEndian, List.foldl_cons, List.foldl_nil, Nat.zero_mul, Nat.zero_add,
      UInt8.toNat_ofNat', Nat.mod_eq_of_lt hq]
    rw [Nat.mul_comm]
    exact Nat.div_add_mod n (256 ^ width)

theorem number?_bigEndian_append {width n : Nat} (h : n < 256 ^ width) (r : Bytes) :
    number? width (bigEndian width n ++ r) = some (n, r) := by
  have := take?_append (bigEndian width n) r
  rw [length_bigEndian] at this
  simp [number?, this, ofBigEndian_bigEndian h]

theorem ofUtf8?_utf8 (s : String) : ofUtf8? (utf8 s) = some s := by
  have hs : (⟨(utf8 s).toArray⟩ : ByteArray) = s.toByteArray := by
    simp [utf8]
  simp [ofUtf8?, hs, String.fromUTF8?, s.isValidUTF8, String.fromUTF8]

@[simp] theorem length_utf8 (s : String) : (utf8 s).length = s.utf8ByteSize := by
  simp only [utf8, Array.length_toList]
  rfl

theorem utf8_of_ofUtf8? {bs : Bytes} {s : String} (h : ofUtf8? bs = some s) : utf8 s = bs := by
  simp only [ofUtf8?, String.fromUTF8?] at h
  split at h
  · simp only [Option.some.injEq] at h
    subst h
    simp [utf8, String.fromUTF8]
  · simp at h

end Offload.Wire
