import Offload.Proofs.Frame.Reported
import Offload.Proofs.Wire.Delimited

/-!
# Bodies end where their outcome ends

An outcome is read from the object at the front of a body, and what stands behind that object is
not looked at. So among the prefixes of a body those from some length on are read, all of them as
the same outcome, and the shorter ones are not (`readBody_take_eq`). The body of a frame is one
object itself, so no part of it is read (`readBody_of_prefix_of_encode`).

That a prefix is long enough is not a matter of its bytes but of the object in front: an object is
read from all its bytes or not at all (`Wire.Decoder.Exact`). So there is one length for each body
at which reading begins to succeed, and nothing between.
-/

namespace Offload.Frame

open Wire (Bytes Codec IsObject ValueType)

variable {t : ValueType} {outcome : Outcome t.Value} {bs object : Bytes}

/-! ### The object at the front -/

/-- An outcome is read off the front, and whether it is depends on no byte behind it. -/
theorem exact_outcome (t : ValueType) :
    Wire.Decoder.Exact ((Wire.Outcome.codec t.codec).read Wire.levelLimit) :=
  Wire.Outcome.exact_read t.exact_read Wire.levelLimit

/-- A body is read as an outcome if it starts with an object that is read as one. -/
theorem readBody_eq_ok_iff {α : Type} {c : Codec α} {outcome : Outcome α} :
    readBody c bs = .ok outcome ↔
      ∃ rest, ((Wire.Outcome.codec c).read Wire.levelLimit).item bs = some (outcome, rest) := by
  rw [readBody]
  cases ((Wire.Outcome.codec c).read Wire.levelLimit).item bs with
  | none => simp
  | some r => simp [Prod.ext_iff]

/-- There is one error for all bodies that are not read. -/
theorem readBody_eq_error_of_ne_ok {α : Type} {c : Codec α}
    (h : ∀ outcome, readBody c bs ≠ .ok outcome) : readBody c bs = .error .undecodable := by
  rw [readBody] at h ⊢
  cases hitem : ((Wire.Outcome.codec c).read Wire.levelLimit).item bs with
  | none => rfl
  | some r =>
    rw [hitem] at h
    exact absurd rfl (h r.1)

/-- An outcome is read from the object at the front of the bytes, whatever follows it. -/
theorem exists_object_of_readBody (h : readBody t.codec bs = .ok outcome) :
    ∃ object rest, IsObject object ∧ bs = object ++ rest ∧
      ∀ more, readBody t.codec (object ++ more) = .ok outcome := by
  obtain ⟨rest, hitem⟩ := readBody_eq_ok_iff.1 h
  obtain ⟨objects, hlength, hobjects, rfl, hall⟩ := (exact_outcome t).item hitem
  obtain ⟨object, rfl⟩ := List.length_eq_one_iff.1 hlength
  rw [List.flatten_singleton] at hall ⊢
  exact ⟨object, rest, hobjects object List.mem_cons_self, rfl,
    fun more ↦ readBody_eq_ok_iff.2 ⟨more, hall more⟩⟩

/-- What breaks off inside an object is not read. -/
theorem readBody_of_prefix_of_isObject (ho : IsObject object) (hbs : bs <+: object)
    (hne : bs ≠ object) : readBody t.codec bs = .error .undecodable := by
  refine readBody_eq_error_of_ne_ok fun outcome h ↦ hne ?_
  obtain ⟨own, rest, hown, rfl, -⟩ := exists_object_of_readBody h
  obtain ⟨behind, hbehind⟩ := hbs
  -- an object that begins the other one is the other one
  have heq : own = object := hown.eq_of_append_eq (r := rest ++ behind) (s := []) ho <| by
    rw [← List.append_assoc, hbehind, List.append_nil]
  rw [heq, List.append_assoc, List.append_right_eq_self] at hbehind
  rw [heq, (List.append_eq_nil_iff.1 hbehind).1, List.append_nil]

/-! ### The prefixes of a body -/

/-- Of the prefixes of bytes that are read, those that hold the object are read, and as the same. -/
theorem readBody_take_eq (h : readBody t.codec bs = .ok outcome) :
    ∃ length ≤ bs.length, ∀ m, readBody t.codec (bs.take m) =
      if length ≤ m then .ok outcome else .error .undecodable := by
  obtain ⟨object, rest, hobject, rfl, hall⟩ := exists_object_of_readBody h
  refine ⟨object.length, by simp, fun m ↦ ?_⟩
  split
  · next hm => rw [List.take_append, List.take_of_length_le hm, hall]
  · next hm =>
    have hlt : m < object.length := Nat.lt_of_not_le hm
    rw [List.take_append_of_le_length (Nat.le_of_lt hlt)]
    refine readBody_of_prefix_of_isObject hobject (List.take_prefix m object) fun heq ↦ ?_
    have hlength := congrArg List.length heq
    rw [List.length_take] at hlength
    omega

/-! ### The bodies of frames -/

/-- The body of an outcome that is encoded is one object, whether it is read back or not. -/
theorem isObject_body (hfits : (body t outcome).length ≤ limit)
    (hr : (Wire.Outcome.codec t.codec).refusal? outcome = none) : IsObject (body t outcome) := by
  cases outcome with
  | failure failure => exact (exact_outcome t).isObject (restores (carries_failure hfits))
  | success value =>
    have hmap := Wire.Token.spells_iff.1 (Wire.Token.spells_writeMap (show 1 < 2 ^ 32 by decide))
    have hname : IsObject (Wire.Codec.writeName "Success") :=
      Wire.Codec.isObject_text (show (Wire.Codec.text.write "Success").length < 2 ^ 32 by decide)
    have hvalue : IsObject (t.codec.write value) :=
      ValueType.isObject_write hr (length_write_lt hfits)
    have hobject : IsObject (Wire.Token.writeMap 1 ++
        [Wire.Codec.writeName "Success", t.codec.write value].flatten) :=
      hmap.isObject rfl (by simp [hname, hvalue])
    rwa [List.flatten_cons, List.flatten_singleton] at hobject

/-- No part of the body of a frame is read. -/
theorem readBody_of_prefix_of_encode {frame : Bytes} (h : encode t.codec outcome = .ok frame)
    (hbs : bs <+: frame.drop prefixLength) (hne : bs ≠ frame.drop prefixLength) :
    readBody t.codec bs = .error .undecodable := by
  obtain ⟨hr, hfits, rfl⟩ := encode_eq_ok_iff.1 h
  rw [List.drop_left' (Wire.length_bigEndian _ _)] at hbs hne
  exact readBody_of_prefix_of_isObject (isObject_body hfits hr) hbs hne

/-- The lengths up to which bytes are read are upward closed, and all of them give one outcome.
Bytes that are read as an outcome are so whatever follows them, and none of their prefixes is read
as another one. No proper prefix of the body of a frame is read at the type of its outcome. -/
theorem readBody_self_delimiting (t : ValueType) :
    (∀ (bs : Bytes) (m n : Nat) (outcome : Outcome t.Value), m ≤ n →
      readBody t.codec (bs.take m) = .ok outcome → readBody t.codec (bs.take n) = .ok outcome) ∧
    (∀ (bs : Bytes) (outcome : Outcome t.Value), readBody t.codec bs = .ok outcome →
      (∀ more, readBody t.codec (bs ++ more) = .ok outcome) ∧
      (∀ start outcome', start <+: bs → readBody t.codec start = .ok outcome' →
        outcome' = outcome) ∧
      ∃ length ≤ bs.length, ∀ m, readBody t.codec (bs.take m) =
        if length ≤ m then .ok outcome else .error .undecodable) ∧
    ∀ (outcome : Outcome t.Value) (frame start : Bytes), encode t.codec outcome = .ok frame →
      start <+: frame.drop prefixLength → start ≠ frame.drop prefixLength →
      readBody t.codec start = .error .undecodable := by
  have happend : ∀ (bs more : Bytes) (outcome : Outcome t.Value),
      readBody t.codec bs = .ok outcome → readBody t.codec (bs ++ more) = .ok outcome := by
    intro bs more outcome h
    obtain ⟨object, rest, -, rfl, hall⟩ := exists_object_of_readBody h
    rw [List.append_assoc, hall]
  refine ⟨fun bs m n outcome hle h ↦ ?_, fun bs outcome h ↦
      ⟨fun more ↦ happend bs more outcome h, fun start outcome' hstart h' ↦ ?_, readBody_take_eq h⟩,
    fun outcome frame start ↦ readBody_of_prefix_of_encode⟩
  · obtain ⟨more, hmore⟩ := List.take_prefix_take_left hle (l := bs)
    rw [← hmore]
    exact happend _ more outcome h
  · obtain ⟨more, rfl⟩ := hstart
    exact Except.ok.inj ((happend start more outcome' h').symm.trans h)

/-- A success by its position, with a byte behind it. -/
theorem readBody_self_delimiting_bool :
    let bs : Bytes := [0x81, 0x00, 0xC3, 0x01]
    readBody ValueType.bool.codec (bs.take 3) = .ok (.success true) ∧
      readBody ValueType.bool.codec (bs.take 4) = .ok (.success true) ∧
      readBody ValueType.bool.codec (bs ++ [0xC1]) = .ok (.success true) ∧
      ∃ frame, encode ValueType.bool.codec (.success true) = .ok frame ∧
        readBody ValueType.bool.codec ((frame.drop prefixLength).take 9) =
          .error .undecodable := by
  intro bs
  have hthree : readBody ValueType.bool.codec (bs.take 3) = .ok (.success true) := by rfl
  obtain ⟨hmono, hmore, hframe⟩ := readBody_self_delimiting .bool
  have hfour := hmono bs 3 4 _ (by decide) hthree
  refine ⟨hthree, hfour, (hmore bs _ hfour).1 [0xC1], _, rfl, ?_⟩
  exact hframe (.success true) _ _ rfl (List.take_prefix _ _) (by decide)

end Offload.Frame
