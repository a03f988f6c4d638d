import Offload.Proofs.Frame.Prefix
import Offload.Proofs.Wire.Levels

/-!
# Sending on what was received

Reading is tolerant, so an outcome may have been read from bytes that are not its body. It is
encoded all the same if its body fits, and its body is read as the outcome again, unless the value
nests one level deeper than what it was read from (`encode_of_readBody`). Only a nest and a record
can do that, by a byte string without bytes for their innermost sequence, where all levels are
closed; such a body is encoded as well, and is not read any more (`unread_of_empty_octets`).

There are three bounds that a value has to keep: on the length of its body, on how deep it nests,
and on what a self-describing value may hold. Having been read gives the last two but for one level
(`nesting_le_of_readBody`), and nothing about the first, since a representation may be shorter than
what is written here. So the length stays a hypothesis.
-/

namespace Offload.Frame

open Wire (Bytes Codec Nest ValueType)

variable {t : ValueType} {outcome : Outcome t.Value} {bs : Bytes}

/-- What was read nests at most one level deeper than a body may. -/
theorem nesting_le_of_readBody (ht : t ≠ .dynamic) {value : t.Value}
    (h : readBody t.codec bs = .ok (.success value)) :
    t.nesting value ≤ Wire.levelLimit + 1 := by
  obtain ⟨rest, hitem⟩ := readBody_eq_ok_iff.1 h
  obtain ⟨token, bs', hread⟩ := Wire.Decoder.eq_some_of_item hitem
  obtain ⟨token', bs'', hvalue⟩ := Wire.Outcome.eq_some_of_read_success hread
  exact ValueType.nesting_le_of_read ht hvalue

/-- Values of a type that is known travel. -/
theorem travels_of_ne_dynamic (ht : t ≠ .dynamic) (value : t.Value) : t.Travels value := by
  cases t with
  | dynamic => exact absurd rfl ht
  | _ => trivial

/-- An outcome of a type that is known does not refuse to be written. -/
theorem refusal?_of_ne_dynamic (ht : t ≠ .dynamic) :
    (Wire.Outcome.codec t.codec).refusal? outcome = none := by
  cases outcome with
  | success value => exact ValueType.refusal?_eq_none (travels_of_ne_dynamic ht value)
  | failure => rfl

/-- Nests and records are the types of values that nest without bound. -/
theorem eq_nest_or_record_of_lt_nesting (ht : t ≠ .dynamic) {value : t.Value}
    (h : Wire.levelLimit < t.nesting value) : t = .nest ∨ t = .record := by
  have hle : ∀ {n : Nat}, n ≤ 1 → ¬ Wire.levelLimit < n := fun hn ↦
    Nat.not_lt_of_le (Nat.le_trans hn (by decide))
  cases t with
  | nest => exact .inl rfl
  | record => exact .inr rfl
  | dynamic => exact absurd rfl ht
  | shape => exact absurd h (hle (Wire.Shape.nesting_le_one value))
  | octets | pair | numbers | texts | table => exact absurd h (hle (Nat.le_refl 1))
  | _ => exact absurd h (hle (Nat.zero_le 1))

/-- Of the body of a value that nests too deep, nothing is read. -/
theorem readBody_of_lt_nesting (ht : t ≠ .dynamic) {value : t.Value}
    (hfits : (body t (.success value)).length ≤ limit) (h : Wire.levelLimit < t.nesting value) :
    readBody t.codec (body t (.success value)) = .error .undecodable := by
  refine readBody_of_not_carries hfits (refusal?_of_ne_dynamic ht) (fun v _ ↦ ?_) fun hc ↦
    absurd (hc.nests value rfl) (Nat.not_le_of_lt h)
  cases t with
  | dynamic => exact absurd rfl ht
  | _ => trivial

/-- An outcome that was read, from whatever bytes, is encoded if its body fits. The body is read as
the outcome again just if the value nests no deeper than a body may; that fails only for a nest or
a record that is one level deeper, of which nothing is read. -/
theorem encode_of_readBody (ht : t ≠ .dynamic) (h : readBody t.codec bs = .ok outcome)
    (hfits : (body t outcome).length ≤ limit) :
    encode t.codec outcome =
        .ok (Wire.bigEndian prefixLength (body t outcome).length ++ body t outcome) ∧
      (readBody t.codec (body t outcome) = .ok outcome ↔
        ∀ value, outcome = .success value → t.nesting value ≤ Wire.levelLimit) ∧
      (readBody t.codec (body t outcome) = .ok outcome ∨
        (t = .nest ∨ t = .record) ∧
          ∃ value, outcome = .success value ∧ t.nesting value = Wire.levelLimit + 1 ∧
            readBody t.codec (body t outcome) = .error .undecodable) := by
  have hiff : readBody t.codec (body t outcome) = .ok outcome ↔
      ∀ value, outcome = .success value → t.nesting value ≤ Wire.levelLimit := by
    refine ⟨fun hread ↦ (carries_iff.2 ⟨hfits, hread⟩).nests, fun hnests ↦ ?_⟩
    exact readBody_body ⟨hfits, hnests, fun value _ ↦ travels_of_ne_dynamic ht value⟩
  refine ⟨encode_eq_ok_iff.2 ⟨refusal?_of_ne_dynamic ht, hfits, rfl⟩, hiff, ?_⟩
  by_cases hread : readBody t.codec (body t outcome) = .ok outcome
  · exact .inl hread
  · obtain ⟨value, rfl, hlt⟩ :
        ∃ value, outcome = .success value ∧ Wire.levelLimit < t.nesting value := by
      simpa only [hiff, not_forall, Nat.not_le, exists_prop] using hread
    refine .inr ⟨eq_nest_or_record_of_lt_nesting ht hlt, value, rfl, ?_, ?_⟩
    · exact Nat.le_antisymm (nesting_le_of_readBody ht h) hlt
    · exact readBody_of_lt_nesting ht hfits hlt

/-- Numbers that are read from a byte string, behind the position of the variant. -/
theorem encode_of_readBody_octets :
    let bs : Bytes := [0x81, 0x00, 0xC4, 0x02, 0x05, 0xC8]
    let value : ValueType.octets.Value := [5, 200]
    readBody ValueType.octets.codec bs = .ok (.success value) ∧
      readBody ValueType.octets.codec (body .octets (.success value)) = .ok (.success value) := by
  intro bs value
  have h : readBody ValueType.octets.codec bs = .ok (.success value) := by rfl
  obtain ⟨-, hiff, -⟩ := encode_of_readBody (by decide) h (by decide)
  exact ⟨h, hiff.2 fun v _ ↦ (show 1 ≤ Wire.levelLimit by decide)⟩

/-- A line of nests as deep as a body may be, around a byte string without bytes: its nest is
encoded, and not read again. -/
theorem unread_of_empty_octets :
    let bs := Codec.writeVariant "Success" (List.replicate 1023 0x91 ++ [0xC4, 0x00])
    let outcome : Outcome ValueType.nest.Value := .success (Nest.line 1023)
    readBody ValueType.nest.codec bs = .ok outcome ∧
      (body .nest outcome).length = 1033 ∧
      encode ValueType.nest.codec outcome =
        .ok (Wire.bigEndian prefixLength 1033 ++ body .nest outcome) ∧
      readBody ValueType.nest.codec (body .nest outcome) = .error .undecodable := by
  intro bs outcome
  have hpayload : (Wire.Outcome.readPayload ValueType.nest.codec Wire.levelLimit 0).Reads
      (List.replicate 1023 0x91 ++ [0xC4, 0x00]) outcome :=
    Wire.Decoder.Reads.map (f := some ∘ Outcome.success) (Nest.reads_line 1023) rfl
  have hreads : ((Wire.Outcome.codec ValueType.nest.codec).read Wire.levelLimit).Reads bs outcome :=
    Codec.reads_writeVariant (by decide) (by decide) hpayload
  have hread : readBody ValueType.nest.codec bs = .ok outcome := by
    have hitem := hreads []
    rw [List.append_nil] at hitem
    exact readBody_eq_ok_iff.2 ⟨[], hitem⟩
  have hlength : (body .nest outcome).length = 1033 := length_body_line 1023
  have hfits : (body .nest outcome).length ≤ limit := by
    rw [hlength]
    decide
  have hheight : Wire.levelLimit < ValueType.nest.nesting (Nest.line 1023) :=
    Nat.lt_of_lt_of_eq (Nat.lt_succ_self _) (Nest.height_line 1023).symm
  refine ⟨hread, hlength, ?_, readBody_of_lt_nesting (by decide) hfits hheight⟩
  rw [← hlength]
  exact encode_eq_ok_iff.2 ⟨refusal?_of_ne_dynamic (by decide), hfits, rfl⟩

end Offload.Frame
