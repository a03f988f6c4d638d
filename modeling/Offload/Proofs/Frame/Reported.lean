import Offload.Proofs.Frame
import Offload.Proofs.Frame.Parse
import Offload.Proofs.Wire.Rejects

/-!
# What is reported of an outcome

A worker sends its outcome or, if that cannot be encoded, a failure that says why: what it *reports*
(`Frame.reported`). Encoding asks whether a value refuses and whether its body fits, and not how
deep it nests. So a value may be encoded and its frame sent that no reader takes: an outcome is read
back from its body just if it can be carried (`carries_iff`), and else nothing is
(`readBody_of_not_carries`).

The two sides do not check the same things, and this module is where that shows. An encoder looks at
what a value says of itself and at the length of its body; a decoder counts levels. Neither is wrong
alone. The difference is the outcomes that are encoded and not carried, and they are characterised
by their depth.
-/

namespace Offload.Frame

open Wire (Bytes Codec ValueType)

/-! ### Reading back -/

section

variable {t : ValueType} {outcome : Outcome t.Value}

/-- The body of a success holds the value behind the name of the variant. -/
theorem readBody_success (value : t.Value) :
    readBody t.codec (body t (.success value)) =
      match (t.codec.read Wire.levelLimit).item (t.codec.write value) with
      | some (value, _) => .ok (.success value)
      | none => .error .undecodable := by
  rw [readBody, body, Wire.Outcome.item_success]
  cases (t.codec.read Wire.levelLimit).item (t.codec.write value) <;> rfl

/-- The body of a success is nine bytes longer than its value. -/
theorem length_body_success (value : t.Value) :
    (body t (.success value)).length = 9 + (t.codec.write value).length := by
  have hmap : (Wire.Token.writeMap 1).length = 1 := rfl
  have hname : (Wire.Codec.writeName "Success").length = 8 := by decide
  simp only [body, Wire.Outcome.codec, Wire.Outcome.write, Wire.Codec.writeVariant,
    List.length_append, hmap, hname]
  omega

/-- A line of brackets takes a byte for each of them. -/
theorem length_body_line (n : Nat) :
    (body .nest (.success (Wire.Nest.line n))).length = n + 10 := by
  have hbody : (body .nest (.success (Wire.Nest.line n))).length =
      9 + (Wire.Nest.line n).write.length :=
    @length_body_success .nest (Wire.Nest.line n)
  rw [hbody, Wire.Nest.length_write_line]
  omega

/-- Of the body of an error, seventeen bytes are neither its type nor its message. -/
theorem length_body_ofError (typeName message : String) :
    (body t (.failure (.ofError typeName message))).length =
      17 + (Wire.Codec.textSize typeName.utf8ByteSize +
        Wire.Codec.textSize message.utf8ByteSize) := by
  have hvariant : (Wire.Codec.writeVariant "Failure" []).length = 9 := by decide
  have hsize : Wire.Failure.size (.ofError typeName message) =
      1 + (6 + (Wire.Codec.textSize typeName.utf8ByteSize +
        (Wire.Codec.textSize message.utf8ByteSize + 1))) := rfl
  rw [body, ← Wire.Codec.size_eq]
  show (Wire.Codec.writeVariant "Failure" []).length + Wire.Failure.size _ = _
  rw [hvariant, hsize]
  omega

/-- A value whose body fits a frame is short enough for every length prefix. -/
theorem length_write_lt {value : t.Value} (h : (body t (.success value)).length ≤ limit) :
    (t.codec.write value).length < 2 ^ 32 := by
  rw [length_body_success] at h
  exact Nat.lt_of_le_of_lt (Nat.le_of_add_left_le h) (by decide)

/-- A failure can be carried if its body fits. -/
theorem carries_failure {failure : Failure} (h : (body t (.failure failure)).length ≤ limit) :
    Carries t (.failure failure) :=
  ⟨h, nofun, nofun⟩

/-- An outcome can be carried if its body fits and is read back. -/
theorem carries_iff :
    Carries t outcome ↔
      (body t outcome).length ≤ limit ∧ readBody t.codec (body t outcome) = .ok outcome := by
  refine ⟨fun h ↦ ⟨h.fits, readBody_body h⟩, fun ⟨hfits, hread⟩ ↦ ?_⟩
  cases outcome with
  | failure failure => exact carries_failure hfits
  | success value =>
    have hsize := length_write_lt hfits
    rw [readBody_success] at hread
    split at hread
    · next value' rest hitem =>
      cases hread
      rw [← List.append_nil (t.codec.write value)] at hitem
      obtain ⟨htravels, hnests⟩ := Wire.ValueType.travels_of_item (by decide) hsize hitem
      refine ⟨hfits, fun v hv ↦ ?_, fun v hv ↦ ?_⟩
      · cases hv
        exact hnests
      · cases hv
        exact htravels
    · cases hread

/-- Of an outcome that is encoded and cannot be carried, nothing is read. -/
theorem readBody_of_not_carries (hfits : (body t outcome).length ≤ limit)
    (hrefusal : (Wire.Outcome.codec t.codec).refusal? outcome = none)
    (hproper : ∀ value, outcome = .success value → t.Proper value) (h : ¬ Carries t outcome) :
    readBody t.codec (body t outcome) = .error .undecodable := by
  cases outcome with
  | failure failure => exact absurd (carries_failure hfits) h
  | success value =>
    have hsize := length_write_lt hfits
    rw [readBody_success, ← List.append_nil (t.codec.write value)]
    rcases Wire.ValueType.reads_or_rejects (show 1 ≤ Wire.levelLimit by decide) hsize
      (hproper value rfl) hrefusal with hreads | hrejects
    · refine absurd (carries_iff.2 ⟨hfits, ?_⟩) h
      rw [readBody_success, ← List.append_nil (t.codec.write value), hreads]
    · rw [hrejects]

end

/-! ### Reporting -/

/-- The outcome itself if it can be encoded, and else the failure that says why it cannot. -/
def reported {α : Type} (c : Codec α) (outcome : Outcome α) : Outcome α :=
  match encode c outcome with
  | .ok _ => outcome
  | .error fault => .failure (.standIn fault.reason)

/-- What stands in for an outcome is encoded in its place. -/
theorem encodeOrStandIn_eq {α : Type} (c : Codec α) (outcome : Outcome α) :
    encodeOrStandIn c outcome = encode c (reported c outcome) := by
  rw [encodeOrStandIn, reported]
  cases hencode : encode c outcome with
  | ok frame => exact hencode.symm
  | error fault => rfl

/-- A success is reported of itself only. -/
theorem eq_of_reported {α : Type} {c : Codec α} {outcome : Outcome α} {value : α}
    (h : reported c outcome = .success value) : outcome = .success value := by
  rw [reported] at h
  split at h
  · exact h
  · cases h

/-- Of a failure that is too long for a frame, its length is reported. -/
theorem reported_of_not_fits {t : ValueType} {failure : Failure}
    (h : limit < (body t (.failure failure)).length) :
    reported t.codec (.failure failure) =
      .failure (.standIn (Fault.oversized (body t (.failure failure)).length).reason) := by
  have hencode : encode t.codec (.failure failure) =
      .error (.oversized (body t (.failure failure)).length) := by
    rw [body, ← Wire.Codec.size_eq] at h ⊢
    exact if_pos h
  rw [reported, hencode]

/-- An outcome that can be carried is reported as it is. -/
theorem reported_of_carries {t : ValueType} {outcome : Outcome t.Value} (h : Carries t outcome) :
    reported t.codec outcome = outcome := by
  rw [reported, encode_eq h]

end Offload.Frame
