import Offload.Proofs.Frame.Prefix
import Offload.Proofs.Wire.Representation

/-!
# Failures in other representations

A body that holds a failure need not be one that is written here: all the representations of a
failure (`Wire.Failure.Form`) are read as the failure, behind any form of the outcome's own map and
key. Arrays of another length, and maps with a field missing or there twice, are not read at all
(`Wire.Failure.Malformed`).

The results are said of a whole body, and so of what a receiver answers. What stands behind the
object of the outcome does not matter, as for every body. The converse is not claimed for all bytes:
some that are neither of these forms nor malformed in this sense are rejected for a value that no
field takes.
-/

namespace Offload.Frame

open Wire (Bytes KeyForm TextForm ValueType)

variable {header key : Bytes}

/-- Behind the map and the key of a failure, what is read is the failure there. -/
theorem readBody_of_keyForm (t : ValueType) (hm : Wire.Token.Form (.map 1) header)
    (hk : KeyForm Wire.Outcome.variantNames 1 key) (bs : Bytes) :
    readBody t.codec (header ++ (key ++ bs)) =
      match (Wire.Failure.codec.read Wire.levelLimit).item bs with
      | some (failure, _) => .ok (.failure failure)
      | none => .error .undecodable := by
  have hitem : ((Wire.Outcome.codec t.codec).read Wire.levelLimit).item (header ++ (key ++ bs)) =
      (Wire.Decoder.filterMap (some ∘ Outcome.failure)
        (Wire.Failure.codec.read Wire.levelLimit)).item bs :=
    Wire.Decoder.item_variant_of_keyForm (by decide) hm hk bs
  rw [readBody, hitem, Wire.Decoder.item_filterMap]
  cases (Wire.Failure.codec.read Wire.levelLimit).item bs <;> rfl

/-- Every representation of a failure is read as the failure, whatever follows it. What goes on as a
failure and has a field missing or there twice, or another number of fields in an array, is not. -/
theorem readBody_failure_forms (t : ValueType) (hm : Wire.Token.Form (.map 1) header)
    (hk : KeyForm Wire.Outcome.variantNames 1 key) :
    (∀ (failure : Failure) (payload rest : Bytes),
      Wire.Failure.Form failure (Wire.levelLimit - 1) payload →
      readBody t.codec (header ++ (key ++ (payload ++ rest))) = .ok (.failure failure)) ∧
    ∀ payload rest : Bytes, Wire.Failure.Malformed payload →
      readBody t.codec (header ++ (key ++ (payload ++ rest))) = .error .undecodable := by
  refine ⟨fun failure payload rest h ↦ ?_, fun payload rest h ↦ ?_⟩
  · have hread : (Wire.Failure.codec.read Wire.levelLimit).item (payload ++ rest) =
        some (failure, rest) := @Wire.Failure.Form.reads failure 1021 payload h rest
    rw [readBody_of_keyForm t hm hk, hread]
  · rw [readBody_of_keyForm t hm hk, Wire.Failure.Malformed.rejects h Wire.levelLimit rest]

/-- A panic without sources as a map of five, with its texts as byte strings or in wider forms and
two other entries in between; and a map that has the kind twice, by its position and by its name. -/
theorem readBody_failure_forms_map :
    let header : Bytes := [0xDE, 0, 1]
    let key : Bytes := [1]
    let payload : Bytes := [0x85] ++ [[2] ++ [0xC4, 1, 0x6D], [0xA1, 0x78] ++ [0x91, 0xC0],
      [0xD9, 4, 0x6B, 0x69, 0x6E, 0x64] ++ [0x81, 1, 0xC0], [9] ++ [0xC0],
      [0xCD, 0, 1] ++ [0xDA, 0, 1, 0x74]].flatten
    let twice : Bytes := [0x82, 0, 1, 0xA4, 0x6B, 0x69, 0x6E, 0x64, 1]
    readBody ValueType.unit.codec (header ++ (key ++ (payload ++ [0xC1]))) =
        .ok (.failure ⟨.panic, "t", "m", []⟩) ∧
      readBody ValueType.unit.codec (header ++ (key ++ (twice ++ [0xC1]))) =
        .error .undecodable := by
  intro header key payload twice
  have hm : Wire.Token.Form (.map 1) header := .map (show (0xDE, 2) ∈ _ by decide) (by decide)
  have hposition : ∀ {names : List String} {i : Nat}, i < names.length → i < 0x80 →
      KeyForm names i (Wire.bigEndian 1 i) := fun hi hs ↦ .position hi (.smallUnsigned hs)
  obtain ⟨hforms, hmalformed⟩ :=
    readBody_failure_forms .unit hm (hposition (show 1 < 2 by decide) (by decide))
  have hkind : Wire.utf8 "kind" = [0x6B, 0x69, 0x6E, 0x64] := by decide
  have hnil : ∀ levels, Wire.Object levels ([0xC0] ++ [].flatten) := fun levels ↦
    .mk .nil (Nat.le_refl levels) rfl nofun
  have hlist : Wire.Object 1022 ([0x91] ++ [[0xC0]].flatten) :=
    .mk (.smallArray (show 1 < 0x10 by decide)) (Nat.le_refl 1022) rfl (by simpa using hnil 1021)
  have htext : ∀ {first : UInt8} {width : Nat} {bs : Bytes},
      (first, width) ∈ Wire.Token.textWidths → bs.length < 256 ^ width →
      TextForm bs (first :: (Wire.bigEndian width bs.length ++ bs)) :=
    fun hfirst hlength ↦ .inl (.text hfirst hlength)
  have hpanic : KeyForm Wire.FailureKind.names (Wire.FailureKind.position .panic) [1] :=
    hposition (by decide) (by decide)
  have hother : TextForm [0x78] [0xA1, 0x78] := .inl (.smallText (by decide))
  have hentries : List.Forall₂ (Wire.Failure.EntryForm ⟨.panic, "t", "m", []⟩ 1022)
      [some 2, none, some 0, none, some 1]
      [[2] ++ [0xC4, 1, 0x6D], [0xA1, 0x78] ++ [0x91, 0xC0],
        [0xD9, 4, 0x6B, 0x69, 0x6E, 0x64] ++ [0x81, 1, 0xC0], [9] ++ [0xC0],
        [0xCD, 0, 1] ++ [0xDA, 0, 1, 0x74]] := by
    refine .cons (.field (hposition (by decide) (by decide)) ?_) (.cons (.other ?_ hlist)
      (.cons (.field (.name rfl ?_) ?_) (.cons (.other ?_ (hnil _)) (.cons (.field ?_ ?_) .nil))))
    · exact .inr (.binary (show (0xC4, 1) ∈ _ by decide) (show 1 < 256 by decide))
    · exact .name (by decide) hother
    · exact hkind ▸ htext (show (0xD9, 1) ∈ _ by decide) (show 4 < 256 by decide)
    · exact .entry (.smallMap (show 1 < 0x10 by decide)) hpanic .nil
    · exact .position (show 4 ≤ 9 by decide) (.smallUnsigned (show 9 < 0x80 by decide))
    · exact .position (show 1 < 4 by decide)
        (.unsigned (show (0xCD, 2) ∈ _ by decide) (show 1 < 256 ^ 2 by decide))
    · exact htext (show (0xDA, 2) ∈ _ by decide) (show 1 < 256 ^ 2 by decide)
  have hpayload : Wire.Failure.Form ⟨.panic, "t", "m", []⟩ 1022 payload := by
    refine .map (.inr ⟨rfl, by decide⟩) ?_ hentries
    exact .smallMap (show 5 < 0x10 by decide)
  have hname : Wire.Token.Form (.text [0x6B, 0x69, 0x6E, 0x64]) [0xA4, 0x6B, 0x69, 0x6E, 0x64] :=
    .smallText (by decide)
  have hzero : Wire.Token.Form (.unsigned 0) [0] := .smallUnsigned (by decide)
  have hone : Wire.Token.Form (.unsigned 1) [1] := .smallUnsigned (by decide)
  have htwice : Wire.Failure.Malformed twice := by
    have hobjects : ∀ entry ∈ [([0], [1]), ([0xA4, 0x6B, 0x69, 0x6E, 0x64], [1])],
        Wire.IsObject entry.1 ∧ Wire.IsObject entry.2 := by
      intro entry hentry
      rcases List.mem_pair.1 hentry with rfl | rfl
      · exact ⟨hzero.isObject_of_children rfl, hone.isObject_of_children rfl⟩
      · exact ⟨hname.isObject_of_children rfl, hone.isObject_of_children rfl⟩
    refine @Wire.Failure.Malformed.repeats _ [0x82] 0 _ _ ?_ hobjects (List.Sublist.refl _)
      (hposition (by decide) (by decide)) (.name rfl (.inl ?_))
    · exact .smallMap (show 2 < 0x10 by decide)
    · exact hkind ▸ hname
  exact ⟨hforms _ payload [0xC1] hpayload, hmalformed twice [0xC1] htwice⟩

end Offload.Frame
