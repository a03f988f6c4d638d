import Offload.Frame
import Offload.Proofs.Source
import Offload.Proofs.Wire.Type

/-!
# Frames of a stream

The frames of outcomes that can be carried are read back one after the other, from any source that
delivers them one behind the other, and each read leaves the source at the byte behind its frame
(`read_of_delivers`). So it is for any number of frames, and whatever follows the last
(`readTimes_of_encode`).

An outcome can be carried (`Carries`) if its body keeps to the limit of a frame, its value nests no
deeper than a body may, and the value is one that travels.

What a reader gets is described by the bytes that the source delivers, and not by the reads that it
makes. Two facts about one frame carry everything: the length in front tells how many bytes belong
to the body, so the read ends at the right place, and the body alone decides what is read. The first
is about words in the order of their bytes, the second about the codec of an outcome.
-/

namespace Offload.Frame

open Source (Delivers)
open Wire (Bytes ValueType)

variable {t : ValueType} {outcome : Outcome t.Value} {source after : Source}

/-- The body of the frame of an outcome. -/
def body (t : ValueType) (outcome : Outcome t.Value) : Bytes :=
  (Wire.Outcome.codec t.codec).write outcome

/-- An outcome that a frame can carry. -/
structure Carries (t : ValueType) (outcome : Outcome t.Value) : Prop where
  fits : (body t outcome).length ≤ limit
  nests : ∀ value, outcome = .success value → t.nesting value ≤ Wire.levelLimit
  travels : ∀ value, outcome = .success value → t.Travels value

/-- The frame of an outcome that can be carried. -/
def frame (t : ValueType) (outcome : Outcome t.Value) : Bytes :=
  Wire.bigEndian prefixLength (body t outcome).length ++ body t outcome

/-! ### One frame -/

/-- An outcome that can be carried is read back from what its codec writes. -/
theorem restores (h : Carries t outcome) :
    (Wire.Outcome.codec t.codec).Restores Wire.levelLimit outcome := by
  have hsize : (body t outcome).length < 2 ^ 32 := Nat.lt_of_le_of_lt h.fits (by decide)
  cases outcome with
  | success value =>
    refine Wire.Outcome.restores_success (ValueType.restores (h.travels value rfl)
      (h.nests value rfl) ?_)
    have hle : (t.codec.write value).length ≤ (body t (.success value)).length := by
      simp only [body, Wire.Outcome.codec, Wire.Outcome.write, Wire.Codec.writeVariant,
        List.length_append]
      omega
    omega
  | failure f =>
    refine Wire.Outcome.restores_failure (Wire.Failure.restores f (by decide) ?_)
    have hle : (Wire.Failure.write f).length ≤ (body t (.failure f)).length := by
      simp only [body, Wire.Outcome.codec, Wire.Outcome.write, Wire.Failure.codec,
        Wire.Codec.writeVariant, List.length_append]
      omega
    omega

theorem encode_eq (h : Carries t outcome) : encode t.codec outcome = .ok (frame t outcome) := by
  have hrefusal : (Wire.Outcome.codec t.codec).refusal? outcome = none := by
    cases outcome with
    | success value => exact ValueType.refusal?_eq_none (h.travels value rfl)
    | failure f => rfl
  have hsize := (Wire.Outcome.codec t.codec).size_eq outcome
  have hfits : ¬ limit < (Wire.Outcome.codec t.codec).size outcome := by
    rw [hsize]
    exact Nat.not_lt_of_le h.fits
  simp only [encode, hrefusal]
  rw [if_neg hfits, hsize]
  rfl

theorem readBody_body (h : Carries t outcome) :
    readBody t.codec (body t outcome) = .ok outcome := by
  have hread := restores h []
  rw [List.append_nil] at hread
  rw [readBody]
  rw [body, hread]

/-- Where a body is all there is, it is read as the outcome as well. -/
theorem ofBody_body (h : Carries t outcome) :
    ofBody t.codec (body t outcome) = .ok (some outcome) := by
  rw [ofBody, readBody_body h]

/-- The four bytes before a body are its length. -/
theorem ofBigEndian_length (h : Carries t outcome) :
    Wire.ofBigEndian (Wire.bigEndian prefixLength (body t outcome).length) =
      (body t outcome).length :=
  Wire.ofBigEndian_bigEndian (Nat.lt_of_le_of_lt h.fits (by decide))

/-- One read takes one frame off a source, whatever stands behind it. -/
theorem read_of_delivers (h : Carries t outcome) {rest : Bytes}
    (hs : Delivers source (frame t outcome ++ rest) after) :
    ∃ source', read t.codec source = (.ok (some outcome), source') ∧
      Delivers source' rest after := by
  rw [frame, List.append_assoc] at hs
  -- a frame is read in two fills, of the prefix and of as many bytes as it says
  obtain ⟨source₁, hprefix, hs₁⟩ := Source.fill_of_delivers hs
  obtain ⟨source₂, hbody, hs₂⟩ := Source.fill_of_delivers hs₁
  rw [Wire.length_bigEndian] at hprefix
  refine ⟨source₂, ?_, hs₂⟩
  simp only [read, hprefix, ofBigEndian_length h]
  rw [if_neg (Nat.not_lt_of_le h.fits), hbody]
  simp only [ofBody_body h]

/-- At the end of a stream there is no frame. -/
theorem read_of_delivers_nil (hs : Delivers source [] []) :
    read t.codec source = (.ok none, []) := by
  simp only [read, Source.fill_of_delivers_nil hs (show prefixLength ≠ 0 by decide)]

/-! ### Any number of frames -/

variable {outcomes : List (Outcome t.Value)}

theorem mapM_encode (h : ∀ outcome ∈ outcomes, Carries t outcome) :
    outcomes.mapM (encode t.codec) = .ok (outcomes.map (frame t)) := by
  induction outcomes with
  | nil => rfl
  | cons outcome outcomes ih =>
    rw [List.mapM_cons, encode_eq (h outcome List.mem_cons_self),
      ih fun o ho ↦ h o (List.mem_cons_of_mem _ ho)]
    rfl

/-- Reads in turn take one frame each, and stop in front of the tail. -/
theorem readTimes_of_delivers (h : ∀ outcome ∈ outcomes, Carries t outcome) {tail : Bytes}
    (hs : Delivers source ((outcomes.map (frame t)).flatten ++ tail) after) :
    ∃ source', readTimes t.codec outcomes.length source =
        (outcomes.map fun outcome ↦ .ok (some outcome), source') ∧ Delivers source' tail after := by
  induction outcomes generalizing source with
  | nil => exact ⟨source, rfl, hs⟩
  | cons outcome outcomes ih =>
    rw [List.map_cons, List.flatten_cons, List.append_assoc] at hs
    obtain ⟨source₁, hread, hs₁⟩ := read_of_delivers (h outcome List.mem_cons_self) hs
    obtain ⟨source₂, hreads, hs₂⟩ := ih (fun o ho ↦ h o (List.mem_cons_of_mem _ ho)) hs₁
    refine ⟨source₂, ?_, hs₂⟩
    rw [List.length_cons, readTimes, hread]
    simp only [hreads, List.map_cons]

/-- Outcomes that can be carried are encoded, each as the length of its body and the body. From a
source that delivers the frames and then any other bytes, as many reads as there are frames give
the outcomes in order and leave the source at these bytes; if there are none, the next read finds
the end. -/
theorem readTimes_of_encode (h : ∀ outcome ∈ outcomes, Carries t outcome) :
    ∃ frames : List Bytes, outcomes.mapM (encode t.codec) = .ok frames ∧
      frames = (outcomes.map fun outcome ↦
        Wire.bigEndian prefixLength (body t outcome).length ++ body t outcome) ∧
      (∀ frame ∈ frames,
        Wire.ofBigEndian (frame.take prefixLength) = (frame.drop prefixLength).length) ∧
      ∀ tail after source, Delivers source (frames.flatten ++ tail) after →
        ∃ source', readTimes t.codec outcomes.length source =
            (outcomes.map fun outcome ↦ .ok (some outcome), source') ∧
          Delivers source' tail after ∧
          (tail = [] → after = [] → read t.codec source' = (.ok none, [])) := by
  refine ⟨outcomes.map (frame t), mapM_encode h, rfl, fun f hf ↦ ?_, fun tail after source hs ↦ ?_⟩
  · obtain ⟨outcome, ho, rfl⟩ := List.mem_map.1 hf
    have hlength : (Wire.bigEndian prefixLength (body t outcome).length).length = prefixLength :=
      Wire.length_bigEndian _ _
    rw [frame, List.take_left' hlength, List.drop_left' hlength, ofBigEndian_length (h outcome ho)]
  · obtain ⟨source', hreads, hs'⟩ := readTimes_of_delivers h hs
    refine ⟨source', hreads, hs', ?_⟩
    rintro rfl rfl
    exact read_of_delivers_nil hs'

/-- A table of dynamic values and a failure, with one byte behind their frames. -/
theorem readTimes_of_encode_dynamic :
    let value : Wire.Dynamic :=
      .table [("a", .list [.null, .int ⟨-40, by decide⟩]), ("b", .text "é")]
    let outcomes : List (Outcome ValueType.dynamic.Value) :=
      [.success value, .failure ⟨.panic, "panic", "boom", ["late"]⟩]
    (∀ outcome ∈ outcomes, Carries .dynamic outcome) ∧
      ∃ frames source', outcomes.mapM (encode ValueType.dynamic.codec) = .ok frames ∧
        readTimes ValueType.dynamic.codec 2 (Source.ofBytes (frames.flatten ++ [1])) =
          (outcomes.map fun outcome ↦ .ok (some outcome), source') ∧
        Delivers source' [1] [] := by
  intro value outcomes
  have htravels : Wire.Dynamic.Travels value := by
    refine .table (List.pairwise_pair.2 (by decide)) fun entry hentry ↦ ?_
    rcases List.mem_pair.1 hentry with rfl | rfl
    · refine .list fun item hitem ↦ ?_
      rcases List.mem_pair.1 hitem with rfl | rfl
      · exact .null
      · exact .int _
    · exact .text "é"
  have hcarries : ∀ outcome ∈ outcomes, Carries .dynamic outcome := by
    intro outcome ho
    rcases List.mem_pair.1 ho with rfl | rfl
    · refine ⟨by decide, fun v hv ↦ ?_, fun v hv ↦ ?_⟩
      · cases hv
        decide
      · cases hv
        exact htravels
    · exact ⟨by decide, fun v hv ↦ (nomatch hv), fun v hv ↦ (nomatch hv)⟩
  obtain ⟨frames, hframes, -, -, hread⟩ := readTimes_of_encode hcarries
  obtain ⟨source', hreads, hrest, -⟩ := hread [1] [] _ (Source.delivers_ofBytes _)
  exact ⟨hcarries, frames, source', hframes, hreads, hrest⟩

end Offload.Frame
