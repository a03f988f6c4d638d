import Offload.Source
import Mathlib.Data.List.Basic

/-!
# Sources that deliver bytes

A source *delivers* bytes if its reads hand them out in some cutting, with any interruptions in
between, before it goes on as another source. Filling a buffer takes as many bytes as are wanted
off the front, whatever the cutting, and leaves a source that delivers the others.

`Delivers` is what makes statements about frames free of how the system cuts a stream. It is a
relation between a source and what it goes on as, so the sources of several frames compose, and an
ended stream, a failing one and one that goes on are the same lemma with another `after`.
-/

namespace Offload.Source

open Wire (Bytes)

/-- The reads on the first source hand out the bytes, and the second source is what is left. -/
inductive Delivers : Source → Bytes → Source → Prop
  | nothing (after : Source) : Delivers after [] after
  | chunk {bytes : Bytes} {source : Source} {bs : Bytes} {after : Source} (hne : bytes ≠ [])
    (h : Delivers source bs after) : Delivers (.chunk bytes :: source) (bytes ++ bs) after
  | interrupted {source : Source} {bs : Bytes} {after : Source} (h : Delivers source bs after) :
    Delivers (.fails .interrupted :: source) bs after

variable {source after : Source} {bs : Bytes}

theorem delivers_ofBytes (bs : Bytes) : Delivers (ofBytes bs) bs [] := by
  rw [ofBytes]
  split
  · next h =>
    rw [List.isEmpty_iff.1 h]
    exact .nothing []
  · next h =>
    have hchunk := Delivers.chunk (fun heq ↦ h (List.isEmpty_iff.2 heq)) (.nothing [])
    rwa [List.append_nil] at hchunk

/-- The bytes that the reads on a source hand out, as long as none fails. -/
def bytes (source : Source) : Bytes :=
  source.flatMap fun
    | .chunk bytes => bytes
    | .fails _ => []

@[simp]
theorem bytes_ofBytes (bs : Bytes) : (ofBytes bs).bytes = bs := by
  rw [ofBytes]
  split
  · next h => exact (List.isEmpty_iff.1 h).symm
  · exact List.append_nil bs

/-! ### Filling

A source is what a reader meets: chunks, interruptions, failures and the end. Filling a buffer asks
as often as it takes, and what it has in the end depends on the bytes and not on the chunks.
-/

theorem fillOnto_zero (got : Bytes) (source : Source) :
    fillOnto got 0 source = (.all got, source) := by
  rw [fillOnto.eq_def]
  simp

/-- One read gives as much of a chunk as is wanted, and the rest of it stays. -/
theorem fillOnto_chunk {bytes got : Bytes} {wanted : Nat} (hne : bytes ≠ []) (hw : wanted ≠ 0)
    (source : Source) :
    fillOnto got wanted (.chunk bytes :: source) =
      if wanted < bytes.length then
        (.all (got ++ bytes.take wanted), .chunk (bytes.drop wanted) :: source)
      else fillOnto (got ++ bytes) (wanted - bytes.length) source := by
  rw [fillOnto.eq_def, if_neg hw]
  simp [hne]

/-- An interrupted read is tried again. -/
theorem fillOnto_interrupted {got : Bytes} {wanted : Nat} (hw : wanted ≠ 0) (source : Source) :
    fillOnto got wanted (.fails .interrupted :: source) = fillOnto got wanted source := by
  rw [fillOnto.eq_def, if_neg hw]

/-- Filling a buffer is reading into what is free of it until it is full: at the end of the stream
and at an error it stops, and after an interruption it goes on. -/
theorem fillOnto_eq_readOnce (got : Bytes) {wanted : Nat} (hw : wanted ≠ 0) (source : Source) :
    fillOnto got wanted source = match readOnce wanted source with
      | (.ok [], rest) => (.ended got, rest)
      | (.ok (b :: bytes), rest) =>
        fillOnto (got ++ b :: bytes) (wanted - (b :: bytes).length) rest
      | (.error .interrupted, rest) => fillOnto got wanted rest
      | (.error kind, rest) => (.failed kind, rest) := by
  rcases source with - | ⟨bytes | kind, rest⟩
  · rw [fillOnto.eq_def, if_neg hw]
    rfl
  · rcases bytes with - | ⟨b, bytes⟩
    · rw [fillOnto.eq_def, if_neg hw]
      rfl
    · rw [fillOnto_chunk (List.cons_ne_nil b bytes) hw, readOnce]
      split
      · next hlt =>
        obtain ⟨room, rfl⟩ := Nat.exists_eq_succ_of_ne_zero hw
        have hroom : room + 1 - (b :: bytes.take room).length = 0 := by
          rw [List.length_cons] at hlt ⊢
          rw [List.length_take]
          omega
        show _ = fillOnto (got ++ b :: bytes.take room) _ _
        rw [hroom, fillOnto_zero]
        rfl
      · rfl
  · rw [fillOnto.eq_def, if_neg hw]
    cases kind <;> rfl

/-- What is wanted is taken off the front, behind what was read before. -/
theorem fillOnto_of_delivers (h : Delivers source bs after) {wanted rest : Bytes}
    (hbs : bs = wanted ++ rest) (got : Bytes) :
    ∃ source', fillOnto got wanted.length source = (.all (got ++ wanted), source') ∧
      Delivers source' rest after := by
  rcases eq_or_ne wanted [] with rfl | hne
  · obtain rfl : bs = rest := hbs
    exact ⟨source, by rw [List.length_nil, fillOnto_zero, List.append_nil], h⟩
  · have hw : wanted.length ≠ 0 := fun hzero ↦ hne (List.length_eq_zero_iff.1 hzero)
    induction h generalizing wanted got with
    | nothing after => exact absurd (List.append_eq_nil_iff.1 hbs.symm).1 hne
    | @chunk bytes source bs after hchunk h ih =>
      rw [fillOnto_chunk hchunk hw]
      by_cases hlt : wanted.length < bytes.length
      · -- the chunk holds all that is wanted and more
        obtain ⟨others, rfl⟩ : wanted <+: bytes :=
          List.prefix_of_prefix_length_le ⟨rest, rfl⟩ ⟨bs, hbs⟩ (Nat.le_of_lt hlt)
        rw [if_pos hlt, List.take_left, List.drop_left]
        have hothers : others ≠ [] := by
          rintro rfl
          simp at hlt
        obtain rfl : others ++ bs = rest := by simpa using hbs
        exact ⟨_, rfl, .chunk hothers h⟩
      · -- the chunk is used up, and the rest of the source is asked for the others
        obtain ⟨more, rfl⟩ : bytes <+: wanted :=
          List.prefix_of_prefix_length_le ⟨bs, hbs⟩ ⟨rest, rfl⟩ (Nat.le_of_not_lt hlt)
        rw [if_neg hlt, List.length_append, Nat.add_sub_cancel_left, ← List.append_assoc]
        obtain rfl : bs = more ++ rest := by simpa using hbs
        rcases eq_or_ne more [] with rfl | hmore
        · exact ⟨source, by rw [List.length_nil, fillOnto_zero, List.append_nil], h⟩
        · exact ih rfl (got ++ bytes) hmore fun hzero ↦ hmore (List.length_eq_zero_iff.1 hzero)
    | interrupted h ih =>
      rw [fillOnto_interrupted hw]
      exact ih hbs got hne hw

/-- A source that delivers less than is wanted is gone through, and then it is asked for the others
what comes after it. -/
theorem fillOnto_of_delivers_of_lt (h : Delivers source bs after) {wanted : Nat}
    (hlt : bs.length < wanted) (got : Bytes) :
    fillOnto got wanted source = fillOnto (got ++ bs) (wanted - bs.length) after := by
  induction h generalizing wanted got with
  | nothing after => rw [List.append_nil, List.length_nil, Nat.sub_zero]
  | @chunk bytes source bs after hchunk h ih =>
    rw [List.length_append] at hlt
    rw [fillOnto_chunk hchunk (by omega), if_neg (by omega), ih (by omega), List.append_assoc,
      List.length_append, Nat.sub_sub]
  | interrupted h ih => rw [fillOnto_interrupted (by omega), ih hlt]

/-- At the end of the stream there are only the bytes before it. -/
theorem fill_of_delivers_of_lt (h : Delivers source bs []) {wanted : Nat}
    (hlt : bs.length < wanted) : fill wanted source = (.ended bs, []) := by
  rw [fill, fillOnto_of_delivers_of_lt h hlt, fillOnto.eq_def, if_neg (by omega), List.nil_append]

/-- A failing read that is no interruption ends the filling, and the bytes before it are lost. -/
theorem fill_of_delivers_of_fails {kind : IoKind} {rest : Source} (hk : kind ≠ .interrupted)
    (h : Delivers source bs (.fails kind :: rest)) {wanted : Nat} (hlt : bs.length < wanted) :
    fill wanted source = (.failed kind, rest) := by
  rw [fill, fillOnto_of_delivers_of_lt h hlt, fillOnto.eq_def, if_neg (by omega)]
  cases kind <;> first | rfl | exact absurd rfl hk

/-- The bytes that are wanted come all together, and the others are left. -/
theorem fill_of_delivers {rest : Bytes} (h : Delivers source (bs ++ rest) after) :
    ∃ source', fill bs.length source = (.all bs, source') ∧ Delivers source' rest after :=
  fillOnto_of_delivers h rfl []

/-- A source that has nothing left to deliver is at its end. -/
theorem fill_of_delivers_nil (h : Delivers source [] []) {wanted : Nat} (hw : wanted ≠ 0) :
    fill wanted source = (.ended [], []) := by
  generalize hnil : ([] : Bytes) = bs at h
  generalize hafter : ([] : Source) = after at h
  rw [fill]
  induction h with
  | nothing =>
    subst hafter
    rw [fillOnto.eq_def, if_neg hw]
  | chunk hne => exact absurd (List.append_eq_nil_iff.1 hnil.symm).1 hne
  | interrupted h ih =>
    rw [fillOnto_interrupted hw]
    exact ih hnil hafter

end Offload.Source
