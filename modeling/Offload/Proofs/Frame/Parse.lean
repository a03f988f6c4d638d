import Offload.Frame
import Offload.Proofs.Source

/-!
# Frames and plain bytes

`Frame.parse` says what a read makes of bytes that lie there as a whole; `Frame.read` gets them from
a source in pieces, with interruptions in between. The pieces make no difference: as long as the
source delivers bytes, a read answers what is parsed of them and leaves the source at the bytes that
parsing leaves (`read_of_delivers_whole`). This includes the reads that fail, so it goes on through
any number of them (`readTimes_eq_parseTimes`).

It makes a difference only what comes behind the bytes when they end early (`EndsEarly`), before the
length is there or before the body is that it announces. The read asks for more then. The end of the
stream is the answer that parsing gives, and a failing read is the answer of the call that meets it.

Parsing is the reference here. It is one definition on a list of bytes, without buffers, loops or
reads. That the two loops of a read come to the same is what the module is about, and it is the only
place where the order of reads plays a part.
-/

namespace Offload.Frame

open Source (Delivers)
open Wire (Bytes Codec)

variable {α : Type} {c : Codec α} {source after : Source} {bs : Bytes}

/-! ### The front of a byte string -/

/-- The length that the first four bytes spell. -/
def announced (bs : Bytes) : Nat :=
  Wire.ofBigEndian (bs.take prefixLength)

/-- The bytes behind the length, as many as it announces. -/
def announcedBody (bs : Bytes) : Bytes :=
  (bs.drop prefixLength).take (announced bs)

/-- The bytes end inside the length or before it, or inside a body of a length that is allowed. -/
def EndsEarly (bs : Bytes) : Prop :=
  bs.length < prefixLength ∨ announced bs ≤ limit ∧ bs.length < prefixLength + announced bs

instance (bs : Bytes) : Decidable (EndsEarly bs) :=
  inferInstanceAs (Decidable (_ ∨ _))

theorem take?_of_le {n : Nat} (h : n ≤ bs.length) :
    Wire.take? n bs = some (bs.take n, bs.drop n) :=
  if_pos (List.length_take_of_le h)

theorem take?_of_lt {n : Nat} (h : bs.length < n) : Wire.take? n bs = none := by
  refine if_neg fun heq ↦ ?_
  rw [List.length_take] at heq
  omega

/-! ### Frames that are written -/

section

variable {outcome : Outcome α} {frame : Bytes}

/-- An outcome is encoded if it does not refuse and its body fits, and its frame is then the length
of the body and the body. -/
theorem encode_eq_ok_iff :
    encode c outcome = .ok frame ↔
      (Wire.Outcome.codec c).refusal? outcome = none ∧
        ((Wire.Outcome.codec c).write outcome).length ≤ limit ∧
        frame = Wire.bigEndian prefixLength ((Wire.Outcome.codec c).write outcome).length ++
          (Wire.Outcome.codec c).write outcome := by
  simp only [encode, ← (Wire.Outcome.codec c).size_eq]
  cases (Wire.Outcome.codec c).refusal? outcome with
  | some reason => simp
  | none =>
    by_cases hle : (Wire.Outcome.codec c).size outcome ≤ limit
    · simp [hle, Nat.not_lt_of_le hle, eq_comm]
    · simp [hle, Nat.lt_of_not_le hle]

/-- The frame of an outcome announces its body, and holds it. -/
theorem announced_of_encode (h : encode c outcome = .ok frame) :
    announced frame = ((Wire.Outcome.codec c).write outcome).length ∧
      announcedBody frame = (Wire.Outcome.codec c).write outcome := by
  obtain ⟨-, hfits, rfl⟩ := encode_eq_ok_iff.1 h
  have hannounced : announced (Wire.bigEndian prefixLength
      ((Wire.Outcome.codec c).write outcome).length ++ (Wire.Outcome.codec c).write outcome) =
      ((Wire.Outcome.codec c).write outcome).length := by
    rw [announced, List.take_left' (Wire.length_bigEndian _ _), Wire.ofBigEndian_bigEndian]
    exact Nat.lt_of_le_of_lt hfits (by decide)
  refine ⟨hannounced, ?_⟩
  rw [announcedBody, hannounced, List.drop_left' (Wire.length_bigEndian _ _), List.take_length]

/-- A frame that breaks off, wherever it does, ends early. -/
theorem endsEarly_of_prefix (h : encode c outcome = .ok frame) (hbs : bs <+: frame)
    (hne : bs ≠ frame) : EndsEarly bs := by
  have hlt : bs.length < frame.length :=
    Nat.lt_of_le_of_ne hbs.length_le fun heq ↦ hne (hbs.eq_of_length heq)
  rcases Nat.lt_or_ge bs.length prefixLength with hp | hp
  · exact .inl hp
  · -- the length is there, so it is the one of the whole frame
    have hannounced : announced bs = announced frame := by
      obtain ⟨rest, rfl⟩ := hbs
      rw [announced, announced, List.take_append_of_le_length hp]
    obtain ⟨-, hfits, hframe⟩ := encode_eq_ok_iff.1 h
    rw [(announced_of_encode h).1] at hannounced
    rw [hframe, List.length_append, Wire.length_bigEndian] at hlt
    exact .inr (by omega)

end

/-! ### Parsing

`parse` is what a read should come to. Its cases are by what the bytes begin with, and in each of
them it says which bytes are left.
-/

/-- Bytes that end early are no frame, and none of them is left. -/
theorem parse_of_endsEarly (h : EndsEarly bs) :
    parse c bs = (if bs.isEmpty then .ok none else .error (.io .unexpectedEof), []) := by
  rw [parse]
  split
  · rfl
  · rcases h with h | ⟨hle, hlt⟩
    · rw [take?_of_lt h]
    · rcases Nat.lt_or_ge bs.length prefixLength with hp | hp
      · rw [take?_of_lt hp]
      · have hbody : (bs.drop prefixLength).length < announced bs := by
          rw [List.length_drop]
          omega
        rw [take?_of_le hp]
        simp only
        rw [← announced, if_neg (Nat.not_lt_of_le hle), take?_of_lt hbody]

/-- A length beyond the limit is rejected as soon as it is there, and only its own bytes are taken.
-/
theorem parse_of_limit_lt (hp : prefixLength ≤ bs.length) (hl : limit < announced bs) :
    parse c bs =
      (.error (Fault.lengthBeyondLimit (announced bs)).toError, bs.drop prefixLength) := by
  have hne : bs.isEmpty = false := by
    cases bs with
    | nil => exact absurd hp (by decide)
    | cons => rfl
  rw [parse, hne, if_neg Bool.false_ne_true, take?_of_le hp]
  simp only
  rw [← announced, if_pos hl]

/-- A body that is there as a whole is what decides, and the bytes behind it are left. -/
theorem parse_of_le (hl : announced bs ≤ limit)
    (hb : prefixLength + announced bs ≤ bs.length) :
    parse c bs = (ofBody c (announcedBody bs), bs.drop (prefixLength + announced bs)) := by
  have hp : prefixLength ≤ bs.length := Nat.le_trans (Nat.le_add_right ..) hb
  have hne : bs.isEmpty = false := by
    cases bs with
    | nil => exact absurd hp (by decide)
    | cons => rfl
  have hbody : announced bs ≤ (bs.drop prefixLength).length := by
    rw [List.length_drop]
    omega
  rw [parse, hne, if_neg Bool.false_ne_true, take?_of_le hp]
  simp only
  rw [← announced, if_neg (Nat.not_lt_of_le hl), take?_of_le hbody, List.drop_drop]
  rfl

/-! ### One read

A read makes two fills, and each fill any number of reads of the source. The chunks are any; an
interruption is tried again, and any other failure ends the read with the bytes so far taken.
-/

/-- A whole frame, or a length beyond the limit, is read as it is parsed, wherever it is cut. -/
theorem read_of_delivers_whole (hs : Delivers source bs after) (h : ¬ EndsEarly bs) :
    ∃ source', read c source = ((parse c bs).1, source') ∧
      Delivers source' (parse c bs).2 after := by
  rw [EndsEarly, not_or, not_and, Nat.not_lt, Nat.not_lt] at h
  obtain ⟨hp, hb⟩ := h
  have htake : (bs.take prefixLength).length = prefixLength := List.length_take_of_le hp
  rw [← List.take_append_drop prefixLength bs] at hs
  obtain ⟨source₁, hprefix, hs₁⟩ := Source.fill_of_delivers hs
  rw [htake] at hprefix
  rcases Nat.lt_or_ge limit (announced bs) with hl | hl
  · rw [parse_of_limit_lt hp hl]
    refine ⟨source₁, ?_, hs₁⟩
    simp only [read, hprefix]
    rw [← announced, if_pos hl]
  · have hbody : ((bs.drop prefixLength).take (announced bs)).length = announced bs := by
      refine List.length_take_of_le ?_
      rw [List.length_drop]
      exact Nat.le_sub_of_add_le' (hb hl)
    rw [parse_of_le hl (hb hl), ← List.drop_drop]
    rw [← List.take_append_drop (announced bs) (bs.drop prefixLength)] at hs₁
    obtain ⟨source₂, hfill, hs₂⟩ := Source.fill_of_delivers hs₁
    rw [hbody] at hfill
    refine ⟨source₂, ?_, hs₂⟩
    simp only [read, hprefix]
    rw [← announced, if_neg (Nat.not_lt_of_le hl), hfill]
    rfl

/-- Bytes that end early are too few for the prefix, or for the body that it announces. -/
theorem fill_of_endsEarly (hs : Delivers source bs after) (h : EndsEarly bs) :
    bs.length < prefixLength ∨
      ∃ source₁, source.fill prefixLength = (.all (bs.take prefixLength), source₁) ∧
        Delivers source₁ (bs.drop prefixLength) after ∧ announced bs ≤ limit ∧
        (bs.drop prefixLength).length < announced bs := by
  rcases Nat.lt_or_ge bs.length prefixLength with hp | hp
  · exact .inl hp
  · have htake : (bs.take prefixLength).length = prefixLength := List.length_take_of_le hp
    obtain ⟨hl, hb⟩ := h.resolve_left (Nat.not_lt_of_le hp)
    rw [← List.take_append_drop prefixLength bs] at hs
    obtain ⟨source₁, hprefix, hs₁⟩ := Source.fill_of_delivers hs
    rw [htake] at hprefix
    refine .inr ⟨source₁, hprefix, hs₁, hl, ?_⟩
    rw [List.length_drop]
    omega

/-- At the end of the stream, bytes that end early are read as they are parsed. -/
theorem read_of_endsEarly (hs : Delivers source bs []) (h : EndsEarly bs) :
    read c source = ((parse c bs).1, []) := by
  rw [parse_of_endsEarly h]
  rcases fill_of_endsEarly hs h with hp | ⟨source₁, hprefix, hs₁, hl, hb⟩
  · simp only [read, Source.fill_of_delivers_of_lt hs hp]
    cases bs <;> rfl
  · have hne : bs.isEmpty = false := by
      cases bs with
      | nil => exact absurd hb (by simp [announced, Wire.ofBigEndian])
      | cons => rfl
    simp only [read, hprefix]
    rw [← announced, if_neg (Nat.not_lt_of_le hl), Source.fill_of_delivers_of_lt hs₁ hb, hne]
    rfl

/-- A failing read behind bytes that end early is met, in the prefix or in the body, and its error
is the answer. -/
theorem read_of_endsEarly_of_fails {kind : IoKind} {rest : Source} (hk : kind ≠ .interrupted)
    (hs : Delivers source bs (.fails kind :: rest)) (h : EndsEarly bs) :
    read c source = (.error (.io kind), rest) := by
  rcases fill_of_endsEarly hs h with hp | ⟨source₁, hprefix, hs₁, hl, hb⟩
  · simp only [read, Source.fill_of_delivers_of_fails hk hs hp]
  · simp only [read, hprefix]
    rw [← announced, if_neg (Nat.not_lt_of_le hl), Source.fill_of_delivers_of_fails hk hs₁ hb]

/-- In front of the end of the stream, a read answers what is parsed, whatever that is. -/
theorem read_of_delivers_all (hs : Delivers source bs []) :
    ∃ source', read c source = ((parse c bs).1, source') ∧
      Delivers source' (parse c bs).2 [] := by
  by_cases h : EndsEarly bs
  · refine ⟨[], read_of_endsEarly hs h, ?_⟩
    rw [parse_of_endsEarly h]
    exact .nothing []
  · exact read_of_delivers_whole hs h

/-! ### Any number of reads

Calls in turn go on from where the one before has stopped. So what they come to is the parsing of
the same bytes in turn, with an end or a failure behind them.
-/

/-- What successive reads make of plain bytes. -/
def parseTimes (c : Codec α) : (times : Nat) → Bytes →
    List (Except TaskError (Option (Outcome α))) × Bytes
  | 0, bs => ([], bs)
  | times + 1, bs =>
    let (answer, bs) := parse c bs
    let (answers, bs) := parseTimes c times bs
    (answer :: answers, bs)

/-- As long as no read finds bytes that end early, what comes behind them is not looked at. -/
theorem readTimes_of_delivers_whole {times : Nat} (hs : Delivers source bs after)
    (h : ∀ i < times, ¬ EndsEarly (parseTimes c i bs).2) :
    ∃ source', readTimes c times source = ((parseTimes c times bs).1, source') ∧
      Delivers source' (parseTimes c times bs).2 after := by
  induction times generalizing source bs with
  | zero => exact ⟨source, rfl, hs⟩
  | succ times ih =>
    obtain ⟨source₁, hread, hs₁⟩ := read_of_delivers_whole hs (h 0 (Nat.succ_pos _))
    obtain ⟨source₂, hreads, hs₂⟩ := ih hs₁ fun i hi ↦ h (i + 1) (Nat.succ_lt_succ hi)
    refine ⟨source₂, ?_, hs₂⟩
    simp only [readTimes, hread, hreads, parseTimes]

/-- Up to the end of the stream, and behind it, every read answers what is parsed. -/
theorem readTimes_of_delivers_all {times : Nat} (hs : Delivers source bs []) :
    ∃ source', readTimes c times source = ((parseTimes c times bs).1, source') ∧
      Delivers source' (parseTimes c times bs).2 [] := by
  induction times generalizing source bs with
  | zero => exact ⟨source, rfl, hs⟩
  | succ times ih =>
    obtain ⟨source₁, hread, hs₁⟩ := read_of_delivers_all hs
    obtain ⟨source₂, hreads, hs₂⟩ := ih hs₁
    refine ⟨source₂, ?_, hs₂⟩
    simp only [readTimes, hread, hreads, parseTimes]

/-- Reads from a source answer what is parsed of the bytes that it delivers, whatever pieces these
come in and however often a read is interrupted, and each read leaves the source at the bytes that
parsing leaves. A failing read of another kind is the answer of the call that meets it, which is the
first that finds too few bytes before it. -/
theorem readTimes_eq_parseTimes (c : Codec α) (times : Nat) :
    (∀ source bs, Delivers source bs [] →
      ∃ source', readTimes c times source = ((parseTimes c times bs).1, source') ∧
        Delivers source' (parseTimes c times bs).2 []) ∧
    (∀ source bs kind rest, kind ≠ .interrupted → Delivers source bs (.fails kind :: rest) →
      (∀ i < times, ¬ EndsEarly (parseTimes c i bs).2) →
      ∃ source', readTimes c times source = ((parseTimes c times bs).1, source') ∧
        Delivers source' (parseTimes c times bs).2 (.fails kind :: rest) ∧
        (EndsEarly (parseTimes c times bs).2 → read c source' = (.error (.io kind), rest))) ∧
    parse c [] = (.ok none, []) ∧
    (∀ bs, bs ≠ [] → bs.length < prefixLength →
      parse c bs = (.error (.io .unexpectedEof), [])) ∧
    (∀ bs, prefixLength ≤ bs.length → limit < announced bs →
      parse c bs = (.error (.codec (Fault.lengthBeyondLimit (announced bs)).reason),
        bs.drop prefixLength)) ∧
    (∀ bs, prefixLength ≤ bs.length → announced bs ≤ limit →
      bs.length < prefixLength + announced bs →
      parse c bs = (.error (.io .unexpectedEof), [])) ∧
    (∀ bs, announced bs ≤ limit → prefixLength + announced bs ≤ bs.length →
      parse c bs = (ofBody c (announcedBody bs), bs.drop (prefixLength + announced bs))) := by
  -- bytes that end early are the two ways in which a frame can break off
  have hshort : ∀ bs : Bytes, bs ≠ [] → EndsEarly bs →
      parse c bs = (.error (.io .unexpectedEof), []) := fun bs hne h ↦ by
    rw [parse_of_endsEarly h, if_neg (mt List.isEmpty_iff.1 hne)]
  refine ⟨fun source bs hs ↦ readTimes_of_delivers_all hs,
    fun source bs kind rest hk hs h ↦ ?_, rfl, fun bs hne hp ↦ hshort bs hne (.inl hp),
    fun bs hp hl ↦ parse_of_limit_lt hp hl, fun bs hp hl hb ↦ hshort bs ?_ (.inr ⟨hl, hb⟩),
    fun bs hl hb ↦ parse_of_le hl hb⟩
  · obtain ⟨source', hreads, hs'⟩ := readTimes_of_delivers_whole hs h
    exact ⟨source', hreads, hs', read_of_endsEarly_of_fails hk hs'⟩
  · rintro rfl
    exact absurd hp (by decide)

/-- A frame cut inside its length, with an interruption there, then a length beyond the limit, then
a read that fails inside the next length. -/
theorem readTimes_eq_parseTimes_cut :
    let frame := Wire.bigEndian prefixLength 10 ++ Wire.Outcome.write Codec.bool (.success true)
    let bs := frame ++ [255, 255, 255, 255] ++ [0]
    let source : Source := [.chunk (bs.take 2), .fails .interrupted, .chunk (bs.drop 2),
      .fails .brokenPipe, .chunk [7]]
    Delivers source bs [.fails .brokenPipe, .chunk [7]] ∧
      (∀ i < 2, ¬ EndsEarly (parseTimes Codec.bool i bs).2) ∧
      ∃ source', readTimes Codec.bool 2 source =
          ([.ok (some (.success true)),
            .error (.codec (Fault.lengthBeyondLimit (2 ^ 32 - 1)).reason)], source') ∧
        read Codec.bool source' = (.error (.io .brokenPipe), [.chunk [7]]) := by
  intro frame bs source
  have hs : Delivers source bs [.fails .brokenPipe, .chunk [7]] :=
    .chunk (by decide) (.interrupted (.chunk (by decide) (.nothing _)))
  have hwhole : ∀ i < 2, ¬ EndsEarly (parseTimes Codec.bool i bs).2 := by
    decide +kernel
  obtain ⟨-, hfails, -⟩ := readTimes_eq_parseTimes Codec.bool 2
  obtain ⟨source', hreads, -, hread⟩ :=
    hfails source bs .brokenPipe [.chunk [7]] (by decide) hs hwhole
  have hparse : (parseTimes Codec.bool 2 bs).1 = [.ok (some (.success true)),
      .error (.codec (Fault.lengthBeyondLimit (2 ^ 32 - 1)).reason)] := by decide +kernel
  have hend : EndsEarly (parseTimes Codec.bool 2 bs).2 := by decide +kernel
  exact ⟨hs, hwhole, source', hparse ▸ hreads, hread hend⟩

end Offload.Frame
