import Offload.Channel.Pipe
import Offload.Proofs.Frame.Parse

/-!
# What the receiver of a pipe answers

The calls on a receiver find the pipe readable or not, and the reads behind them find its bytes in
some cutting. The receiver's answers do not depend on the cutting: there is one answer that the
bytes alone decide (`firstAnswer`), the first call that finds the pipe readable gives it, and the
calls around it say nothing else (`calls_of_delivers`). A call before it answers "nothing yet" and
leaves everything as it is; a call after it answers that the sender is gone and does not read.

So there are three classes of byte strings, by what `firstAnswer` is of them: those that hold the
frame of an outcome at their front, those whose front is no frame, and those that end early. A
frame that breaks off anywhere is in the third class (`Frame.endsEarly_of_prefix`).

The three classes exhaust all byte strings and exclude each other, and each is described by the
bytes alone. So for each string it can be told beforehand what every sequence of calls will answer,
up to the number of answers "nothing yet" in front, which only the readiness of the pipe decides.
-/

namespace Offload

open Source (Delivers)
open Wire (Bytes Codec)

variable {α : Type}

namespace Channel

/-- The outcomes among the answers of a receiver. -/
def delivered (answers : List (Answer α)) : List (Outcome α) :=
  answers.filterMap fun
    | .ok outcome => outcome
    | .error _ => none

/-- One answer delivers an outcome exactly if it is that outcome. -/
theorem delivered_singleton_iff {answer : Answer α} {outcome : Outcome α} :
    delivered [answer] = [outcome] ↔ answer = .ok (some outcome) := by
  rcases answer with loss | _ | own <;> simp [delivered]

namespace Pipe

open Offload.Frame (EndsEarly announced announcedBody prefixLength)

variable {c : Codec α} {bs : Bytes} {source : Source}

/-- The answers to successive calls of a receiver, each on a pipe that is found readable or not. -/
def Receiver.calls (c : Codec α) :
    (polls : List Bool) → Receiver → Source → List (Answer α) × Receiver × Source
  | [], receiver, content => ([], receiver, content)
  | isReadable :: polls, receiver, content =>
    let (answer, receiver, content) := receiver.attempt c isReadable content
    let (answers, receiver, content) := Receiver.calls c polls receiver content
    (answer :: answers, receiver, content)

/-- Nothing yet until a poll finds the pipe readable, then the one answer, and none after it. -/
def answersTo (first : Answer α) : (polls : List Bool) → List (Answer α)
  | [] => []
  | false :: polls => .ok none :: answersTo first polls
  | true :: polls => first :: polls.map fun _ ↦ .error .disconnected

/-- The answer that plain bytes stand for, up to the end of the stream. -/
def firstAnswer (c : Codec α) (bs : Bytes) : Answer α :=
  ofRead (Frame.parse c bs).1

/-! ### The one answer

A call that finds the pipe readable reads a whole frame, however long its bytes take to come. So
what it answers is decided by all bytes that come, and not by how many were there when it began.
-/

/-- The answer for a body is its outcome, or that it is corrupt and why. -/
theorem ofRead_ofBody (body : Bytes) :
    ofRead (Frame.ofBody c body) = match Frame.readBody c body with
      | .ok outcome => .ok (some outcome)
      | .error fault => .error (.corrupt fault.toError.message) := by
  rw [Frame.ofBody]
  cases Frame.readBody c body <;> rfl

/-- Bytes that end early are answered as a sender that is gone. -/
theorem firstAnswer_of_endsEarly (h : EndsEarly bs) :
    firstAnswer c bs = .error .disconnected := by
  rw [firstAnswer, Frame.parse_of_endsEarly h]
  cases bs <;> rfl

/-- A length beyond the limit is corrupt. -/
theorem firstAnswer_of_limit_lt (hp : prefixLength ≤ bs.length)
    (hl : Frame.limit < announced bs) :
    firstAnswer c bs =
      .error (.corrupt (Frame.Fault.lengthBeyondLimit (announced bs)).toError.message) := by
  rw [firstAnswer, Frame.parse_of_limit_lt hp hl]
  rfl

/-- A whole frame is answered by its body. -/
theorem firstAnswer_of_le (hl : announced bs ≤ Frame.limit)
    (hb : prefixLength + announced bs ≤ bs.length) :
    firstAnswer c bs = ofRead (Frame.ofBody c (announcedBody bs)) := by
  rw [firstAnswer, Frame.parse_of_le hl hb]

/-- The frame of an outcome stands for what its body is read as. -/
theorem firstAnswer_of_encode {outcome : Outcome α} {frame : Bytes}
    (h : Frame.encode c outcome = .ok frame) :
    firstAnswer c frame = ofRead (Frame.ofBody c ((Wire.Outcome.codec c).write outcome)) := by
  obtain ⟨hannounced, hbody⟩ := Frame.announced_of_encode h
  obtain ⟨-, hfits, hframe⟩ := Frame.encode_eq_ok_iff.1 h
  have hlength : frame.length = prefixLength + announced frame := by
    rw [hannounced, hframe, List.length_append, Wire.length_bigEndian]
  rw [firstAnswer_of_le (by rwa [hannounced]) (Nat.le_of_eq hlength.symm), hbody]

/-- Bytes end early, announce a body beyond the limit, or hold the body that they announce. -/
theorem endsEarly_or (bs : Bytes) :
    EndsEarly bs ∨ prefixLength ≤ bs.length ∧ Frame.limit < announced bs ∨
      announced bs ≤ Frame.limit ∧ prefixLength + announced bs ≤ bs.length := by
  rw [EndsEarly]
  omega

/-- An outcome is the answer exactly if a whole frame within the limit has a body that is read as
it. -/
theorem firstAnswer_eq_outcome_iff {outcome : Outcome α} :
    firstAnswer c bs = .ok (some outcome) ↔
      announced bs ≤ Frame.limit ∧ prefixLength + announced bs ≤ bs.length ∧
        Frame.readBody c (announcedBody bs) = .ok outcome := by
  rcases endsEarly_or bs with h | ⟨hp, hl⟩ | ⟨hl, hb⟩
  · rw [firstAnswer_of_endsEarly h]
    refine iff_of_false (by simp) ?_
    rintro ⟨hl, hb, -⟩
    rw [EndsEarly] at h
    omega
  · rw [firstAnswer_of_limit_lt hp hl]
    exact iff_of_false (by simp) fun h ↦ Nat.not_le_of_lt hl h.1
  · rw [firstAnswer_of_le hl hb, ofRead_ofBody]
    cases Frame.readBody c (announcedBody bs) with
    | ok other => simp [hl, hb]
    | error fault => simp

/-- The answer is that the frame is corrupt exactly if its length is beyond the limit, or its body
is there and is not read. -/
theorem firstAnswer_eq_corrupt_iff :
    (∃ reason, firstAnswer c bs = .error (.corrupt reason)) ↔
      prefixLength ≤ bs.length ∧ Frame.limit < announced bs ∨
        announced bs ≤ Frame.limit ∧ prefixLength + announced bs ≤ bs.length ∧
          ∀ outcome, Frame.readBody c (announcedBody bs) ≠ .ok outcome := by
  rcases endsEarly_or bs with h | ⟨hp, hl⟩ | ⟨hl, hb⟩
  · rw [firstAnswer_of_endsEarly h]
    refine iff_of_false nofun ?_
    rw [EndsEarly] at h
    omega
  · rw [firstAnswer_of_limit_lt hp hl]
    exact iff_of_true ⟨_, rfl⟩ (.inl ⟨hp, hl⟩)
  · rw [firstAnswer_of_le hl hb, ofRead_ofBody]
    have hnot : ¬ (prefixLength ≤ bs.length ∧ Frame.limit < announced bs) := by omega
    cases Frame.readBody c (announcedBody bs) with
    | ok outcome => simp [hnot]
    | error fault => simp [hl, hb]

/-- The answer is that the sender is gone exactly if the bytes end early. -/
theorem firstAnswer_eq_disconnected_iff :
    firstAnswer c bs = .error .disconnected ↔ EndsEarly bs := by
  refine ⟨fun h ↦ ?_, firstAnswer_of_endsEarly⟩
  rcases endsEarly_or bs with hearly | ⟨hp, hl⟩ | ⟨hl, hb⟩
  · exact hearly
  · rw [firstAnswer_of_limit_lt hp hl] at h
    cases h
  · rw [firstAnswer_of_le hl hb, ofRead_ofBody] at h
    split at h <;> cases h

/-- A pipe that is readable is never answered with "nothing yet". -/
theorem firstAnswer_ne_nothing : firstAnswer c bs ≠ .ok none := by
  rcases endsEarly_or bs with h | ⟨hp, hl⟩ | ⟨hl, hb⟩
  · rw [firstAnswer_of_endsEarly h]
    exact nofun
  · rw [firstAnswer_of_limit_lt hp hl]
    exact nofun
  · rw [firstAnswer_of_le hl hb, ofRead_ofBody]
    split <;> exact nofun

/-! ### Any number of calls

Behind its one answer the receiver is spent. It answers every further call in the same way, whatever
the sender still writes.
-/

/-- On a readable pipe the first call gives the one answer, and is the last that reads. -/
theorem attempt_of_delivers (hs : Delivers source bs []) :
    ∃ source', Receiver.attempt c {} true source = (firstAnswer c bs, ⟨true⟩, source') ∧
      Delivers source' (Frame.parse c bs).2 [] := by
  obtain ⟨source', hread, hs'⟩ := Frame.read_of_delivers_all (c := c) hs
  refine ⟨source', ?_, hs'⟩
  simp [Receiver.attempt, hread, firstAnswer]

/-- A receiver that has given its answer reads nothing more. -/
theorem calls_of_finished (polls : List Bool) (source : Source) :
    Receiver.calls c polls ⟨true⟩ source =
      (polls.map fun _ ↦ .error .disconnected, ⟨true⟩, source) := by
  induction polls with
  | nil => rfl
  | cons isReadable polls ih =>
    have hattempt : Receiver.attempt c ⟨true⟩ isReadable source =
        (.error .disconnected, ⟨true⟩, source) := rfl
    rw [Receiver.calls, hattempt]
    simp only [ih, List.map_cons]

/-- The answers of a receiver are those to the one answer. It reads once, if ever, and leaves the
pipe alone before and after that. -/
theorem calls_of_delivers (hs : Delivers source bs []) :
    ∃ source', Delivers source' (Frame.parse c bs).2 [] ∧
      ∀ polls, Receiver.calls c polls {} source =
        (answersTo (firstAnswer c bs) polls,
          if true ∈ polls then (⟨true⟩, source') else ({}, source)) := by
  obtain ⟨source', hattempt, hs'⟩ := attempt_of_delivers (c := c) hs
  refine ⟨source', hs', fun polls ↦ ?_⟩
  induction polls with
  | nil => rfl
  | cons isReadable polls ih =>
    cases isReadable with
    | true =>
      simp only [Receiver.calls, hattempt, calls_of_finished, answersTo, List.mem_cons, true_or,
        if_true]
    | false =>
      have hidle : Receiver.attempt c {} false source = (.ok none, {}, source) := rfl
      simp only [Receiver.calls, hidle, ih, answersTo, List.mem_cons, reduceCtorEq, false_or]

/-- A receiver that has finished delivers nothing more. -/
theorem delivered_map_disconnected (polls : List Bool) :
    delivered (polls.map fun _ ↦ (.error .disconnected : Answer α)) = [] := by
  simp [delivered]

/-- The answers hold the outcome of the one answer, if a poll found the pipe readable. -/
theorem delivered_answersTo (first : Answer α) (polls : List Bool) :
    delivered (answersTo first polls) = if true ∈ polls then delivered [first] else [] := by
  induction polls with
  | nil => rfl
  | cons isReadable polls ih =>
    cases isReadable with
    | true =>
      have happend : delivered (first :: polls.map fun _ ↦ .error .disconnected) =
          delivered [first] ++ delivered (polls.map fun _ ↦ .error .disconnected) :=
        List.filterMap_append (l := [first])
      rw [answersTo, happend, delivered_map_disconnected, List.append_nil, if_pos (by simp)]
    | false => simpa [answersTo, delivered] using ih

/-- At most one outcome is delivered. -/
theorem length_delivered_answersTo_le (first : Answer α) (polls : List Bool) :
    (delivered (answersTo first polls)).length ≤ 1 := by
  rw [delivered_answersTo]
  split
  · exact List.length_filterMap_le ..
  · exact Nat.zero_le _

/-- Whatever bytes a pipe carries until its writer hangs up, one answer belongs to them. It is an
outcome if they start with the length and the body of one, that the sender is gone if they end
before the length and the body are there, and corruption otherwise; a part of a frame is never an
outcome or corruption. However the reads cut the bytes and whatever the polls find, the calls of a
receiver answer "nothing yet" and read nothing until a poll finds the pipe readable, then give the
one answer, and from then on answer that the sender is gone and read nothing. -/
theorem answers_of_delivers (c : Codec α) (bs : Bytes) :
    ∃ first : Answer α,
      (∀ outcome, first = .ok (some outcome) ↔
        announced bs ≤ Frame.limit ∧ prefixLength + announced bs ≤ bs.length ∧
          Frame.readBody c (announcedBody bs) = .ok outcome) ∧
      ((∃ reason, first = .error (.corrupt reason)) ↔
        prefixLength ≤ bs.length ∧ Frame.limit < announced bs ∨
          announced bs ≤ Frame.limit ∧ prefixLength + announced bs ≤ bs.length ∧
            ∀ outcome, Frame.readBody c (announcedBody bs) ≠ .ok outcome) ∧
      (first = .error .disconnected ↔ EndsEarly bs) ∧
      first ≠ .ok none ∧
      (∀ outcome frame, Frame.encode c outcome = .ok frame → bs <+: frame → bs ≠ frame →
        first = .error .disconnected) ∧
      ∀ source, Delivers source bs [] →
        ∃ source', Delivers source' (Frame.parse c bs).2 [] ∧
          ∀ polls, Receiver.calls c polls {} source =
              (answersTo first polls,
                if true ∈ polls then (⟨true⟩, source') else ({}, source)) ∧
            (delivered (Receiver.calls c polls {} source).1).length ≤ 1 := by
  refine ⟨firstAnswer c bs, fun outcome ↦ firstAnswer_eq_outcome_iff, firstAnswer_eq_corrupt_iff,
    firstAnswer_eq_disconnected_iff, firstAnswer_ne_nothing, fun outcome frame h hbs hne ↦ ?_,
    fun source hs ↦ ?_⟩
  · exact firstAnswer_of_endsEarly (Frame.endsEarly_of_prefix h hbs hne)
  · obtain ⟨source', hs', hcalls⟩ := calls_of_delivers (c := c) hs
    refine ⟨source', hs', fun polls ↦ ⟨hcalls polls, ?_⟩⟩
    rw [hcalls]
    exact length_delivered_answersTo_le _ _

/-- Two frames in one pipe, of which the second stays there, and a frame that breaks off. -/
theorem answers_of_delivers_frames :
    let frame := Wire.bigEndian prefixLength 10 ++ Wire.Outcome.write Codec.bool (.success true)
    let source : Source :=
      [.chunk (frame.take 3), .fails .interrupted, .chunk (frame.drop 3 ++ frame)]
    Delivers source (frame ++ frame) [] ∧
      (∃ source', Delivers source' frame [] ∧
        Receiver.calls Codec.bool [false, true, true, false] {} source =
          ([.ok none, .ok (some (.success true)), .error .disconnected, .error .disconnected],
            ⟨true⟩, source')) ∧
      (Receiver.calls Codec.bool [false, true] {} [.chunk (frame.take 13)]).1 =
        [.ok none, .error .disconnected] := by
  intro frame source
  have hs : Delivers source (frame ++ frame) [] :=
    .chunk (by decide) (.interrupted (.chunk (by decide) (.nothing _)))
  have hbroken : Delivers [.chunk (frame.take 13)] (frame.take 13) [] :=
    .chunk (by decide) (.nothing _)
  have hencode : Frame.encode Codec.bool (.success true) = .ok frame := by decide +kernel
  obtain ⟨first, houtcome, -, -, -, -, hcalls⟩ := answers_of_delivers Codec.bool (frame ++ frame)
  obtain ⟨first', -, -, -, -, hbreaks, hcalls'⟩ := answers_of_delivers Codec.bool (frame.take 13)
  have hfirst : first = .ok (some (.success true)) := (houtcome _).2 (by decide +kernel)
  have hfirst' : first' = .error .disconnected :=
    hbreaks _ _ hencode (List.take_prefix ..) (by decide)
  obtain ⟨source', hs', hanswers⟩ := hcalls source hs
  obtain ⟨source'', -, hanswers'⟩ := hcalls' _ hbroken
  refine ⟨hs, ⟨source', ?_, ?_⟩, ?_⟩
  · have hrest : (Frame.parse Codec.bool (frame ++ frame)).2 = frame := by decide +kernel
    rwa [hrest] at hs'
  · rw [(hanswers _).1, hfirst]
    rfl
  · rw [(hanswers' _).1, hfirst']
    rfl

end Pipe

end Channel

end Offload
