import Offload.Proofs.Frame.Reported
import Offload.Worker.Body

/-!
# The failure that stands in for an outcome

An outcome that cannot be encoded is replaced by a failure with the reason in its message. The
failure goes through the same encoder and the same limit, so it might be rejected in turn. It never
refuses, so this takes a message that fills a frame: only the reason of a value can be as long as
that. The reason that a body is too long is short (`fits_of_oversized`).

What a worker sends is decided by the length of that failure. Either its frame is all that the pipe
gets (`Worker.Sent`), or the pipe gets nothing (`Worker.Unsent`). The bytes of a failure do not
depend on the type of the value that it stands in for, so a reader of any type takes it.

A body of more bytes than a frame may have is the common case. There the reason is a sentence with
two numbers in it, and its length is bounded by their digits: no machine of 64 bits counts a body
whose length could not be told in a frame.
-/

namespace Offload

open Source (Delivers)
open Wire (Bytes Codec ValueType)
open Channel (Pipe)

variable {α : Type}

namespace Frame

/-- The body of the frame of a failure, which is the same at all types. -/
def failureBody (failure : Failure) : Bytes :=
  Codec.writeVariant "Failure" (Wire.Failure.codec.write failure)

/-- The frame of a failure. -/
def failureFrame (failure : Failure) : Bytes :=
  Wire.bigEndian prefixLength (failureBody failure).length ++ failureBody failure

/-- A failure never refuses, so only its length decides whether it is encoded. -/
theorem encode_failure (c : Codec α) (failure : Failure) :
    encode c (.failure failure) =
      if limit < (failureBody failure).length then
        .error (.oversized (failureBody failure).length)
      else .ok (failureFrame failure) := by
  have hsize : (Wire.Outcome.codec c).size (.failure failure) = (failureBody failure).length :=
    (Wire.Outcome.codec c).size_eq (.failure failure)
  show (if limit < (Wire.Outcome.codec c).size (.failure failure) then _ else _) = _
  rw [hsize]
  rfl

/-- A value that refuses nothing is only rejected for the length of its body. -/
theorem eq_oversized_of_encode {c : Codec α} {outcome : Outcome α} {fault : Fault}
    (h : encode c outcome = .error fault)
    (hwilling : (Wire.Outcome.codec c).refusal? outcome = none) :
    fault = .oversized ((Wire.Outcome.codec c).write outcome).length := by
  simp only [encode, hwilling, (Wire.Outcome.codec c).size_eq] at h
  split at h
  · exact (Except.error.inj h).symm
  · cases h

/-- A frame of a failure is read as that failure, by a reader of any type. -/
theorem read_failureFrame (t : ValueType) {failure : Failure}
    (h : (failureBody failure).length ≤ limit) {source after : Source} {rest : Bytes}
    (hs : Delivers source (failureFrame failure ++ rest) after) :
    ∃ source', read t.codec source = (.ok (some (.failure failure)), source') ∧
      Delivers source' rest after :=
  read_of_delivers (carries_failure h) hs

/-! ### The length of the failure

What is fixed in the body of a failure is counted once, and the rest is its message. So the length
of the body is a function of the length of the reason, up to the width of one header.
-/

/-- A character takes one to four bytes. -/
theorem utf8ByteSize_ofList (cs : List Char) :
    cs.length ≤ (String.ofList cs).utf8ByteSize ∧
      (String.ofList cs).utf8ByteSize ≤ 4 * cs.length := by
  induction cs with
  | nil => exact ⟨Nat.le_refl 0, Nat.le_refl 0⟩
  | cons c cs ih =>
    have hc := c.utf8Size_pos
    have hc' := c.utf8Size_le_four
    rw [String.ofList_cons, String.utf8ByteSize_append, String.utf8ByteSize_singleton,
      List.length_cons]
    omega

/-- A number of as many digits takes four bytes for each at most. -/
theorem utf8ByteSize_toString_le {n k : Nat} (hk : 0 < k) (hn : n < 10 ^ k) :
    (toString n).utf8ByteSize ≤ 4 * k := by
  have hdigits := (Nat.length_toDigits_le_iff (by decide) hk).2 hn
  rw [Nat.toString_eq_ofList_toDigits]
  exact Nat.le_trans (utf8ByteSize_ofList _).2 (Nat.mul_le_mul_left 4 hdigits)

/-- The body of a stand-in is the reason and at most 82 bytes more. -/
theorem length_failureBody_standIn (reason : String) :
    reason.utf8ByteSize ≤ (failureBody (.standIn reason)).length ∧
      (failureBody (.standIn reason)).length ≤ 82 + reason.utf8ByteSize := by
  have hlength : (failureBody (.standIn reason)).length = _ :=
    length_body_ofError (t := .unit) "isotask::error::TaskError"
      ("outcome could not be encoded: " ++ reason)
  have hname : "isotask::error::TaskError".utf8ByteSize = 25 := by decide
  have hintro : "outcome could not be encoded: ".utf8ByteSize = 30 := by decide
  rw [String.utf8ByteSize_append, hname, hintro] at hlength
  have hmessage := Wire.Codec.textSize_bounds (30 + reason.utf8ByteSize)
  have htype := Wire.Codec.textSize_bounds 25
  omega

/-- A value that refuses with a reason as long as a frame leaves no room for the failure. -/
theorem not_fits_of_refused {reason : String} (h : limit ≤ reason.utf8ByteSize) :
    limit < (failureBody (.standIn (Fault.refused reason).reason)).length := by
  have hreason : (Fault.refused reason).reason.utf8ByteSize = 26 + reason.utf8ByteSize :=
    String.utf8ByteSize_append
  have hlength := (length_failureBody_standIn (Fault.refused reason).reason).1
  omega

/-- The reason that a body is too long fits in a frame, for every length that a machine of 64 bits
can count. -/
theorem fits_of_oversized {length : Nat} (h : length < 2 ^ 64) :
    (failureBody (.standIn (Fault.oversized length).reason)).length ≤ limit := by
  have hreason (digits digits' : String) : ("Outcome of " ++ digits ++ " bytes exceeds the " ++
      digits' ++ " byte frame limit").utf8ByteSize =
      47 + (digits.utf8ByteSize + digits'.utf8ByteSize) := by
    have hwords : "Outcome of ".utf8ByteSize + " bytes exceeds the ".utf8ByteSize +
        " byte frame limit".utf8ByteSize = 47 := by decide
    simp only [String.utf8ByteSize_append]
    omega
  have hdigits : (toString length).utf8ByteSize ≤ 4 * 20 :=
    utf8ByteSize_toString_le (by decide) (Nat.lt_of_lt_of_le h (by decide))
  have hdigits' : (toString limit).utf8ByteSize ≤ 4 * 9 :=
    utf8ByteSize_toString_le (by decide) (by decide)
  calc (failureBody (.standIn (Fault.oversized length).reason)).length
    _ ≤ 82 + (Fault.oversized length).reason.utf8ByteSize := (length_failureBody_standIn _).2
    _ = 82 + (47 + ((toString length).utf8ByteSize + (toString limit).utf8ByteSize)) :=
      congrArg (82 + ·) (hreason (toString length) (toString limit))
    _ ≤ 82 + (47 + (4 * 20 + 4 * 9)) := by omega
    _ ≤ limit := by decide

end Frame

/-! ### What the pipe gets

Everything is decided before the first byte is written: what cannot be encoded leaves the pipe as it
was, and what can be encoded is written as a whole.
-/

open Offload.Frame (Fault failureBody failureFrame)

/-- A failure was sent in place of an outcome, and nothing but its frame. -/
structure Worker.Sent (c : Codec α) (outcome : Outcome α) (failure : Failure) (pipe : Pipe) :
    Prop where
  written : pipe.send c outcome = pipe.write (failureFrame failure)
  /-- With a receiver, the pipe holds one frame more, and the exit code tells that it was sent. -/
  delivered : pipe.receiverHeld = true →
    (pipe.send c outcome).2.content = pipe.content ++ Source.ofBytes (failureFrame failure) ∧
      Worker.exitCode (pipe.send c outcome).1 = Worker.exitSent
  /-- Without one, the pipe is left alone, and the exit code tells that the sending failed. -/
  lost : pipe.receiverHeld = false →
    (pipe.send c outcome).2.content = pipe.content ∧
      Worker.exitCode (pipe.send c outcome).1 = Worker.exitSendFailed
  /-- A reader of any type takes the failure from the frame, and the frame only. -/
  reads : ∀ (t : ValueType) (source after : Source) (rest : Bytes),
    Delivers source (failureFrame failure ++ rest) after →
      ∃ source', Frame.read t.codec source = (.ok (some (.failure failure)), source') ∧
        Delivers source' rest after

/-- Nothing was sent of an outcome, and the exit code tells that it cannot be encoded. -/
structure Worker.Unsent (c : Codec α) (outcome : Outcome α) (failure : Failure) (pipe : Pipe) :
    Prop where
  rejected : (pipe.send c outcome).1 = .error (Fault.oversized (failureBody failure).length).toError
  untouched : (pipe.send c outcome).2.content = pipe.content
  exitCode : Worker.exitCode (pipe.send c outcome).1 = Worker.exitEncodeFailed

namespace Worker

section

variable {c : Codec α} {outcome : Outcome α} {fault : Fault}

theorem sent_of_fits (h : Frame.encode c outcome = .error fault)
    (hfits : (failureBody (.standIn fault.reason)).length ≤ Frame.limit) (pipe : Pipe) :
    Sent c outcome (.standIn fault.reason) pipe := by
  have hsend : pipe.send c outcome = pipe.write (failureFrame (.standIn fault.reason)) := by
    simp only [Pipe.send, Frame.encodeOrStandIn, h, Frame.encode_failure]
    rw [if_neg (Nat.not_lt_of_le hfits)]
  refine ⟨hsend, fun hheld ↦ ?_, fun hgone ↦ ?_, fun t source after rest hs ↦
    Frame.read_failureFrame t hfits hs⟩
  · rw [hsend, Pipe.write, if_pos hheld]
    exact ⟨rfl, rfl⟩
  · rw [hsend, Pipe.write, if_neg (by simp [hgone])]
    exact ⟨rfl, rfl⟩

theorem unsent_of_not_fits (h : Frame.encode c outcome = .error fault)
    (hlong : Frame.limit < (failureBody (.standIn fault.reason)).length) (pipe : Pipe) :
    Unsent c outcome (.standIn fault.reason) pipe := by
  have hsend : pipe.send c outcome =
      (.error (Fault.oversized (failureBody (.standIn fault.reason)).length).toError,
        { pipe with senderHeld := false }) := by
    simp only [Pipe.send, Frame.encodeOrStandIn, h, Frame.encode_failure]
    rw [if_pos hlong]
  exact ⟨by rw [hsend], by rw [hsend], by rw [hsend]; rfl⟩

/-- The failure that stands in for an outcome is sent in its place if it fits in a frame, and else
nothing is. Its reason is the one of the value if that refuses. Otherwise the outcome is too long,
and then the failure fits. -/
theorem sent_or_unsent_of_encode_eq_error (h : Frame.encode c outcome = .error fault)
    (pipe : Pipe) :
    let failure : Failure := ⟨.error, "isotask::error::TaskError",
      "outcome could not be encoded: " ++ fault.reason, []⟩
    let length := ((Wire.Outcome.codec c).write outcome).length
    ((failureBody failure).length ≤ Frame.limit → Sent c outcome failure pipe) ∧
      (Frame.limit < (failureBody failure).length → Unsent c outcome failure pipe) ∧
      (∀ reason, (Wire.Outcome.codec c).refusal? outcome = some reason →
        fault = .refused reason) ∧
      ((Wire.Outcome.codec c).refusal? outcome = none → length < 2 ^ 64 →
        fault = .oversized length ∧ (failureBody failure).length ≤ Frame.limit) := by
  refine ⟨fun hfits ↦ sent_of_fits h hfits pipe, fun hlong ↦ unsent_of_not_fits h hlong pipe,
    fun reason hrefuses ↦ ?_, fun hwilling hlength ↦ ?_⟩
  · simp only [Frame.encode, hrefuses] at h
    exact (Except.error.inj h).symm
  · obtain rfl := Frame.eq_oversized_of_encode h hwilling
    exact ⟨rfl, Frame.fits_of_oversized hlength⟩

/-- A list in which one item refuses, and a value that refuses with a reason as long as a frame. -/
theorem sent_or_unsent_of_encode_eq_error_refusals :
    let long := String.ofList (List.replicate Frame.limit 'a')
    Sent ValueType.dynamic.codec (.success (.list [.bool true, .list [.refuses "no"]]))
        (.standIn "Failed to encode outcome: no") {} ∧
      Unsent ValueType.dynamic.codec (.success (.refuses long))
        (.standIn ("Failed to encode outcome: " ++ long)) {} := by
  intro long
  have hlong : Frame.limit ≤ long.utf8ByteSize := by
    simpa only [List.length_replicate] using
      (Frame.utf8ByteSize_ofList (List.replicate Frame.limit 'a')).1
  have hno : Frame.encode ValueType.dynamic.codec
      (.success (.list [.bool true, .list [.refuses "no"]])) = .error (.refused "no") := rfl
  have henormous : Frame.encode ValueType.dynamic.codec (.success (.refuses long)) =
      .error (.refused long) := rfl
  exact ⟨(sent_or_unsent_of_encode_eq_error hno {}).1 (by decide +kernel),
    (sent_or_unsent_of_encode_eq_error henormous {}).2.1 (Frame.not_fits_of_refused hlong)⟩

end

end Worker

end Offload
