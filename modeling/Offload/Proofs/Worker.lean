import Offload.Proofs.Frame.Reported
import Offload.Proofs.Pipe
import Offload.Proofs.Watch
import Offload.Worker.Body

/-!
# From a function in a worker process to its handle

A worker process runs the function, sends what there is to report, and is gone; its watch asks the
receiver of the pipe until that has an answer. What becomes of the call is decided by the one answer
that the sent bytes stand for (`Worker.answer`), whatever pieces they come in, whenever the watch
asks, and whatever callbacks are registered in between. On an outcome the call is *settled*: the
watch publishes it and gives the slot back. On a loss the call is *lost*: the handle stays
incomplete and the slot taken for good.

`settles_iff_carries` says which it is. A function's outcome, or the failure that stands in for one
that cannot be encoded, settles the call if it can be carried, and otherwise the call is lost. The
worker itself sees nothing of that: what it sends was encoded, and it exits as one that has sent its
outcome.

The work is done by the answer. A run of a watch depends on the bytes in the pipe only through it,
so the many ways in which they may arrive do not come into the theorems about the course of a call.
-/

namespace Offload

open Channel (Answer Loss delivered)
open Channel.Pipe (Receiver answersTo firstAnswer)
open Offload.Frame (Carries reported)
open Source (Delivers)
open Wire (Bytes Codec Nest ValueType)

/-! ### Watching a receiver that answers once

Whatever the chunks in which a frame arrives, a receiver answers "nothing yet" until it finds the
pipe readable, and then answers once. So the arrivals of a watch are described by when it asks and
when callbacks come, and the answer is a parameter.
-/

namespace Watch

variable {α κ : Type}

/-- The answers among the arrivals. -/
def answersOf (arrivals : List (Arrival α κ)) : List (Answer α) :=
  arrivals.filterMap fun
    | .registers .. => none
    | .answers answer => some answer

/-- Before the one answer of a receiver, a watch meets what keeps it waiting. -/
theorem exists_waiting {first : Answer α} {polls : List Bool} (hpolls : true ∈ polls)
    {arrivals : List (Arrival α κ)} (h : answersOf arrivals = answersTo first polls) :
    ∃ waiting rest, (∀ a ∈ waiting, a.waits = true) ∧
      arrivals = waiting ++ .answers first :: rest := by
  induction arrivals generalizing polls with
  | nil =>
    cases polls with
    | nil => cases hpolls
    | cons isReadable polls => cases isReadable <;> cases h
  | cons a arrivals ih =>
    cases a with
    | registers kind callback =>
      obtain ⟨waiting, rest, hw, rfl⟩ := ih hpolls h
      exact ⟨.registers kind callback :: waiting, rest, List.forall_mem_cons.2 ⟨rfl, hw⟩, rfl⟩
    | answers answer =>
      have hcons : answer :: answersOf arrivals = answersTo first polls := h
      match polls, hpolls with
      | true :: polls, _ =>
        obtain ⟨rfl, -⟩ := List.cons_eq_cons.1 hcons
        exact ⟨[], arrivals, nofun, rfl⟩
      | false :: polls, hpolls =>
        obtain ⟨rfl, hrest⟩ := List.cons_eq_cons.1 hcons
        obtain ⟨waiting, rest, hw, rfl⟩ := ih (by simpa using hpolls) hrest
        exact ⟨.answers (.ok none) :: waiting, rest, List.forall_mem_cons.2 ⟨rfl, hw⟩, rfl⟩

section

variable (panics : κ → Bool) (settings : Settings) (alive : Bool) (report : Option Report)
  (identity : Identity) (pid : Option Nat) (limiter : Limiter) {polls : List Bool}
  (hpolls : true ∈ polls) {arrivals : List (Arrival α κ)}

include hpolls

/-- A watch that gets an outcome publishes it and gives the slot back, once. -/
theorem finished_of_answersOf {outcome : Outcome α}
    (h : answersOf arrivals = answersTo (.ok (some outcome)) polls) :
    ∃ handle effects, run panics settings { alive, report } arrivals
        { handle := .new identity pid, limiter } =
          (.finished, { handle, limiter := limiter.release identity, effects }) ∧
      handle.settled = some outcome ∧ releases effects = 1 := by
  obtain ⟨waiting, rest, hw, rfl⟩ := exists_waiting hpolls h
  refine ⟨_, _, run_outcome panics settings alive report limiter rest hw identity pid outcome,
    rfl, ?_⟩
  rw [releases_append, releases_questions, Nat.zero_add]
  exact releases_settling settings alive report outcome _ _ _

/-- A watch that gets a loss leaves the handle incomplete and the slot taken. -/
theorem lost_of_answersOf (worker : Worker κ) {loss : Loss}
    (h : answersOf arrivals = answersTo (.error loss) polls) :
    ∃ handle effects, run panics settings worker arrivals
        { handle := .new identity pid, limiter } = (.lost, { handle, limiter, effects }) ∧
      handle.settled = none ∧ releases effects = 0 := by
  obtain ⟨waiting, rest, hw, rfl⟩ := exists_waiting hpolls h
  refine ⟨_, _, run_loss panics settings limiter rest hw identity pid worker loss,
    (withCallbacks_new waiting identity pid).1, ?_⟩
  rw [releases_append, releases_questions]
  rfl

end

end Watch

namespace Worker

variable {t : ValueType} {conclusion : Conclusion t.Value} {own outcome : Outcome t.Value}

/-! ### What a worker process sends

A conclusion may panic at two points, where the error is rendered and where the value is written.
Behind each of them nothing is sent. Otherwise what is sent is a frame or nothing, by the codec
alone.
-/

/-- The bytes that a worker process sends, if it is not killed and its writes succeed. -/
def sent (t : ValueType) (conclusion : Conclusion t.Value) : Bytes :=
  (processBody t.codec {} conclusion).2.content.bytes

/-- The one answer of the receiver of a worker process. -/
def answer (t : ValueType) (conclusion : Conclusion t.Value) : Answer t.Value :=
  firstAnswer t.codec (sent t conclusion)

/-- If making the outcome panics, the worker unwinds and nothing is sent. -/
theorem processBody_of_error {payload : Payload} (h : conclusion.outcome = .error payload) :
    processBody t.codec {} conclusion = (.unwinds payload, { senderHeld := false }) := by
  simp only [processBody, h]

/-- If writing the outcome panics, the worker unwinds and nothing is sent. -/
theorem processBody_of_writingPanic {payload : Payload} (ho : conclusion.outcome = .ok own)
    (hw : conclusion.writingPanic = some payload) :
    processBody t.codec {} conclusion = (.unwinds payload, { senderHeld := false }) := by
  simp only [processBody, ho, hw]

/-- What can be encoded is sent as its frame, and the worker exits as one that has sent it. -/
theorem processBody_of_encode {frame : Bytes} (ho : conclusion.outcome = .ok own)
    (hw : conclusion.writingPanic = none)
    (h : Frame.encode t.codec (reported t.codec own) = .ok frame) :
    processBody t.codec {} conclusion =
      (.exits exitSent, { content := Source.ofBytes frame, senderHeld := false }) := by
  simp only [processBody, ho, hw, Channel.Pipe.send, Frame.encodeOrStandIn_eq, h]
  rfl

/-- If the stand-in cannot be encoded either, nothing is sent and the worker exits with an error. -/
theorem processBody_of_fault {fault : Frame.Fault} (ho : conclusion.outcome = .ok own)
    (hw : conclusion.writingPanic = none)
    (h : Frame.encode t.codec (reported t.codec own) = .error fault) :
    processBody t.codec {} conclusion = (.exits exitEncodeFailed, { senderHeld := false }) := by
  simp only [processBody, ho, hw, Channel.Pipe.send, Frame.encodeOrStandIn_eq, h]
  rfl

/-! ### The one answer

A frame of a worker is the only content of its pipe, and the worker is gone behind it. The answer is
then read off the body, and it is an outcome just if the body can be read.
-/

/-- A receiver to whom nothing was sent finds nobody there. -/
theorem answer_of_sent_nil (h : sent t conclusion = []) :
    answer t conclusion = .error .disconnected := by
  rw [answer, h]
  rfl

/-- The panic of rendering an error leaves nothing to answer. -/
theorem answer_of_error {payload : Payload} (h : conclusion.outcome = .error payload) :
    answer t conclusion = .error .disconnected :=
  answer_of_sent_nil (by rw [sent, processBody_of_error h]; rfl)

/-- The panic of writing a value leaves nothing to answer. -/
theorem answer_of_writingPanic {payload : Payload} (ho : conclusion.outcome = .ok own)
    (hw : conclusion.writingPanic = some payload) :
    answer t conclusion = .error .disconnected :=
  answer_of_sent_nil (by rw [sent, processBody_of_writingPanic ho hw]; rfl)

/-- What was sent as a frame is answered as what its body is read as. -/
theorem answer_of_encode {frame : Bytes} (ho : conclusion.outcome = .ok own)
    (hw : conclusion.writingPanic = none)
    (h : Frame.encode t.codec (reported t.codec own) = .ok frame) :
    answer t conclusion =
      Channel.Pipe.ofRead (Frame.ofBody t.codec (Frame.body t (reported t.codec own))) := by
  rw [answer, sent, processBody_of_encode ho hw h, Source.bytes_ofBytes]
  exact Channel.Pipe.firstAnswer_of_encode h

/-- A report that can be carried is the answer. -/
theorem answer_of_carries (ho : conclusion.outcome = .ok own)
    (hw : conclusion.writingPanic = none) (h : Carries t (reported t.codec own)) :
    answer t conclusion = .ok (some (reported t.codec own)) := by
  rw [answer_of_encode ho hw (Frame.encode_eq h), Frame.ofBody_body h]
  rfl

/-- Without a report that was encoded there is nothing to answer. -/
theorem answer_of_fault (ho : conclusion.outcome = .ok own) {fault : Frame.Fault}
    (h : Frame.encode t.codec (reported t.codec own) = .error fault) :
    answer t conclusion = .error .disconnected := by
  cases hw : conclusion.writingPanic with
  | none => exact answer_of_sent_nil (by rw [sent, processBody_of_fault ho hw h]; rfl)
  | some payload => exact answer_of_writingPanic ho hw

/-- A report is the answer only if it can be carried. -/
theorem carries_of_answer (ho : conclusion.outcome = .ok own)
    (h : answer t conclusion = .ok (some (reported t.codec own))) :
    conclusion.writingPanic = none ∧ Carries t (reported t.codec own) := by
  cases hw : conclusion.writingPanic with
  | some payload =>
    rw [answer_of_writingPanic ho hw] at h
    cases h
  | none =>
    refine ⟨rfl, ?_⟩
    cases hencode : Frame.encode t.codec (reported t.codec own) with
    | error fault =>
      rw [answer_of_fault ho hencode] at h
      cases h
    | ok frame =>
      rw [answer_of_encode ho hw hencode, Channel.Pipe.ofRead_ofBody] at h
      split at h
      · next outcome hread =>
        cases h
        exact Frame.carries_iff.2 ⟨(Frame.encode_eq_ok_iff.1 hencode).2.1, hread⟩
      · cases h

/-- Where no report can be carried, the answer is a loss. -/
theorem answer_eq_loss
    (hproper : ∀ value, conclusion.outcome = .ok (.success value) → t.Proper value)
    (h : ∀ own, conclusion.outcome = .ok own → conclusion.writingPanic = none →
      ¬ Carries t (reported t.codec own)) : ∃ loss, answer t conclusion = .error loss := by
  cases ho : conclusion.outcome with
  | error payload => exact ⟨_, answer_of_error ho⟩
  | ok own =>
    cases hw : conclusion.writingPanic with
    | some payload => exact ⟨_, answer_of_writingPanic ho hw⟩
    | none =>
      cases hencode : Frame.encode t.codec (reported t.codec own) with
      | error fault => exact ⟨_, answer_of_fault ho hencode⟩
      | ok frame =>
        obtain ⟨hrefusal, hfits, -⟩ := Frame.encode_eq_ok_iff.1 hencode
        have hproper' : ∀ value, reported t.codec own = .success value → t.Proper value :=
          fun value hvalue ↦ hproper value (by rw [ho, Frame.eq_of_reported hvalue])
        have hread := Frame.readBody_of_not_carries hfits hrefusal hproper' (h own ho hw)
        exact ⟨_, by rw [answer_of_encode ho hw hencode, Channel.Pipe.ofRead_ofBody, hread]⟩

/-! ### The end of the call

The two ends are stated as what a caller finds: the handle, the slot, and how the watch ended. One
of them comes, and never both.
-/

/-- A call that is settled with an outcome: whenever its receiver is asked, it delivers the outcome
and nothing else, and the watch ends by itself, with the outcome on the handle and the slot given
back once. -/
structure Settles (t : ValueType) (conclusion : Conclusion t.Value) (outcome : Outcome t.Value) :
    Prop where
  delivers : ∀ source, Delivers source (sent t conclusion) [] → ∀ polls, true ∈ polls →
    delivered (Receiver.calls t.codec polls {} source).1 = [outcome]
  finishes : ∀ source, Delivers source (sent t conclusion) [] → ∀ polls, true ∈ polls →
    ∀ (κ : Type) (panics : κ → Bool) settings alive report identity pid limiter arrivals,
      Watch.answersOf arrivals = (Receiver.calls t.codec polls {} source).1 →
      ∃ handle effects, Watch.run panics settings { alive, report } arrivals
          { handle := .new identity (some pid), limiter } =
            (.finished, { handle, limiter := limiter.release identity, effects }) ∧
        handle.settled = some outcome ∧ Watch.releases effects = 1

/-- A call that is lost: its receiver delivers no outcome, and the watch ends with an incomplete
handle and without giving the slot back. -/
structure Loses (t : ValueType) (conclusion : Conclusion t.Value) : Prop where
  delivers : ∀ source, Delivers source (sent t conclusion) [] → ∀ polls,
    delivered (Receiver.calls t.codec polls {} source).1 = []
  loses : ∀ source, Delivers source (sent t conclusion) [] → ∀ polls, true ∈ polls →
    ∀ (κ : Type) (panics : κ → Bool) settings worker identity pid limiter arrivals,
      Watch.answersOf arrivals = (Receiver.calls t.codec polls {} source).1 →
      ∃ handle effects, Watch.run panics settings worker arrivals
          { handle := .new identity (some pid), limiter } =
            (.lost, { handle, limiter, effects }) ∧
        handle.settled = none ∧ Watch.releases effects = 0

/-- A call is settled by an outcome just if the receiver answers with it. -/
theorem settles_iff_answer :
    Settles t conclusion outcome ↔ answer t conclusion = .ok (some outcome) := by
  constructor
  · intro h
    have hs := Source.delivers_ofBytes (sent t conclusion)
    obtain ⟨source', -, hcalls⟩ := Channel.Pipe.calls_of_delivers (c := t.codec) hs
    have hdelivered := h.delivers _ hs [true] (by decide)
    rw [hcalls, Channel.Pipe.delivered_answersTo, if_pos (by decide)] at hdelivered
    exact Channel.delivered_singleton_iff.1 hdelivered
  · intro h
    refine ⟨fun source hs polls hpolls ↦ ?_, fun source hs polls hpolls κ panics settings alive
      report identity pid limiter arrivals harrivals ↦ ?_⟩
    · obtain ⟨source', -, hcalls⟩ := Channel.Pipe.calls_of_delivers (c := t.codec) hs
      rw [hcalls, Channel.Pipe.delivered_answersTo, if_pos hpolls]
      exact Channel.delivered_singleton_iff.2 h
    · obtain ⟨source', -, hcalls⟩ := Channel.Pipe.calls_of_delivers (c := t.codec) hs
      rw [hcalls, ← answer, h] at harrivals
      exact Watch.finished_of_answersOf panics settings alive report identity (some pid) limiter
        hpolls harrivals

theorem loses_of_answer {loss : Loss} (h : answer t conclusion = .error loss) :
    Loses t conclusion := by
  refine ⟨fun source hs polls ↦ ?_, fun source hs polls hpolls κ panics settings worker identity
    pid limiter arrivals harrivals ↦ ?_⟩
  · obtain ⟨source', -, hcalls⟩ := Channel.Pipe.calls_of_delivers (c := t.codec) hs
    rw [hcalls, Channel.Pipe.delivered_answersTo, ← answer, h]
    exact ite_self _
  · obtain ⟨source', -, hcalls⟩ := Channel.Pipe.calls_of_delivers (c := t.codec) hs
    rw [hcalls, ← answer, h] at harrivals
    exact Watch.lost_of_answersOf panics settings identity (some pid) limiter hpolls worker
      harrivals

theorem Loses.not_settles (h : Loses t conclusion) : ¬ Settles t conclusion outcome := by
  intro hsettles
  have hs := Source.delivers_ofBytes (sent t conclusion)
  have hdelivered := hsettles.delivers _ hs [true] (by decide)
  rw [h.delivers _ hs] at hdelivered
  cases hdelivered

/-- A call is settled with what its worker reports, the function's own outcome or the failure that
stands in for it, just if nothing panics while it is written and it can be carried: its body fits a
frame, and its value nests no deeper than is read. Every other call is lost. -/
theorem settles_iff_carries (t : ValueType) (conclusion : Conclusion t.Value) :
    (∀ own, conclusion.outcome = .ok own →
      (Settles t conclusion (reported t.codec own) ↔
        conclusion.writingPanic = none ∧ Carries t (reported t.codec own))) ∧
    ((∀ value, conclusion.outcome = .ok (.success value) → t.Proper value) →
      (∀ own, conclusion.outcome = .ok own → ¬ Settles t conclusion (reported t.codec own)) →
      Loses t conclusion) := by
  have hiff : ∀ own, conclusion.outcome = .ok own →
      (Settles t conclusion (reported t.codec own) ↔
        conclusion.writingPanic = none ∧ Carries t (reported t.codec own)) := fun own ho ↦
    settles_iff_answer.trans ⟨carries_of_answer ho, fun h ↦ answer_of_carries ho h.1 h.2⟩
  refine ⟨hiff, fun hproper h ↦ ?_⟩
  obtain ⟨loss, hloss⟩ := answer_eq_loss hproper fun own ho hw hcarries ↦
    h own ho ((hiff own ho).2 ⟨hw, hcarries⟩)
  exact loses_of_answer hloss

/-- A nest of as many brackets as there are levels settles its call, and so does the failure that
stands in for a value that refuses. -/
theorem settles_iff_carries_deepest :
    Settles .nest (.returns (Nest.line 1022)) (.success (Nest.line 1022)) ∧
      Settles .dynamic (.returns (.refuses "no"))
        (.failure (.standIn "Failed to encode outcome: no")) := by
  have hline : Carries .nest (.success (Nest.line 1022)) := by
    refine ⟨?_, fun value hvalue ↦ ?_, fun value hvalue ↦ trivial⟩
    · rw [Frame.length_body_line]
      decide
    · cases hvalue
      exact Nat.le_of_eq (Nest.height_line 1022)
  have hstandIn : Carries .dynamic (.failure (.standIn "Failed to encode outcome: no")) :=
    Frame.carries_failure (by decide +kernel)
  constructor
  · have hsettles := ((settles_iff_carries .nest (.returns (Nest.line 1022))).1 _ rfl).2
    rw [Frame.reported_of_carries hline] at hsettles
    exact hsettles ⟨rfl, hline⟩
  · exact ((settles_iff_carries .dynamic (.returns (.refuses "no"))).1 _ rfl).2 ⟨rfl, hstandIn⟩

/-- A line of more brackets than there are levels is encoded and sent, by a worker that exits as one
that has sent its outcome, and the call is lost. -/
theorem loses_line {n : Nat} (hn : Wire.levelLimit ≤ n) (hfits : n + 10 ≤ Frame.limit) :
    (processBody ValueType.nest.codec {} (.returns (Nest.line n))).1 = .exits exitSent ∧
      Loses .nest (.returns (Nest.line n)) := by
  have hbody : (Frame.body .nest (.success (Nest.line n))).length ≤ Frame.limit := by
    rwa [Frame.length_body_line]
  obtain ⟨frame, hencode⟩ : ∃ frame,
      Frame.encode ValueType.nest.codec (.success (Nest.line n)) = .ok frame :=
    ⟨_, Frame.encode_eq_ok_iff.2 ⟨rfl, hbody, rfl⟩⟩
  have hreported : reported ValueType.nest.codec (.success (Nest.line n)) =
      .success (Nest.line n) := by
    rw [reported, hencode]
  have hnot : ¬ Carries .nest (.success (Nest.line n)) := fun h ↦ by
    have hnests : (Nest.line n).height ≤ Wire.levelLimit := h.nests _ rfl
    rw [Nest.height_line] at hnests
    omega
  constructor
  · rw [processBody_of_encode rfl rfl (by rw [hreported, hencode])]
  · obtain ⟨loss, hloss⟩ : ∃ loss, answer .nest (.returns (Nest.line n)) = .error loss := by
      refine answer_eq_loss (fun _ _ ↦ trivial) fun own ho _ hcarries ↦ hnot ?_
      cases ho
      rwa [hreported] at hcarries
    exact loses_of_answer hloss

/-- One bracket more than in the deepest nest that is read. -/
theorem loses_one_bracket_more :
    (processBody ValueType.nest.codec {} (.returns (Nest.line 1023))).1 = .exits exitSent ∧
      Loses .nest (.returns (Nest.line 1023)) ∧
      ∀ outcome, ¬ Settles .nest (.returns (Nest.line 1023)) outcome := by
  obtain ⟨hexits, hloses⟩ := loses_line (n := 1023) (Nat.le_refl _) (by decide)
  exact ⟨hexits, hloses, fun _ ↦ hloses.not_settles⟩

end Worker

end Offload
