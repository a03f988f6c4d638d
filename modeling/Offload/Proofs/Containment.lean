import Offload.Proofs.Lingering
import Offload.Proofs.Paths

/-!
# Workers keep what their function does to themselves

A worker runs code of its caller three times: it calls the function, renders the error that the
function returns, and writes the value that it returns. Only the call is guarded. So a panic leaves
the body of a worker process exactly if rendering or writing panics (`Worker.quiet_iff`).

Where they do not, nothing but the delivery changes the pipe (`deliver_or_kept`), and after it
the worker has nothing left to do but to join threads. Hence a process writes one frame or none, is
never left by a panic, and exits for good once the threads that its function left behind have ended.
A thread sends one outcome.

What becomes of a worker whose function hands over something that panics when it is rendered or
written is not described here. It is left by that panic (`Worker.quiet_iff`), and what the caller's
code does then is not the worker's any more. So the results are about quiet conclusions, and
`not_contained` shows that they need to be.
-/

namespace Offload

open Channel (InProcess Pipe)
open Offload.Frame (reported)
open Wire (Codec)

variable {α : Type} {c : Codec α} {conclusion : Conclusion α} {own : Outcome α} {pipe : Pipe}

/-- Neither rendering nor writing what the function hands over panics. -/
structure Conclusion.Quiet (conclusion : Conclusion α) : Prop where
  renders : ∃ own, conclusion.outcome = .ok own
  writes : conclusion.writingPanic = none

namespace Worker

/-! ### One delivery

The two panics are told apart by what they leave of the outcome. One of them comes while there is
none yet, and the other while there is one and nothing of it has been written. In both cases the
sender is dropped on the way out, so the receiver finds an empty pipe and nobody at its other end.
-/

/-- The body of a process sends the outcome and exits with the code that the sending gives. -/
theorem processBody_of_quiet (ho : conclusion.outcome = .ok own)
    (hw : conclusion.writingPanic = none) :
    processBody c pipe conclusion =
      (.exits (exitCode (pipe.send c own).1), (pipe.send c own).2) := by
  simp only [processBody, ho, hw]

/-- Exactly the panics of rendering and writing leave the body of a worker process. -/
theorem quiet_iff :
    conclusion.Quiet ↔ ∀ payload, (processBody c pipe conclusion).1 ≠ .unwinds payload := by
  constructor
  · rintro ⟨⟨own, ho⟩, hw⟩ payload
    rw [processBody_of_quiet ho hw]
    exact nofun
  · intro h
    cases ho : conclusion.outcome with
    | error payload =>
      refine absurd ?_ (h payload)
      simp only [processBody, ho]
    | ok own =>
      refine ⟨⟨own, ho⟩, Option.eq_none_iff_forall_not_mem.2 fun payload hpayload ↦ h payload ?_⟩
      simp only [processBody, ho, Option.mem_def.1 hpayload]

/-- The pipe holds nothing, or one frame, which carries the outcome or what stands in for it. -/
def HoldsAtMost (c : Codec α) (own : Outcome α) (pipe : Pipe) : Prop :=
  pipe.content = [] ∨
    ∃ frame, Frame.encode c (reported c own) = .ok frame ∧ pipe.content = Source.ofBytes frame

/-- One sending writes at most one frame. -/
theorem holdsAtMost_send (hfresh : pipe.content = []) :
    HoldsAtMost c own (pipe.send c own).2 := by
  rw [Pipe.send, Frame.encodeOrStandIn_eq]
  cases hencode : Frame.encode c (reported c own) with
  | error fault => exact .inl hfresh
  | ok frame =>
    by_cases hheld : pipe.receiverHeld = true
    · refine .inr ⟨frame, hencode, ?_⟩
      simp only [Pipe.write, hheld, if_true, hfresh, List.nil_append]
    · refine .inl ?_
      simp only [Pipe.write, hheld, hfresh]
      rfl

/-- A worker thread hands over the outcome, once. -/
structure HandsOver (conclusion : Conclusion α) (own : Outcome α) : Prop where
  sends : ∀ channel : InProcess α, channel.receiverHeld = true →
    threadBody channel conclusion =
      { channel with pending := channel.pending ++ [own], senderHeld := false }
  delivered : ∀ ended, true ∈ ended →
    Channel.delivered (threadCalls conclusion ended {}).1 = [own]

/-- A thread hands over the outcome of its function if rendering it returns. -/
theorem handsOver_of_outcome (ho : conclusion.outcome = .ok own) : HandsOver conclusion own where
  sends channel hheld := by simp only [threadBody, ho, InProcess.send, hheld, if_true]
  delivered ended hended := by
    rw [threadCalls_eq, Channel.Pipe.delivered_answersTo, if_pos hended, threadAnswer, ho]
    rfl

end Worker

namespace Lingering

variable {s t : Lingering} {move : Move α}

/-! ### One move

None of these lemmas is about panics. They say which moves touch the pipe and the exit code, and
that is one of them; so what holds of the delivery holds of a whole course.
-/

/-- To record a thread changes neither the pipe nor how far the worker is. -/
theorem record_frame (s : Lingering) (thread : Nat) (spawner : Spawner) :
    (s.record thread spawner).pipe = s.pipe ∧
      (s.record thread spawner).stage = (s.setUnrecorded none spawner).stage := by
  have hpipe := (s.setUnrecorded_frame none spawner).2.2.2.1
  rw [record]
  split <;> exact ⟨hpipe, rfl⟩

/-- To note a thread that is still to be recorded unwinds nothing. -/
theorem unwinds_of_setUnrecorded {new : Option Nat} {spawner : Spawner} {payload : Payload}
    (h : (s.setUnrecorded new spawner).stage = .unwinds payload) : s.stage = .unwinds payload := by
  cases spawner with
  | function => cases h
  | thread n => exact h

/-- A worker that takes what the list holds keeps its exit code. -/
theorem stage_take (s : Lingering) (code : Nat) :
    (s.take code).stage = .exits code ∨ (s.take code).stage = .joins code s.recorded := by
  rw [take]
  split
  · exact .inl rfl
  · exact .inr rfl

/-- A move is the delivery, or changes neither the pipe nor what is known of the exit. -/
theorem deliver_or_kept (h : Made c s move t) :
    (∃ conclusion, move = .deliver conclusion ∧ s.stage = .calls none ∧
      t = s.deliver c conclusion) ∨
    t.pipe = s.pipe ∧ t.stage.code? = s.stage.code? ∧
      ∀ payload, t.stage = .unwinds payload → s.stage = .unwinds payload := by
  cases h with
  | begin hstage => exact .inr ⟨rfl, by rw [hstage]; rfl, nofun⟩
  | @spawn spawner hs =>
    exact .inr ⟨(s.setUnrecorded_frame _ spawner).2.2.2.1, code?_setUnrecorded hs _,
      fun _ ↦ unwinds_of_setUnrecorded⟩
  | @record spawner thread hs =>
    obtain ⟨hpipe, hstage⟩ := s.record_frame thread spawner
    exact .inr ⟨hpipe, hstage ▸ code?_setUnrecorded hs _,
      fun _ hunwinds ↦ unwinds_of_setUnrecorded (hstage.symm.trans hunwinds)⟩
  | finish => exact .inr ⟨rfl, rfl, fun _ ↦ id⟩
  | deliver conclusion hstage => exact .inl ⟨conclusion, rfl, hstage, rfl⟩
  | @take code hstage =>
    refine .inr ⟨rfl, ?_, fun payload hunwinds ↦ ?_⟩
    · rcases s.stage_take code with htaken | htaken <;> rw [htaken, hstage] <;> rfl
    · rcases s.stage_take code with htaken | htaken <;> cases htaken.symm.trans hunwinds
  | join hstage => exact .inr ⟨rfl, by rw [hstage]; rfl, nofun⟩

/-- A worker that exits goes on exiting. -/
theorem exits_setUnrecorded {spawner : Spawner} {old : Option Nat}
    (hs : s.unrecorded? spawner = some old) {code : Nat} (hexits : s.stage = .exits code)
    (new : Option Nat) : (s.setUnrecorded new spawner).stage = .exits code := by
  obtain ⟨-, hstage⟩ | ⟨n, rfl, -⟩ := unrecorded?_eq_some_iff.1 hs
  · cases hstage.symm.trans hexits
  · exact hexits

/-- A worker that has come to its exit stays there. -/
theorem exits_of_made (h : Made c s move t) {code : Nat} (hexits : s.stage = .exits code) :
    t.stage = .exits code := by
  cases h with
  | begin hstage | deliver _ hstage | take hstage | join hstage =>
    rw [hstage] at hexits
    cases hexits
  | finish => exact hexits
  | spawn hs => exact exits_setUnrecorded hs hexits _
  | @record spawner thread hs =>
    exact (s.record_frame thread spawner).2.trans (exits_setUnrecorded hs hexits _)

/-! ### Courses

`Underway` has two cases, before the delivery and after it. A course goes from the first to the
second once and never back, which is all that safety needs. That the worker exits is liveness, and
its hypotheses are those of `Lingering.Course.exits`; they stand in the clause for the exit and in
no other.
-/

/-- How far a worker is whose pipe was this one at first. -/
inductive Underway (c : Codec α) (pipe : Pipe) (s : Lingering) : Prop
  | undelivered (hcode : s.stage.code? = none) (hstays : ∀ payload, s.stage ≠ .unwinds payload)
    (hpipe : s.pipe = pipe)
  | delivered {own : Outcome α}
    (hcode : s.stage.code? = some (Worker.exitCode (pipe.send c own).1))
    (hpipe : s.pipe = (pipe.send c own).2)

/-- A worker that is underway is not left by a panic. -/
theorem Underway.stays (h : Underway c pipe s) (payload : Payload) :
    s.stage ≠ .unwinds payload := by
  cases h with
  | undelivered _ hstays => exact hstays payload
  | delivered hcode =>
    intro hstage
    rw [hstage] at hcode
    cases hcode

theorem deliver_of_quiet (ho : conclusion.outcome = .ok own)
    (hw : conclusion.writingPanic = none) :
    (s.deliver c conclusion).stage = .joins (Worker.exitCode (s.pipe.send c own).1) [] ∧
      (s.deliver c conclusion).pipe = (s.pipe.send c own).2 := by
  simp only [deliver, Worker.processBody_of_quiet ho hw, and_self]

/-- A move brings a worker on. -/
theorem Underway.made (h : Underway c pipe s) (hmade : Made c s move t)
    (hquiet : ∀ conclusion, move = .deliver conclusion → conclusion.Quiet) :
    Underway c pipe t := by
  rcases deliver_or_kept hmade with ⟨conclusion, hmove, hstage, rfl⟩ | ⟨hpipe, hcode, hunwinds⟩
  · obtain ⟨⟨own, ho⟩, hw⟩ := hquiet conclusion hmove
    obtain ⟨hjoins, hsent⟩ := deliver_of_quiet (s := s) (c := c) ho hw
    cases h with
    | undelivered _ _ hfirst =>
      rw [hfirst] at hjoins hsent
      exact .delivered (by rw [hjoins]; rfl) hsent
    | delivered hcode =>
      rw [hstage] at hcode
      cases hcode
  · cases h with
    | undelivered hnone hstays hfirst =>
      exact .undelivered (hcode.trans hnone) (fun payload ht ↦ hstays payload (hunwinds payload ht))
        (hpipe.trans hfirst)
    | delivered hsome hsent => exact .delivered (hcode.trans hsome) (hpipe.trans hsent)

section

variable {schedule : Nat → Option (Move α)} {state : Nat → Lingering}

/-- A worker whose deliveries are quiet is underway at every instant. -/
theorem Course.underway (h : Course c schedule state)
    (hquiet : ∀ n conclusion, schedule n = some (.deliver conclusion) → conclusion.Quiet)
    (n : Nat) :
    Underway c (state 0).pipe (state n) := by
  induction n with
  | zero =>
    obtain ⟨pipe, inWorker, inherited, hstart⟩ := h.starts
    exact .undelivered (by rw [hstart]; rfl) (by rw [hstart]; exact nofun) rfl
  | succ n ih =>
    rcases h.eq_or_made n with heq | ⟨move, hmove, hmade⟩
    · exact heq ▸ ih
    · exact ih.made hmade fun conclusion hdeliver ↦ hquiet n conclusion (hdeliver ▸ hmove)

/-- The delivery is made by a function that has come to its end. -/
theorem Course.stage_of_deliver (h : Course c schedule state) {n : Nat}
    (hdeliver : schedule n = some (.deliver conclusion)) :
    (state n).stage = .calls none ∧ state (n + 1) = (state n).deliver c conclusion := by
  have hmade := made_of_step (h.moves n _ hdeliver)
  generalize state (n + 1) = t at hmade ⊢
  cases hmade with
  | deliver _ hstage => exact ⟨hstage, rfl⟩

/-- After the delivery the pipe and the exit code stay as they are. -/
theorem delivered_of_made (hmade : Made c s move t) {code : Nat}
    (h : s.stage.code? = some code ∧ s.pipe = pipe) :
    t.stage.code? = some code ∧ t.pipe = pipe := by
  rcases deliver_or_kept hmade with ⟨-, -, hstage, -⟩ | ⟨hpipe, hcode, -⟩
  · rw [hstage] at h
    cases h.1
  · exact ⟨hcode.trans h.1, hpipe.trans h.2⟩

/-- What was delivered decides the pipe and the exit code from then on. -/
theorem Course.delivered (h : Course c schedule state)
    (hquiet : ∀ n conclusion, schedule n = some (.deliver conclusion) → conclusion.Quiet)
    {m n : Nat} (hmn : m < n) (hdeliver : schedule m = some (.deliver conclusion)) :
    ∃ own, conclusion.outcome = .ok own ∧
      (state n).stage.code? = some (Worker.exitCode ((state 0).pipe.send c own).1) ∧
      (state n).pipe = ((state 0).pipe.send c own).2 := by
  obtain ⟨⟨own, ho⟩, hw⟩ := hquiet m conclusion hdeliver
  obtain ⟨hcalls, hnext⟩ := h.stage_of_deliver hdeliver
  have hfirst : (state m).pipe = (state 0).pipe := by
    cases h.underway hquiet m with
    | undelivered _ _ hpipe => exact hpipe
    | delivered hcode =>
      rw [hcalls] at hcode
      cases hcode
  obtain ⟨hjoins, hsent⟩ := deliver_of_quiet (s := state m) (c := c) ho hw
  rw [hfirst] at hjoins hsent
  exact ⟨own, ho, h.kept (fun hmade ↦ delivered_of_made hmade) hmn
    ⟨by rw [hnext, hjoins]; rfl, by rw [hnext, hsent]⟩⟩

/-- There is no delivery after a delivery. -/
theorem Course.le_of_deliver (h : Course c schedule state)
    (hquiet : ∀ n conclusion, schedule n = some (.deliver conclusion) → conclusion.Quiet)
    {m n : Nat} {conclusion' : Conclusion α} (hm : schedule m = some (.deliver conclusion))
    (hn : schedule n = some (.deliver conclusion')) : n ≤ m := by
  refine Nat.not_lt.1 fun hlt ↦ ?_
  obtain ⟨own, -, hcode, -⟩ := h.delivered hquiet hlt hm
  rw [(h.stage_of_deliver hn).1] at hcode
  cases hcode

/-- A worker process that keeps what its function does to itself. -/
structure Contained (c : Codec α) (schedule : Nat → Option (Move α)) (state : Nat → Lingering) :
    Prop where
  /-- No panic goes on into the code of the caller. -/
  stays : ∀ n payload, (state n).stage ≠ .unwinds payload
  /-- The worker delivers once. -/
  once : ∀ m n conclusion conclusion', schedule m = some (.deliver conclusion) →
    schedule n = some (.deliver conclusion') → m = n
  /-- Nothing is written before. -/
  unsent : ∀ n, (∀ m conclusion, m < n → schedule m ≠ some (.deliver conclusion)) →
    (state n).pipe.content = []
  /-- From then on the pipe holds one frame at most. -/
  sent : ∀ m n conclusion, m < n → schedule m = some (.deliver conclusion) →
    ∃ own, conclusion.outcome = .ok own ∧ Worker.HoldsAtMost c own (state n).pipe
  /-- Then the worker exits, if there is an end of new threads, each thread ends, and it gets its
  turns. -/
  exits : Bounded state → EachEnds state → GetsTurns c schedule state → ∀ n conclusion,
    schedule n = some (.deliver conclusion) → ∃ m code, n < m ∧ (state m).stage = .exits code
  /-- That is final. -/
  final : ∀ m n code, m ≤ n → (state m).stage = .exits code → (state n).stage = .exits code

/-- A worker process whose function hands over what panics neither when it is rendered nor when it
is written keeps all of it to itself, and so does a worker thread. -/
theorem contained_of_course (h : Course c schedule state) (hfresh : (state 0).pipe.content = [])
    (hquiet : ∀ n conclusion, schedule n = some (.deliver conclusion) → conclusion.Quiet) :
    Contained c schedule state ∧ ∀ (conclusion : Conclusion α) (own : Outcome α),
      conclusion.outcome = .ok own → Worker.HandsOver conclusion own := by
  refine ⟨⟨fun n ↦ (h.underway hquiet n).stays, fun m n conclusion conclusion' hm hn ↦ ?_,
    fun n hnone ↦ ?_, fun m n conclusion hmn hm ↦ ?_,
    fun hbounded hends hturns n conclusion hn ↦ ?_,
    fun m n code hmn ↦ h.kept (fun hmade ↦ exits_of_made hmade) hmn⟩,
    fun conclusion own ↦ Worker.handsOver_of_outcome⟩
  · exact Nat.le_antisymm (h.le_of_deliver hquiet hn hm) (h.le_of_deliver hquiet hm hn)
  · cases h.underway hquiet n with
    | undelivered _ _ hpipe => rw [hpipe, hfresh]
    | delivered hcode =>
      obtain ⟨m, conclusion, hm, hdeliver, -⟩ := h.sent hcode
      exact absurd hdeliver (hnone m conclusion hm)
  · obtain ⟨own, ho, -, hpipe⟩ := h.delivered hquiet hmn hm
    exact ⟨own, ho, hpipe ▸ Worker.holdsAtMost_send hfresh⟩
  · obtain ⟨own, -, hcode, -⟩ := h.delivered hquiet (Nat.lt_succ_self n) hn
    obtain ⟨m, hm, hexits⟩ := h.exits hbounded hends hturns hcode
    exact ⟨m, _, hm, hexits⟩

end

/-- The function leaves a thread behind and returns an error. -/
theorem contained_of_course_error :
    let moves : List (Move Bool) := [.begin, .spawn .function, .record .function,
      .deliver (.errs "E" (.ok "m")), .finish 0, .take, .join, .take]
    ∃ state, Course .bool (fun n ↦ moves[n]?) state ∧ (state 0).pipe.content = [] ∧
      (∀ (n : Nat) (conclusion : Conclusion Bool), moves[n]? = some (.deliver conclusion) →
        conclusion.Quiet) ∧
      Contained .bool (fun n ↦ moves[n]?) state ∧
      Worker.HandsOver (.errs "E" (.ok "m") : Conclusion Bool) (.failure (.ofError "E" "m")) ∧
      (state moves.length).stage = .exits 0 ∧ (state moves.length).pipe.content ≠ [] := by
  intro moves
  obtain ⟨s, hrun, hstage, hpipe⟩ : ∃ s, run .bool moves (.forked {} true [3]) = some s ∧
      s.stage = .exits 0 ∧ s.pipe.content.isEmpty = false := ⟨_, rfl, rfl, rfl⟩
  obtain ⟨state, hcourse, hstart, hrest⟩ := Course.of_run_start hrun
  have hfresh : (state 0).pipe.content = [] := by rw [hstart]; rfl
  have hquiet (n : Nat) (conclusion : Conclusion Bool)
      (hn : moves[n]? = some (.deliver conclusion)) : conclusion.Quiet := by
    have hmem := List.mem_of_getElem? hn
    simp only [moves, List.mem_cons, reduceCtorEq, Move.deliver.injEq, List.not_mem_nil, or_false,
      false_or] at hmem
    rw [hmem]
    exact ⟨⟨_, rfl⟩, rfl⟩
  obtain ⟨hcontained, hthread⟩ := contained_of_course hcourse hfresh hquiet
  have hend := hrest _ (Nat.le_refl _)
  refine ⟨state, hcourse, hfresh, hquiet, hcontained, hthread _ _ rfl, hend ▸ hstage, fun hnil ↦ ?_⟩
  rw [hend] at hnil
  rw [hnil] at hpipe
  cases hpipe

/-- A worker does not come to its exit while a thread runs that its function left behind. And a
panic of rendering an error or of writing a value leaves the body of a worker process, and the first
of them leaves a worker thread without an outcome. -/
theorem not_contained :
    (let moves : List (Move Bool) := [.begin, .spawn .function, .record .function,
        .deliver (.returns true), .take]
      ∃ state, Course .bool (fun n ↦ moves[n]?) state ∧ (state 0).pipe.content = [] ∧
        GetsTurns .bool (fun n ↦ moves[n]?) state ∧ ∀ n code, (state n).stage ≠ .exits code) ∧
    (∃ s : Lingering, run .bool [.begin, .deliver (.errs "E" (.error (.text "p")))]
      (.forked {} false []) = some s ∧ s.stage = .unwinds (.text "p")) ∧
    (∃ s : Lingering, run .bool [.begin, .deliver (.returns true (some (.text "p")))]
      (.forked {} false []) = some s ∧ s.stage = .unwinds (.text "p")) ∧
    (Worker.threadBody {} (.errs "E" (.error (.text "p")) : Conclusion Bool)).pending = [] := by
  refine ⟨?_, ⟨_, rfl, rfl⟩, ⟨_, rfl, rfl⟩, rfl⟩
  intro moves
  obtain ⟨s, hrun, hstage, hthreads⟩ : ∃ s, run .bool moves (.forked {} false []) = some s ∧
      s.stage = .joins 0 [.own 0] ∧ s.threads = [.runs none] := ⟨_, rfl, rfl, rfl⟩
  obtain ⟨state, hcourse, hstart, hrest⟩ := Course.of_run_start hrun
  refine ⟨state, hcourse, by rw [hstart]; rfl, fun n ↦ ?_, fun n code hexits ↦ ?_⟩
  · refine ⟨max n moves.length, Nat.le_max_left .., .inr (.inr ?_)⟩
    rw [hrest _ (Nat.le_max_right ..)]
    simp [step, hstage, isEnded, hthreads]
  · have hlate := hcourse.kept (fun hmade ↦ exits_of_made hmade) (Nat.le_max_left n moves.length)
      hexits
    rw [hrest _ (Nat.le_max_right ..)] at hlate
    cases hstage.symm.trans hlate

end Lingering

end Offload
