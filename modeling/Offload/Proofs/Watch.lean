import Offload.Watch
import Offload.Proofs.Handle
import Mathlib.Data.List.Basic

/-!
# The course of a watch

What `Watch.run` does, from its first question to its end, as one list of effects.

A watch of an incomplete handle goes on through every callback that is registered and every answer
"nothing yet" (`run_waiting`): callbacks only fill their places, and each answer is one question.
The first other answer is the last one that it asks for, and decides the rest:

* an outcome is published, the worker is stopped if that is asked for and it is alive, the callback
  is run, the slot is given back and the worker reaped (`finish_of_incomplete`);
* a loss is followed by the reaping alone.

Neither `finish_of_incomplete` nor `run_waiting` looks at which callbacks panic: a kept callback
does not run, and the panic of a fired one goes no further.

The list of effects is the order in which a caller could see things happen, and each effect carries
what could be seen at that moment: a callback is listed with the state, the count and the report
that it finds. So a statement about the order is one about the list, and nothing has to be said
about time.
-/

namespace Offload

variable {α κ : Type}

namespace Watch

/-! ### Before the outcome -/

/-- An arrival that keeps a watch waiting: a callback, or the answer "nothing yet". -/
def Arrival.waits : Arrival α κ → Bool
  | .registers .. | .answers (.ok none) => true
  | _ => false

/-- Whether an arrival is an answer, for which the receiver was asked. -/
def Arrival.isAnswer : Arrival α κ → Bool
  | .registers .. => false
  | .answers _ => true

/-- An incomplete handle once the callbacks among the arrivals are registered. -/
def withCallbacks : List (Arrival α κ) → Handle α κ → Handle α κ
  | [], h => h
  | .registers kind callback :: rest, h => withCallbacks rest (h.setSlot kind callback)
  | .answers _ :: rest, h => withCallbacks rest h

/-- The questions behind the answers among the arrivals. -/
def questions (settings : Settings) (arrivals : List (Arrival α κ)) : List (Effect α κ) :=
  List.replicate (arrivals.countP Arrival.isAnswer) (.asked settings.pollInterval)

/-- What a watch of an incomplete handle comes to while it waits. -/
def State.afterWaiting (settings : Settings) (waiting : List (Arrival α κ)) (s : State α κ) :
    State α κ :=
  { s with
    handle := withCallbacks waiting s.handle
    effects := s.effects ++ questions settings waiting }

/-- Callbacks change the places for callbacks and nothing else. -/
theorem withCallbacks_frame (arrivals : List (Arrival α κ)) (h : Handle α κ) :
    (withCallbacks arrivals h).settled = h.settled ∧
      (withCallbacks arrivals h).identity = h.identity ∧
      (withCallbacks arrivals h).replaced = h.replaced ∧
      (withCallbacks arrivals h).termination = h.termination := by
  induction arrivals generalizing h with
  | nil => exact ⟨rfl, rfl, rfl, rfl⟩
  | cons a rest ih =>
    cases a with
    | registers kind callback =>
      obtain ⟨hs, hi, hr, ht⟩ := ih (h.setSlot kind callback)
      simp_all [withCallbacks]
    | answers answer => exact ih h

/-- Without callbacks among the arrivals the handle stays as it is. -/
theorem withCallbacks_of_isAnswer {arrivals : List (Arrival α κ)}
    (ha : ∀ a ∈ arrivals, a.isAnswer = true) (h : Handle α κ) :
    withCallbacks arrivals h = h := by
  induction arrivals with
  | nil => rfl
  | cons a rest ih =>
    cases a with
    | registers kind callback =>
      exact absurd (ha _ List.mem_cons_self) (by simp [Arrival.isAnswer])
    | answers answer => exact ih fun b hb ↦ ha b (List.mem_cons_of_mem _ hb)

/-- A watch goes on through all that keeps it waiting, where callbacks come to an incomplete
handle only: each answer is a question more, and a callback fills its place. -/
theorem run_waiting (panics : κ → Bool) (settings : Settings) (worker : Worker κ)
    {waiting : List (Arrival α κ)} (hw : ∀ a ∈ waiting, a.waits = true)
    (rest : List (Arrival α κ)) {s : State α κ}
    (hs : s.handle.settled = none ∨ ∀ a ∈ waiting, a.isAnswer = true) :
    run panics settings worker (waiting ++ rest) s =
      run panics settings worker rest (s.afterWaiting settings waiting) := by
  induction waiting generalizing s with
  | nil => simp [State.afterWaiting, withCallbacks, questions]
  | cons a waiting ih =>
    have hw' : ∀ b ∈ waiting, b.waits = true := fun b hb ↦ hw b (List.mem_cons_of_mem a hb)
    -- a callback, a loss, nothing yet, an outcome: the second and the last do not keep it waiting
    rcases a with ⟨kind, callback⟩ | ⟨loss | _ | outcome⟩
    · have hs' : s.handle.settled = none := by
        rcases hs with hs | ha
        · exact hs
        · exact absurd (ha _ List.mem_cons_self) (by simp [Arrival.isAnswer])
      have hreg : s.register panics kind callback =
          (false, { s with handle := s.handle.setSlot kind callback }) := by
        rw [State.register, Handle.register_of_incomplete hs']
      rw [List.cons_append, run, hreg]
      show run panics settings worker (waiting ++ rest)
        { s with handle := s.handle.setSlot kind callback } = _
      rw [ih hw' (.inl (by simpa using hs'))]
      simp [State.afterWaiting, withCallbacks, questions, Arrival.isAnswer]
    · exact absurd (hw _ List.mem_cons_self) (by simp [Arrival.waits])
    · have hs' : (s.emit (.asked settings.pollInterval)).handle.settled = none ∨
          ∀ b ∈ waiting, b.isAnswer = true :=
        hs.imp id fun ha b hb ↦ ha b (List.mem_cons_of_mem _ hb)
      rw [List.cons_append, run]
      show run panics settings worker (waiting ++ rest) (s.emit (.asked settings.pollInterval)) = _
      rw [ih hw' hs']
      simp [State.afterWaiting, State.emit, withCallbacks, questions, Arrival.isAnswer,
        List.countP_cons, List.replicate_succ]
    · exact absurd (hw _ List.mem_cons_self) (by simp [Arrival.waits])

/-! ### Behind the outcome -/

/-- The report that a watch records: that of a worker it stopped. -/
def stopReport? (settings : Settings) (alive : Bool) (report : Option Report) : Option Report :=
  if settings.terminateOnReturn && alive then report else none

/-- What stopping the worker takes: it is asked whether it is alive only if it is to be stopped,
stopped only if it is alive, and its report recorded only if it gives one. -/
def stopping (settings : Settings) (alive : Bool) (report : Option Report) (state : TaskState) :
    List (Effect α κ) :=
  if settings.terminateOnReturn then
    .checked alive ::
      if alive then .stopped settings.termination state :: report.toList.map .recorded else []
  else []

/-- What a watch does with the outcome of an incomplete handle, in order, where `callback` is the
one that the outcome calls for and `inFlight` the calls in flight until then. -/
def settling (settings : Settings) (alive : Bool) (report : Option Report) (outcome : Outcome α)
    (callback : Option κ) (termination : Option Report) (inFlight : Nat) : List (Effect α κ) :=
  .published outcome.state ::
    (stopping settings alive report outcome.state ++
      (callback.toList.map fun c ↦
        .called c outcome ⟨outcome.state, inFlight, termination⟩) ++
      [.released, .reaped (inFlight - 1)])

/-- A stop makes a report if it is asked for and the worker is alive, and does nothing otherwise. -/
theorem stop_eq (panics : κ → Bool) (settings : Settings) (alive : Bool) (report : Option Report)
    (s : State α κ) :
    s.stop panics settings { alive, report } =
      (false, { s with
        handle := { s.handle with
          termination := (stopReport? settings alive report).or s.handle.termination }
        effects := s.effects ++ stopping settings alive report s.handle.state }) := by
  rw [State.stop, stopReport?, stopping]
  cases settings.terminateOnReturn with
  | false => simp
  | true =>
    cases alive with
    | false => simp [State.emit]
    | true => cases report <;> simp [State.emit, State.registerAll, Handle.noteTermination]

/-- The handle of a watch that settled it. -/
def settledHandle (settings : Settings) (alive : Bool) (report : Option Report)
    (outcome : Outcome α) (h : Handle α κ) : Handle α κ :=
  { h with
    settled := some outcome, onComplete := none, onError := none
    termination := (stopReport? settings alive report).or h.termination }

/-- What follows an outcome on an incomplete handle, in its order. -/
theorem finish_of_incomplete (panics : κ → Bool) (settings : Settings) (alive : Bool)
    (report : Option Report) (outcome : Outcome α) {s : State α κ} (hs : s.handle.settled = none)
    (hr : s.handle.replaced = false) :
    finish panics settings { alive, report } outcome s =
      (.finished, {
        handle := settledHandle settings alive report outcome s.handle
        limiter := s.limiter.release s.handle.identity
        effects := s.effects ++ settling settings alive report outcome
          (s.handle.slot outcome.callbackKind)
          ((stopReport? settings alive report).or s.handle.termination) s.inFlight }) := by
  -- the reaping sees the count behind the release
  have hflight : (s.limiter.release s.handle.identity).inFlight s.handle.identity =
      s.limiter.inFlight s.handle.identity - 1 := by
    simp [Limiter.inFlight_release]
  rw [finish, Handle.publish_of_incomplete hs]
  simp only [stop_eq]
  rcases hslot : s.handle.slot outcome.callbackKind with - | callback <;>
    simp [State.fire, State.call, State.release, State.reap, State.emit, State.inFlight,
      Handle.callbackToFire?, Handle.state, hr, hflight, settling, settledHandle]

/-- A callback among the effects of settling is the one that the outcome calls for, and it sees
what was noted by then. -/
theorem called_mem_settling {settings : Settings} {alive : Bool} {report : Option Report}
    {outcome outcome' : Outcome α} {callback : Option κ} {termination : Option Report}
    {inFlight : Nat} {c : κ} {view : View}
    (h : .called c outcome' view ∈
      settling settings alive report outcome callback termination inFlight) :
    callback = some c ∧ outcome' = outcome ∧ view = ⟨outcome.state, inFlight, termination⟩ := by
  have hstop : .called c outcome' view ∉
      (stopping settings alive report outcome.state : List (Effect α κ)) := by
    rw [stopping]
    cases settings.terminateOnReturn <;> cases alive <;> simp
  simp only [settling, List.mem_cons, List.mem_append, reduceCtorEq, false_or, hstop,
    List.mem_map, Option.mem_toList, List.not_mem_nil, or_false] at h
  obtain ⟨c', hc, heq⟩ := h
  cases heq
  exact ⟨hc, rfl, rfl⟩

/-! ### Releases

That a slot is given back exactly once is the sum over the parts of a course: none by asking, none
by stopping, and one by settling.
-/

/-- How often a watch gives its slot back. -/
def releases (effects : List (Effect α κ)) : Nat :=
  effects.countP fun
    | .released => true
    | _ => false

theorem releases_append (effects more : List (Effect α κ)) :
    releases (effects ++ more) = releases effects + releases more :=
  List.countP_append

theorem releases_questions (settings : Settings) (arrivals : List (Arrival α κ)) :
    releases (questions settings arrivals) = 0 := by
  refine List.countP_eq_zero.2 fun effect hmem ↦ ?_
  rw [List.eq_of_mem_replicate hmem]
  exact Bool.false_ne_true

theorem releases_stopping (settings : Settings) (alive : Bool) (report : Option Report)
    (state : TaskState) :
    releases (stopping settings alive report state : List (Effect α κ)) = 0 := by
  rw [stopping]
  cases settings.terminateOnReturn <;> cases alive <;> cases report <;> rfl

/-- An outcome gives back one slot, whatever else is done for it. -/
theorem releases_settling (settings : Settings) (alive : Bool) (report : Option Report)
    (outcome : Outcome α) (callback : Option κ) (termination : Option Report) (inFlight : Nat) :
    releases (settling settings alive report outcome callback termination inFlight) = 1 := by
  have hstop : releases (stopping settings alive report outcome.state : List (Effect α κ)) = 0 :=
    releases_stopping settings alive report outcome.state
  simp only [settling, releases, List.countP_cons, List.countP_append] at hstop ⊢
  rw [hstop]
  cases callback <;> rfl

/-! ### The whole course

A watch stops at the first answer that is no "nothing yet", so what would arrive behind it is a
parameter of the theorems and does not occur in their results. Whether callbacks panic is a
parameter, too. Where a panic could change the course, it is caught, and the effects behind it are
the same.
-/

section

variable (panics : κ → Bool) (settings : Settings) (alive : Bool) (report : Option Report)
  (limiter : Limiter) {waiting : List (Arrival α κ)} (rest : List (Arrival α κ))

/-- Callbacks that come to a fresh handle leave it incomplete. -/
theorem withCallbacks_new (waiting : List (Arrival α κ)) (identity : Identity) (pid : Option Nat) :
    (withCallbacks waiting (.new identity pid)).settled = none ∧
      (withCallbacks waiting (.new identity pid)).identity = identity ∧
      (withCallbacks waiting (.new identity pid)).replaced = false ∧
      (withCallbacks waiting (.new identity pid)).termination = none :=
  withCallbacks_frame waiting (.new identity pid)

/-- A watch that waits and gets an outcome makes its questions first, and then settles. -/
theorem run_outcome (hw : ∀ a ∈ waiting, a.waits = true) (identity : Identity) (pid : Option Nat)
    (outcome : Outcome α) :
    run panics settings { alive, report } (waiting ++ .answers (.ok (some outcome)) :: rest)
        { handle := .new identity pid, limiter } =
      (.finished, {
        handle :=
          settledHandle settings alive report outcome (withCallbacks waiting (.new identity pid))
        limiter := limiter.release identity
        effects := questions settings waiting ++ .asked settings.pollInterval ::
          settling settings alive report outcome
            ((withCallbacks waiting (.new identity pid)).slot outcome.callbackKind)
            (stopReport? settings alive report) (limiter.inFlight identity) }) := by
  obtain ⟨hs, hi, hr, ht⟩ := withCallbacks_new waiting identity pid
  rw [run_waiting panics settings _ hw _ (.inl rfl)]
  show finish panics settings { alive, report } outcome _ = _
  rw [finish_of_incomplete panics settings alive report outcome hs hr]
  simp [State.afterWaiting, State.emit, State.inFlight, hi, ht]

/-- A watch that waits and loses its worker makes its questions, and reaps. -/
theorem run_loss (hw : ∀ a ∈ waiting, a.waits = true) (identity : Identity) (pid : Option Nat)
    (worker : Worker κ) (loss : Channel.Loss) :
    run panics settings worker (waiting ++ .answers (.error loss) :: rest)
        { handle := .new identity pid, limiter } =
      (.lost, {
        handle := withCallbacks waiting (.new identity pid)
        limiter
        effects := questions settings waiting ++
          [.asked settings.pollInterval, .reaped (limiter.inFlight identity)] }) := by
  obtain ⟨-, hi, -, -⟩ := withCallbacks_new waiting identity pid
  rw [run_waiting panics settings _ hw _ (.inl rfl)]
  simp [run, State.afterWaiting, State.reap, State.emit, State.inFlight, hi]

/-- An outcome on a settled handle changes nothing, and the watch ends with the first one in place.
-/
theorem run_ignored (hw : ∀ a ∈ waiting, a.waits = true)
    (ha : ∀ a ∈ waiting, a.isAnswer = true) (worker : Worker κ) {h : Handle α κ}
    {first : Outcome α} (hs : h.settled = some first) (outcome : Outcome α) :
    run panics settings worker (waiting ++ .answers (.ok (some outcome)) :: rest)
        { handle := h, limiter } =
      (.ignored, {
        handle := h
        limiter
        effects := questions settings waiting ++ [.asked settings.pollInterval] }) := by
  rw [run_waiting panics settings _ hw _ (.inr ha)]
  simp [run, finish, Handle.publish, State.afterWaiting, State.emit, hs,
    withCallbacks_of_isAnswer ha]

end

/-- The whole course of a watch. On the outcome of a fresh handle it does what `settling` lists, in
that order, whichever callbacks panic; a callback that it runs sees the terminal state, the report
that the handle keeps, and a count in which its slot is still held. If the worker is lost it reaps
and does nothing else. The outcome of a handle that has one already changes nothing. In no case is
the receiver asked again, whatever else would arrive. -/
theorem course_of_run (panics : κ → Bool) (settings : Settings) (alive : Bool)
    (report : Option Report) (limiter : Limiter) {waiting : List (Arrival α κ)}
    (hw : ∀ a ∈ waiting, a.waits = true) (rest : List (Arrival α κ)) :
    (∀ identity pid outcome,
      let h := withCallbacks waiting (Handle.new identity pid)
      let noted := stopReport? settings alive report
      let settled := settledHandle settings alive report outcome h
      let effects := questions settings waiting ++ .asked settings.pollInterval ::
        settling settings alive report outcome (h.slot outcome.callbackKind) noted
          (limiter.inFlight identity)
      run panics settings { alive, report } (waiting ++ .answers (.ok (some outcome)) :: rest)
          { handle := .new identity pid, limiter } =
        (.finished, { handle := settled, limiter := limiter.release identity, effects }) ∧
      settled.state = outcome.state ∧ settled.termination = noted ∧
      ∀ callback outcome' view, .called callback outcome' view ∈ effects →
        h.slot outcome.callbackKind = some callback ∧ outcome' = outcome ∧
          view = ⟨outcome.state, limiter.inFlight identity, noted⟩ ∧
          view.state.isTerminal = true ∧
          (limiter.release identity).inFlight identity = view.inFlight - 1) ∧
    (∀ identity pid loss,
      let h := withCallbacks waiting (Handle.new identity pid)
      run panics settings { alive, report } (waiting ++ .answers (.error loss) :: rest)
          { handle := .new identity pid, limiter } =
        (.lost, { handle := h, limiter, effects := questions settings waiting ++
          [.asked settings.pollInterval, .reaped (limiter.inFlight identity)] }) ∧
      h.state = .incomplete) ∧
    ∀ (h : Handle α κ) (first outcome : Outcome α), h.settled = some first →
      (∀ a ∈ waiting, a.isAnswer = true) →
      run panics settings { alive, report } (waiting ++ .answers (.ok (some outcome)) :: rest)
          { handle := h, limiter } =
        (.ignored, { handle := h, limiter, effects := questions settings waiting ++
          [.asked settings.pollInterval] }) := by
  refine ⟨fun identity pid outcome ↦ ?_, fun identity pid loss ↦ ?_,
    fun h first outcome hs ha ↦ ?_⟩
  · obtain ⟨-, -, -, ht⟩ := withCallbacks_new waiting identity pid
    refine ⟨run_outcome panics settings alive report limiter rest hw identity pid outcome, rfl,
      by simp [settledHandle, ht], fun callback outcome' view hmem ↦ ?_⟩
    -- the questions in front are no calls, so the callback is among the effects of settling
    have hmem' : .called callback outcome' view ∈
        settling settings alive report outcome
          ((withCallbacks waiting (.new identity pid)).slot outcome.callbackKind)
          (stopReport? settings alive report) (limiter.inFlight identity) := by
      simpa [questions, List.mem_replicate] using hmem
    obtain ⟨hc, ho, rfl⟩ := called_mem_settling hmem'
    exact ⟨hc, ho, rfl, outcome.isTerminal_state, by simp [Limiter.inFlight_release]⟩
  · obtain ⟨hs, -, -, -⟩ := withCallbacks_new waiting identity pid
    exact ⟨run_loss panics settings limiter rest hw identity pid _ loss, by simp [Handle.state, hs]⟩
  · exact run_ignored panics settings limiter rest hw ha _ hs outcome

/-- A call whose callback panics, with a worker that is stopped without a report: the slot is given
back and the worker reaped behind the panic. -/
theorem course_of_run_panicking :
    let waiting : List (Arrival Nat String) :=
      [.registers .onComplete "notify", .answers (.ok none)]
    let limiter := (Limiter.empty.enter (.keyed "job") .unbounded).2
    (∀ a ∈ waiting, a.waits = true) ∧
    (run (fun _ ↦ true) { terminateOnReturn := true } { alive := true, report := none }
        (waiting ++ [.answers (.ok (some (.success 7)))])
        { handle := .new (.keyed "job") (some 3), limiter }).2.effects =
      [.asked (.ofMillis 100), .asked (.ofMillis 100), .published .success, .checked true,
        .stopped {} .success, .called "notify" (.success 7) ⟨.success, 1, none⟩, .released,
        .reaped 0] := by
  intro waiting limiter
  have hw : ∀ a ∈ waiting, a.waits = true := by decide
  have course := course_of_run (fun _ ↦ true) { terminateOnReturn := true } true none limiter hw []
  exact ⟨hw, congrArg (fun r ↦ r.2.effects) (course.1 (.keyed "job") (some 3) (.success 7)).1⟩

end Watch

end Offload
