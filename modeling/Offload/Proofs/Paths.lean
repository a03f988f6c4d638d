import Offload.Proofs.Lockstep
import Offload.Proofs.Worker

/-!
# The two paths of a call

A function is run in a worker process or on a worker thread. A process encodes the outcome and sends
it through a pipe, and a thread hands it over as it is, but the watch and the handle are the same
for both. So are the answers of the receivers just if the outcome can be carried
(`Worker.answer_eq_threadAnswer_iff`). The handles of the two paths then come to know the same, the
same callbacks are run, and slots are given back as often (`Watch.agree_of_shapes`); what differs is
the identity of the call, its pid and the report of a termination.

The outcomes that cannot be carried are where the paths part. A failure whose frame would be too
long is replaced on its way out of a process, and not on its way out of a thread.

That the paths agree has two halves of different kinds. What a receiver answers is a matter of
frames, and there is an exact condition for it. What becomes of the answer is a matter of watches,
and there the two paths run the same definition; it is proved by lockstep, for schedules that differ
in everything that a caller cannot see.
-/

namespace Offload

open Channel (Answer InProcess)
open Channel.Pipe (Receiver answersTo)
open Offload.Frame (Carries reported)
open Source (Delivers)
open Traffic (Action)
open Wire (ValueType)

/-! ### The receiver of a worker thread

In a thread the outcome is handed over as a value. It is not written, so nothing can be refused and
no length is too great.
-/

namespace Worker

section

variable {α : Type}

/-- The answers to successive calls of the receiver of a worker thread, each made when the thread
has come to its end or not. -/
def threadCalls (conclusion : Conclusion α) :
    (ended : List Bool) → InProcess α → List (Answer α) × InProcess α
  | [], channel => ([], channel)
  | hasEnded :: ended, channel =>
    let channel :=
      if hasEnded && channel.senderHeld then threadBody channel conclusion else channel
    let (answer, channel) := channel.receive
    let (answers, channel) := threadCalls conclusion ended channel
    (answer :: answers, channel)

/-- The one answer of the receiver of a worker thread. -/
def threadAnswer (conclusion : Conclusion α) : Answer α :=
  match conclusion.outcome with
  | .ok outcome => .ok (some outcome)
  | .error _ => .error .disconnected

/-- A channel that the outcome was taken from has no other. -/
theorem threadCalls_of_taken (conclusion : Conclusion α) (ended : List Bool) :
    (threadCalls conclusion ended { senderHeld := false }).1 =
      ended.map fun _ ↦ .error .disconnected := by
  induction ended with
  | nil => rfl
  | cons hasEnded ended ih =>
    simp only [threadCalls, Bool.and_false, Bool.false_eq_true, if_false]
    exact congrArg (.error .disconnected :: ·) ih

/-- The receiver of a thread answers as that of a pipe does: nothing yet until the thread has come
to its end, then the one answer, and none after it. -/
theorem threadCalls_eq (conclusion : Conclusion α) (ended : List Bool) :
    (threadCalls conclusion ended {}).1 = answersTo (threadAnswer conclusion) ended := by
  induction ended with
  | nil => rfl
  | cons hasEnded ended ih =>
    cases hasEnded with
    | false => exact congrArg (.ok none :: ·) ih
    | true =>
      have htaken := threadCalls_of_taken conclusion ended
      cases ho : conclusion.outcome with
      | ok outcome =>
        simp only [threadCalls, threadAnswer, threadBody, ho, answersTo, InProcess.send,
          InProcess.receive]
        exact congrArg (.ok (some outcome) :: ·) htaken
      | error payload =>
        simp only [threadCalls, threadAnswer, threadBody, ho, answersTo, InProcess.receive]
        exact congrArg (.error .disconnected :: ·) htaken

/-- A worker thread that has ended leaves an answer. -/
theorem threadAnswer_ne_nothing (conclusion : Conclusion α) :
    threadAnswer conclusion ≠ .ok none := by
  rw [threadAnswer]
  split <;> exact nofun

end

variable {t : ValueType} {conclusion : Conclusion t.Value}

/-- An outcome that comes out of the pipe is one that can be carried: a stand-in comes out as
itself. -/
theorem carries_of_answer_own {own : Outcome t.Value} (ho : conclusion.outcome = .ok own)
    (h : answer t conclusion = .ok (some own)) :
    conclusion.writingPanic = none ∧ Carries t own := by
  suffices hreported : reported t.codec own = own by
    have hcarries := carries_of_answer ho (h.trans (by rw [hreported]))
    rwa [hreported] at hcarries
  cases hencode : Frame.encode t.codec own with
  | ok frame => rw [reported, hencode]
  | error fault =>
    have hstandIn : reported t.codec own = .failure (.standIn fault.reason) := by
      rw [reported, hencode]
    cases hsends : Frame.encode t.codec (reported t.codec own) with
    | error fault' =>
      rw [answer_of_fault ho hsends] at h
      cases h
    | ok frame =>
      cases hw : conclusion.writingPanic with
      | some payload =>
        rw [answer_of_writingPanic ho hw] at h
        cases h
      | none =>
        have hfits := (Frame.encode_eq_ok_iff.1 hsends).2.1
        have hcarries : Carries t (reported t.codec own) := by
          rw [hstandIn] at hfits ⊢
          exact Frame.carries_failure hfits
        rw [answer_of_carries ho hw hcarries] at h
        exact Option.some.inj (Except.ok.inj h)

/-- An outcome comes out of the pipe as the thread hands it over just if it can be carried. -/
theorem answer_eq_threadAnswer_iff :
    answer t conclusion = threadAnswer conclusion ↔
      ∀ own, conclusion.outcome = .ok own → conclusion.writingPanic = none ∧ Carries t own := by
  constructor
  · intro h own ho
    rw [threadAnswer, ho] at h
    exact carries_of_answer_own ho h
  · intro h
    cases ho : conclusion.outcome with
    | ok own =>
      obtain ⟨hwrites, hcarries⟩ := h own ho
      have hreported := Frame.reported_of_carries hcarries
      rw [answer_of_carries ho hwrites (hreported.symm ▸ hcarries), hreported, threadAnswer, ho]
    | error payload => rw [answer_of_error ho, threadAnswer, ho]

/-- The watch of a thread publishes the outcome of the function, and gives the slot back once. -/
theorem finished_of_threadCalls {α κ : Type} {conclusion : Conclusion α} {own : Outcome α}
    (ho : conclusion.outcome = .ok own) {ended : List Bool} (hended : true ∈ ended)
    (panics : κ → Bool) (settings : Settings) (alive : Bool) (report : Option Report)
    (identity : Identity) (limiter : Limiter) {arrivals : List (Watch.Arrival α κ)}
    (h : Watch.answersOf arrivals = (threadCalls conclusion ended {}).1) :
    ∃ handle effects, Watch.run panics settings { alive, report } arrivals
        { handle := .new identity none, limiter } =
          (.finished, { handle, limiter := limiter.release identity, effects }) ∧
      handle.settled = some own ∧ Watch.releases effects = 1 := by
  rw [threadCalls_eq, threadAnswer, ho] at h
  exact Watch.finished_of_answersOf panics settings alive report identity none limiter hended h

end Worker

/-! ### The two handles

What a caller can see of a handle is its state, its value and its failure, and which callbacks run
with what. That is what both paths agree on, and pids and reports are what they do not.
-/

namespace Handle

variable {α κ : Type}

/-- Handles of one essence differ in whose they are and how their workers were stopped. -/
theorem eq_of_essence {h₁ h₂ : Handle α κ} (h : h₁.essence = h₂.essence) :
    h₂ = { h₁ with
      identity := h₂.identity, pid := h₂.pid, termination := h₂.termination } := by
  obtain ⟨identity, pid, settled, onComplete, onError, replaced, termination⟩ := h₂
  cases h₁
  cases h
  rfl

end Handle

namespace Watch

variable {κ : Type} {t : ValueType} {conclusion : Conclusion t.Value}

/-- Of two watches that have come as far, with handles that differ in whose they are and how their
workers were stopped, each gave its own slot back as often as the other. -/
structure Agree {α : Type} (i₁ i₂ : Identity) (l₁ l₂ : Limiter)
    (w₁ w₂ : Phase α κ × State α κ) : Prop where
  phase : w₁.1 = w₂.1
  handle : w₂.2.handle = { w₁.2.handle with
    identity := w₂.2.handle.identity, pid := w₂.2.handle.pid,
    termination := w₂.2.handle.termination }
  releases : ∃ n, releases w₁.2.effects = n ∧ releases w₂.2.effects = n ∧
    w₁.2.limiter = (fun l ↦ l.release i₁)^[n] l₁ ∧ w₂.2.limiter = (fun l ↦ l.release i₂)^[n] l₂

/-- The watches of a worker process and of a worker thread that run the same function, and to whose
handles callbacks are registered at the same points. If nothing panics while the outcome is written,
and the outcome can be carried, the receivers give the same answer, the watches make the same steps
and run the same callbacks with the same outcome, and they agree after them. -/
theorem agree_of_shapes (t : ValueType) (conclusion : Conclusion t.Value)
    (hwrites : conclusion.writingPanic = none)
    (hcarries : ∀ own, conclusion.outcome = .ok own → Carries t own) {source : Source}
    (hs : Delivers source (Worker.sent t conclusion) []) (polls ended : List Bool)
    (settings : Settings) (i₁ i₂ : Identity) (pid : Nat) (l₁ l₂ : Limiter)
    {actions₁ actions₂ : List (Action t.Value κ)}
    (h₁ : answersIn actions₁ = (Receiver.calls t.codec polls {} source).1)
    (h₂ : answersIn actions₂ = (Worker.threadCalls conclusion ended {}).1)
    (hshapes : actions₁.filterMap Action.shape? = actions₂.filterMap Action.shape?) :
    let w₁ : Phase t.Value κ × State t.Value κ :=
      (.asking, { handle := .new i₁ (some pid), limiter := l₁ })
    let w₂ : Phase t.Value κ × State t.Value κ :=
      (.asking, { handle := .new i₂ none, limiter := l₂ })
    Worker.answer t conclusion = Worker.threadAnswer conclusion ∧
      callsOfAll settings actions₁ w₁ = callsOfAll settings actions₂ w₂ ∧
      Option.Rel (Agree i₁ i₂ l₁ l₂) (advanceAll settings actions₁ w₁)
        (advanceAll settings actions₂ w₂) := by
  intro w₁ w₂
  have hanswer := Worker.answer_eq_threadAnswer_iff.2 fun own ho ↦ ⟨hwrites, hcarries own ho⟩
  obtain ⟨source', -, hcalls⟩ := Channel.Pipe.calls_of_delivers (c := t.codec) hs
  rw [hcalls, ← Worker.answer, hanswer] at h₁
  rw [Worker.threadCalls_eq] at h₂
  have hlockstep := lockstep_of_shapes (Worker.threadAnswer_ne_nothing conclusion) h₁ h₂ hshapes
  -- both watches start with the essence of a new handle
  obtain ⟨hall, hcallsOf⟩ : (advanceAll settings actions₁ w₁).map essence =
      (advanceAll settings actions₂ w₂).map essence ∧
      callsOfAll settings actions₁ w₁ = callsOfAll settings actions₂ w₂ :=
    advanceAll_of_lockstep hlockstep rfl rfl
  refine ⟨hanswer, hcallsOf, ?_⟩
  cases hw₁ : advanceAll settings actions₁ w₁ with
  | none =>
    rw [hw₁, Option.map_none, eq_comm, Option.map_eq_none_iff] at hall
    rw [hall]
    exact .none
  | some w₁' =>
    rw [hw₁, Option.map_some, eq_comm, Option.map_eq_some_iff] at hall
    obtain ⟨w₂', hw₂, hessence⟩ := hall
    rw [essence, essence, Prod.mk.injEq, Prod.mk.injEq] at hessence
    obtain ⟨hphase, hhandle, hreleases⟩ := hessence
    -- the essence says how often a slot was given back, and the balance which one
    have hbalanced₁ : Balanced i₁ l₁ w₁'.2 := Balanced.advanceAll ⟨rfl, rfl⟩ hw₁
    have hbalanced₂ : Balanced i₂ l₂ w₂'.2 := Balanced.advanceAll ⟨rfl, rfl⟩ hw₂
    rw [hw₂]
    exact .some ⟨hphase.symm, Handle.eq_of_essence hhandle.symm, _, rfl, hreleases,
      hbalanced₁.limiter, hreleases ▸ hbalanced₂.limiter⟩

/-- A function that fails, with a callback for the failure. The process is asked in vain first, and
is stopped. -/
theorem agree_of_shapes_failing :
    let own : Outcome ValueType.text.Value := .failure (.ofError "E" "late")
    let ending : List (Action ValueType.text.Value String) := [.fire, .release, .reap]
    let onProcess := .receive (.ok none) :: .register .onError "log" :: .receive (.ok (some own)) ::
      .stop true none :: ending
    let onThread := .register .onError "log" :: .receive (.ok (some own)) ::
      .stop false none :: ending
    Carries .text own ∧ ∃ w₁ w₂,
      advanceAll { terminateOnReturn := true } onProcess
        (.asking, { handle := .new (.keyed "a") (some 3), limiter := .empty }) = some w₁ ∧
      advanceAll { terminateOnReturn := true } onThread
        (.asking, { handle := .new (.keyed "b") none, limiter := .empty }) = some w₂ ∧
      Agree (.keyed "a") (.keyed "b") .empty .empty w₁ w₂ ∧
      w₂.2.handle.failure? = some (.ofError "E" "late") := by
  intro own ending onProcess onThread
  let conclusion : Conclusion ValueType.text.Value := .errs "E" (.ok "late")
  have hown : Carries .text own := Frame.carries_failure (by decide +kernel)
  have hcarries : ∀ own, conclusion.outcome = .ok own → Carries .text own := fun _ ho ↦ by
    cases ho
    exact hown
  have hs := Source.delivers_ofBytes (Worker.sent .text conclusion)
  have hprocess : answersIn onProcess = (Receiver.calls ValueType.text.codec [false, true] {}
      (Source.ofBytes (Worker.sent .text conclusion))).1 := by
    obtain ⟨source', -, hcalls⟩ := Channel.Pipe.calls_of_delivers (c := ValueType.text.codec) hs
    rw [hcalls, ← Worker.answer,
      Worker.answer_eq_threadAnswer_iff.2 fun own ho ↦ ⟨rfl, hcarries own ho⟩]
    rfl
  have hthread : answersIn onThread = (Worker.threadCalls conclusion [true] {}).1 := rfl
  have hshapes : onProcess.filterMap Action.shape? = onThread.filterMap Action.shape? := rfl
  obtain ⟨-, -, hrel⟩ := agree_of_shapes .text conclusion rfl hcarries hs [false, true] [true]
    { terminateOnReturn := true } (.keyed "a") (.keyed "b") 3 .empty .empty hprocess hthread hshapes
  refine ⟨hown, _, _, rfl, rfl, ?_, rfl⟩
  cases hrel with
  | some hagree => exact hagree

end Watch

/-! ### Where the paths part

An outcome that cannot be carried is replaced by a failure in the process, or is lost. Each way is a
condition on the codec, and none is one on the schedule.
-/

/-- A text of one letter takes a byte for each of them. -/
theorem utf8ByteSize_replicate (n : Nat) :
    (String.ofList (List.replicate n 'a')).utf8ByteSize = n := by
  induction n with
  | zero => rfl
  | succ n ih =>
    rw [List.replicate_succ, String.ofList_cons, String.utf8ByteSize_append, ih,
      String.utf8ByteSize_singleton, Nat.add_comm]
    rfl

namespace Worker

/-- An error whose message alone is as long as a frame may be. The handle of the process gets the
failure that stands in for it, and that of the thread gets the error. -/
theorem differ_of_oversized :
    let message := String.ofList (List.replicate Frame.limit 'a')
    let conclusion : Conclusion ValueType.unit.Value := .errs "alloc::string::String" (.ok message)
    let own : Outcome ValueType.unit.Value := .failure (.ofError "alloc::string::String" message)
    let standIn : Outcome ValueType.unit.Value :=
      .failure (.standIn (Frame.Fault.oversized 268435500).reason)
    conclusion.outcome = .ok own ∧ own ≠ standIn ∧ Settles .unit conclusion standIn ∧
      ∀ ended, true ∈ ended →
        ∀ (κ : Type) (panics : κ → Bool) settings alive report identity limiter arrivals,
          Watch.answersOf arrivals = (threadCalls conclusion ended {}).1 →
          ∃ handle effects, Watch.run panics settings { alive, report } arrivals
              { handle := .new identity none, limiter } =
                (.finished, { handle, limiter := limiter.release identity, effects }) ∧
            handle.settled = some own ∧ Watch.releases effects = 1 := by
  intro message conclusion own standIn
  have hlength : (Frame.body .unit own).length = 268435500 := by
    rw [Frame.length_body_ofError, utf8ByteSize_replicate]
    decide +kernel
  have hreported : reported ValueType.unit.codec own = standIn := by
    rw [Frame.reported_of_not_fits (by rw [hlength]; decide), hlength]
  have hcarries : Carries .unit standIn := Frame.carries_failure (by decide +kernel)
  refine ⟨rfl, ?_, ?_, fun ended hended κ panics settings alive report identity limiter arrivals h ↦
    finished_of_threadCalls rfl hended panics settings alive report identity limiter h⟩
  · intro h
    have htype : "alloc::string::String" = "isotask::error::TaskError" :=
      congrArg Failure.typeName (Outcome.failure.inj h)
    exact absurd htype (by decide)
  · rw [← hreported]
    exact settles_iff_answer.2 (answer_of_carries rfl rfl (hreported.symm ▸ hcarries))

end Worker

end Offload
