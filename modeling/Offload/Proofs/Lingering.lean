import Offload.Worker.Lingering
import Mathlib.Data.List.Nodup
import Mathlib.Data.Nat.Init

/-!
# Waiting for the threads of a worker

A worker joins every thread that was left behind in it, and joins it once, in whatever order the
threads start, record and end. A thread that was started is at every moment in one of four places,
and in one only: it is in the hands of its spawner, which has still to record it, or in the list, or
among those that the worker took from the list, or among those that were joined (`Sound.places`).

When the worker finds the list empty, no thread is in the second and in the third place. It might be
in the first, and then its spawner runs. But a spawner is older than what it starts, and the oldest
thread that runs is in nobody's hands, so nobody runs (`ended_of_recorded_eq_nil`).

A course of a worker has a state for every instant, and a schedule says what happens in between.
That the worker exits in the end needs what no program can bring about: no end of new threads may
come, each thread must end, and the worker must get its turns (`Course.exits`).

The places are counted by a permutation: the hands of the spawners, the list, the batch and the
joined ones, put together, are the numbers of all threads in some order. That no thread is in two
places, and none in no place, is one equation, and each move has one lemma about it.

Liveness is proved by a measure. Once all threads have ended only the worker moves, and each of its
moves makes `rank` smaller. The three hypotheses of `Course.exits` are what it takes to come to that
point and to keep going: without any one of them there are courses in which the worker never exits.
-/

namespace Offload

open Channel (Pipe)
open Wire (Codec)

/-! ### The delivery

The outcome of the function is delivered before the first thread is joined, and nothing that happens
while threads are joined touches the pipe or the exit code. So the delivery is described once, apart
from the threads, and a course carries it along.
-/

namespace Worker

variable {α : Type} {c : Codec α} {own : Outcome α} {before after : Pipe} {code : Nat}

/-- What the delivery of an outcome makes of the pipe, and the exit code that tells so. The sender
is gone in any case. -/
structure Delivered (c : Codec α) (own : Outcome α) (before : Pipe) (code : Nat) (after : Pipe) :
    Prop where
  closed : after.senderHeld = false
  /-- The pipe holds the frame of the outcome, or of the failure that stands in for it. -/
  frame : ∀ frame, Frame.encodeOrStandIn c own = .ok frame → before.receiverHeld = true →
    code = exitSent ∧ after.content = before.content ++ Source.ofBytes frame
  /-- Nothing is written if nobody is there to receive it. -/
  unreceived : ∀ frame, Frame.encodeOrStandIn c own = .ok frame → before.receiverHeld = false →
    code = exitSendFailed ∧ after.content = before.content
  /-- Nothing is written if even the failure has no frame. -/
  unencoded : ∀ fault, Frame.encodeOrStandIn c own = .error fault →
    code = exitEncodeFailed ∧ after.content = before.content

/-- Sending an outcome delivers it, with the exit code of the sending. -/
theorem delivered_send (c : Codec α) (own : Outcome α) (pipe : Pipe) :
    Delivered c own pipe (exitCode (pipe.send c own).1) (pipe.send c own).2 := by
  cases hencode : Frame.encodeOrStandIn c own with
  | error fault =>
    have hno (frame : Wire.Bytes) : Frame.encodeOrStandIn c own ≠ .ok frame := by simp [hencode]
    rw [Pipe.send, hencode]
    exact ⟨rfl, fun frame h ↦ absurd h (hno frame), fun frame h ↦ absurd h (hno frame),
      fun _ _ ↦ ⟨rfl, rfl⟩⟩
  | ok frame =>
    have hno (fault : Frame.Fault) : Frame.encodeOrStandIn c own ≠ .error fault := by
      simp [hencode]
    rw [Pipe.send, hencode]
    cases hheld : pipe.receiverHeld with
    | true =>
      simp only [Pipe.write, hheld, if_true]
      refine ⟨rfl, fun frame' h _ ↦ ⟨rfl, ?_⟩, fun _ _ hnot ↦ ?_,
        fun fault h ↦ absurd h (hno fault)⟩
      · rw [Except.ok.inj (hencode.symm.trans h)]
      · cases hheld.symm.trans hnot
    | false =>
      simp only [Pipe.write, hheld, Bool.false_eq_true, if_false]
      refine ⟨rfl, fun _ _ hnot ↦ ?_, fun _ _ _ ↦ ⟨rfl, rfl⟩, fun fault h ↦ absurd h (hno fault)⟩
      cases hheld.symm.trans hnot

/-- A worker that exits has delivered the outcome of its function. -/
theorem delivered_of_processBody {conclusion : Conclusion α}
    (h : processBody c before conclusion = (.exits code, after)) :
    ∃ own, conclusion.outcome = .ok own ∧ Delivered c own before code after := by
  cases ho : conclusion.outcome with
  | error payload =>
    simp only [processBody, ho, Prod.mk.injEq, reduceCtorEq, false_and] at h
  | ok own =>
    cases hw : conclusion.writingPanic with
    | some payload => simp only [processBody, ho, hw, Prod.mk.injEq, reduceCtorEq, false_and] at h
    | none =>
      simp only [processBody, ho, hw, Prod.mk.injEq, Departure.exits.injEq] at h
      obtain ⟨rfl, rfl⟩ := h
      exact ⟨own, rfl, delivered_send c own before⟩

end Worker

namespace Lingering

variable {α : Type} {c : Codec α} {s t : Lingering} {move : Move α} {spawner : Spawner}

/-! ### One move

A move is made by the main thread of the worker, by a spawner or by a thread that ends. `Made` lists
them with the states in which they can be made; everything below is by cases on it, and the
definition of a step is not opened again.
-/

/-- The thread that a thread has still to record. -/
def Thread.unrecorded : Thread → Option Nat
  | runs unrecorded => unrecorded
  | ended => none

namespace Stage

/-- The thread that the function has still to record. -/
def unrecorded : Stage → Option Nat
  | calls unrecorded => unrecorded
  | _ => none

/-- The threads that were taken from the list and are not joined. -/
def batch : Stage → List Recorded
  | joins _ batch => batch
  | _ => []

/-- The exit code, once the outcome is delivered. -/
def code? : Stage → Option Nat
  | joins code _ | exits code => some code
  | _ => none

end Stage

/-- What a move makes of a state, in the states in which it can be made. -/
inductive Made (c : Codec α) (s : Lingering) : Move α → Lingering → Prop
  | begin (hstage : s.stage = .begins) :
    Made c s .begin { s with isWorker := true, recorded := [], stage := .calls none }
  | spawn {spawner : Spawner} (hspawner : s.unrecorded? spawner = some none) :
    Made c s (.spawn spawner) (s.spawn spawner)
  | record {spawner : Spawner} {thread : Nat}
    (hspawner : s.unrecorded? spawner = some (some thread)) :
    Made c s (.record spawner) (s.record thread spawner)
  | finish {n : Nat} (hthread : s.threads[n]? = some (.runs none)) :
    Made c s (.finish n) { s with threads := s.threads.set n .ended }
  | deliver (conclusion : Conclusion α) (hstage : s.stage = .calls none) :
    Made c s (.deliver conclusion) (s.deliver c conclusion)
  | take {code : Nat} (hstage : s.stage = .joins code []) : Made c s .take (s.take code)
  | join {code : Nat} {next : Recorded} {batch : List Recorded}
    (hstage : s.stage = .joins code (next :: batch)) (hended : s.isEnded next = true) :
    Made c s .join { s with stage := .joins code batch, joined := s.joined ++ [next] }

/-- A move that can be made is one of those that `Made` lists, with what it needs. -/
theorem made_of_step (h : s.step c move = some t) : Made c s move t := by
  cases move <;> simp only [step] at h
  case begin =>
    split at h
    · next hstage => exact Option.some.inj h ▸ .begin hstage
    · cases h
  case spawn spawner =>
    split at h
    · next hspawner => exact Option.some.inj h ▸ .spawn hspawner
    · cases h
  case record spawner =>
    split at h
    · next hspawner => exact Option.some.inj h ▸ .record hspawner
    · cases h
  case finish n =>
    split at h
    · next hthread => exact Option.some.inj h ▸ .finish hthread
    · cases h
  case deliver conclusion =>
    split at h
    · next hstage => exact Option.some.inj h ▸ .deliver conclusion hstage
    · cases h
  case take =>
    split at h
    · next hstage => exact Option.some.inj h ▸ .take hstage
    · cases h
  case join =>
    split at h
    · next hstage =>
      split at h
      · next hended => exact Option.some.inj h ▸ .join hstage hended
      · cases h
    · cases h

/-- Only a thread of the worker itself is known to have ended. -/
theorem isEnded_iff {r : Recorded} :
    s.isEnded r = true ↔ ∃ n, r = .own n ∧ s.threads[n]? = some .ended := by
  cases r <;> simp [isEnded]

/-- A spawner that runs is the function, or a thread. -/
theorem unrecorded?_eq_some_iff {unrecorded : Option Nat} :
    s.unrecorded? spawner = some unrecorded ↔
      spawner = .function ∧ s.stage = .calls unrecorded ∨
        ∃ n, spawner = .thread n ∧ s.threads[n]? = some (.runs unrecorded) := by
  cases spawner <;> simp only [unrecorded?] <;> split <;> simp_all

/-! ### Where the threads are

A spawner takes a new thread in hand, and gives it away when it records it. These two moves and the
end of a thread concern `inHand` only; taking and joining concern the list, the batch and what was
joined. So there are few equations, one for each side of the border, and they are stated up to a
permutation since no order matters.
-/

/-- The threads that are started and not recorded. -/
def inHand (s : Lingering) : List Nat :=
  s.stage.unrecorded.toList ++ s.threads.flatMap fun thread ↦ thread.unrecorded.toList

/-- The threads in all four places. -/
def places (s : Lingering) : List Recorded :=
  s.inHand.map .own ++ s.recorded ++ s.stage.batch ++ s.joined

/-- One element of a list contributes what it does, and to replace it changes nothing of the others.
-/
theorem perm_flatMap_set {β γ : Type} {l : List β} {f : β → List γ} {i : Nat} {a : β}
    (h : l[i]? = some a) (b : β) :
    (f a ++ (l.set i b).flatMap f).Perm (f b ++ l.flatMap f) := by
  induction l generalizing i with
  | nil => simp at h
  | cons x l ih =>
    cases i with
    | zero =>
      obtain rfl : x = a := by simpa using h
      simpa using List.perm_append_comm_assoc (f x) (f b) (l.flatMap f)
    | succ i =>
      have hih := ih (i := i) (by simpa using h)
      simp only [List.set_cons_succ, List.flatMap_cons]
      exact (List.perm_append_comm_assoc ..).trans
        ((hih.append_left (f x)).trans (List.perm_append_comm_assoc ..))

/-- What a spawner holds is all that changes if it takes a thread in hand or gives one away. -/
theorem inHand_setUnrecorded {old : Option Nat} (h : s.unrecorded? spawner = some old)
    (new : Option Nat) :
    (old.toList ++ (s.setUnrecorded new spawner).inHand).Perm (new.toList ++ s.inHand) := by
  obtain ⟨rfl, hstage⟩ | ⟨n, rfl, hthread⟩ := unrecorded?_eq_some_iff.1 h
  · simp only [inHand, setUnrecorded, hstage, Stage.unrecorded]
    exact List.perm_append_comm_assoc ..
  · simp only [inHand, setUnrecorded]
    have hset := perm_flatMap_set (f := fun thread : Thread ↦ thread.unrecorded.toList) hthread
      (.runs new)
    exact (List.perm_append_comm_assoc ..).trans
      ((hset.append_left _).trans (List.perm_append_comm_assoc ..))

/-- The threads that the worker took are not touched by that. -/
theorem batch_setUnrecorded {old : Option Nat} (h : s.unrecorded? spawner = some old)
    (new : Option Nat) : (s.setUnrecorded new spawner).stage.batch = s.stage.batch := by
  obtain ⟨rfl, hstage⟩ | ⟨n, rfl, -⟩ := unrecorded?_eq_some_iff.1 h
  · simp [setUnrecorded, hstage, Stage.batch]
  · rfl

/-- The exit code of a worker is not touched by that. -/
theorem code?_setUnrecorded {old : Option Nat} (h : s.unrecorded? spawner = some old)
    (new : Option Nat) : (s.setUnrecorded new spawner).stage.code? = s.stage.code? := by
  obtain ⟨rfl, hstage⟩ | ⟨n, rfl, -⟩ := unrecorded?_eq_some_iff.1 h
  · simp [setUnrecorded, hstage, Stage.code?]
  · rfl

/-- A thread that is started is in the hands of its spawner. -/
theorem inHand_spawn (h : s.unrecorded? spawner = some none) :
    (s.spawn spawner).inHand.Perm (s.threads.length :: s.inHand) := by
  have hperm := inHand_setUnrecorded h (some s.threads.length)
  simpa [spawn, inHand, Thread.unrecorded] using hperm

/-- A thread that is recorded is in nobody's hands. -/
theorem inHand_record {thread : Nat} (h : s.unrecorded? spawner = some (some thread)) :
    (thread :: (s.record thread spawner).inHand).Perm s.inHand := by
  have hperm := inHand_setUnrecorded h none
  unfold record
  split <;> exact hperm

/-! ### What every move keeps -/

/-- A thread that has ended does not change when one that runs does. -/
theorem ended_set {n k : Nat} {unrecorded : Option Nat} (hended : s.threads[n]? = some .ended)
    (hk : s.threads[k]? = some (.runs unrecorded)) (thread : Thread) :
    (s.threads.set k thread)[n]? = some .ended := by
  rw [List.getElem?_set_ne]
  · exact hended
  · rintro rfl
    cases hk.symm.trans hended

/-- A spawner runs, so a thread that has ended stays ended. -/
theorem ended_setUnrecorded {n : Nat} {old : Option Nat} (hended : s.threads[n]? = some .ended)
    (hs : s.unrecorded? spawner = some old) (new : Option Nat) :
    (s.setUnrecorded new spawner).threads[n]? = some .ended := by
  obtain ⟨rfl, -⟩ | ⟨k, rfl, hk⟩ := unrecorded?_eq_some_iff.1 hs
  · exact hended
  · exact ended_set hended hk _

theorem ended_spawn {n : Nat} (hended : s.threads[n]? = some .ended)
    (hs : s.unrecorded? spawner = some none) : (s.spawn spawner).threads[n]? = some .ended := by
  have hn := ended_setUnrecorded hended hs (some s.threads.length)
  exact (List.getElem?_append_left (List.getElem?_eq_some_iff.1 hn).1).trans hn

theorem threads_record (s : Lingering) (thread : Nat) (spawner : Spawner) :
    (s.record thread spawner).threads = (s.setUnrecorded none spawner).threads := by
  unfold record
  split <;> rfl

/-- The delivery starts and ends no thread. -/
theorem threads_deliver (c : Codec α) (s : Lingering) (conclusion : Conclusion α) :
    (s.deliver c conclusion).threads = s.threads := by
  unfold deliver
  split <;> rfl

/-- A thread that has ended stays so. -/
theorem ended_of_made (h : Made c s move t) {n : Nat} (hended : s.threads[n]? = some .ended) :
    t.threads[n]? = some .ended := by
  cases h with
  | begin | take | join => exact hended
  | spawn hs => exact ended_spawn hended hs
  | record hs => exact threads_record .. ▸ ended_setUnrecorded hended hs none
  | finish hthread => exact ended_set hended hthread _
  | deliver conclusion => exact threads_deliver c s conclusion ▸ hended

@[simp]
theorem setUnrecorded_frame (s : Lingering) (new : Option Nat) (spawner : Spawner) :
    (s.setUnrecorded new spawner).recorded = s.recorded ∧
      (s.setUnrecorded new spawner).joined = s.joined ∧
      (s.setUnrecorded new spawner).isWorker = s.isWorker ∧
      (s.setUnrecorded new spawner).pipe = s.pipe ∧
      (s.setUnrecorded new spawner).threads.length = s.threads.length := by
  cases spawner <;> simp [setUnrecorded]

/-- What holds of a worker after every move. -/
structure Sound (s : Lingering) : Prop where
  begins : s.stage = .begins → s.threads = [] ∧ s.joined = []
  isWorker : s.stage ≠ .begins → s.isWorker = true
  /-- Each thread is in one place. -/
  places : s.stage ≠ .begins → s.places.Perm ((List.range s.threads.length).map .own)
  /-- A spawner is older than what it starts. -/
  lt : ∀ n thread : Nat, s.threads[n]? = some (.runs (some thread)) → n < thread
  ended : ∀ n : Nat, .own n ∈ s.joined → s.threads[n]? = some .ended
  exits : ∀ code, s.stage = .exits code → s.recorded = [] ∧ ∀ thread ∈ s.threads, thread = .ended

namespace Sound

/-- A worker that was forked just now has no threads of its own. -/
theorem forked (pipe : Channel.Pipe) (inWorker : Bool) (inherited : List Nat) :
    Sound (.forked pipe inWorker inherited) :=
  ⟨fun _ ↦ ⟨rfl, rfl⟩, fun h ↦ absurd rfl h, fun h ↦ absurd rfl h, nofun, nofun, nofun⟩

/-- A thread that is not in its spawner's hands was recorded, taken or joined. -/
theorem mem_places (h : Sound s) (hstage : s.stage ≠ .begins) {n : Nat}
    (hn : n < s.threads.length) : Recorded.own n ∈ s.places :=
  (h.places hstage).mem_iff.2 (List.mem_map_of_mem (List.mem_range.2 hn))

/-- The threads in the list and those that were joined are threads of the worker. -/
theorem exists_own (h : Sound s) (hstage : s.stage ≠ .begins) {r : Recorded}
    (hr : r ∈ s.places) : ∃ n, n < s.threads.length ∧ r = .own n := by
  obtain ⟨n, hn, rfl⟩ := List.mem_map.1 ((h.places hstage).mem_iff.1 hr)
  exact ⟨n, List.mem_range.1 hn, rfl⟩

/-- A worker with nothing to record, nothing in its list and nothing left to join has no thread that
runs. -/
theorem ended_of_recorded_eq_nil (h : Sound s) {code : Nat} (hstage : s.stage = .joins code [])
    (hrecorded : s.recorded = []) (n : Nat) (hn : n < s.threads.length) :
    s.threads[n]? = some .ended := by
  induction n using Nat.strongRecOn with
  | _ n ih =>
    have hmem := h.mem_places (by simp [hstage]) hn
    simp only [Lingering.places, inHand, hstage, Stage.unrecorded, Stage.batch, hrecorded,
      Option.toList_none, List.nil_append, List.append_nil, List.mem_append, List.mem_map,
      List.mem_flatMap, Option.mem_toList, Recorded.own.injEq, exists_eq_right] at hmem
    rcases hmem with ⟨thread, hthread, hunrecorded⟩ | hjoined
    · -- whoever has it in hand is older and runs
      obtain ⟨k, hk⟩ := List.mem_iff_getElem?.1 hthread
      cases thread with
      | ended => cases hunrecorded
      | runs unrecorded =>
        obtain rfl : unrecorded = some n := hunrecorded
        have hlt := h.lt k n hk
        cases hk.symm.trans (ih k hlt (Nat.lt_trans hlt hn))
    · exact h.ended n hjoined

/-- What a spawner does to itself and to the list does not touch the places of other threads. -/
theorem lt_setUnrecorded (h : Sound s) {old new : Option Nat}
    (hs : s.unrecorded? spawner = some old) (hnew : ∀ thread ∈ new, s.threads.length ≤ thread)
    (n thread : Nat)
    (hn : (s.setUnrecorded new spawner).threads[n]? = some (.runs (some thread))) : n < thread := by
  obtain ⟨rfl, -⟩ | ⟨k, rfl, hk⟩ := unrecorded?_eq_some_iff.1 hs
  · exact h.lt n thread hn
  · replace hn : (s.threads.set k (.runs new))[n]? = some (.runs (some thread)) := hn
    rw [List.getElem?_set] at hn
    split at hn
    · next hkn =>
      subst hkn
      have hlt := (List.getElem?_eq_some_iff.1 hk).1
      rw [if_pos hlt, Option.some.injEq, Thread.runs.injEq] at hn
      exact Nat.lt_of_lt_of_le hlt (hnew thread hn)
    · exact h.lt n thread hn

/-- Nobody starts threads before the worker has begun. -/
theorem ne_begins_of_unrecorded? (h : Sound s) {old : Option Nat}
    (hs : s.unrecorded? spawner = some old) : s.stage ≠ .begins := by
  intro hstage
  obtain ⟨-, hcalls⟩ | ⟨n, -, hn⟩ := unrecorded?_eq_some_iff.1 hs
  · cases hstage.symm.trans hcalls
  · rw [(h.begins hstage).1] at hn
    cases hn

/-- In a process that exits nobody is left who could start a thread. -/
theorem stage_ne_exits_of_unrecorded? (h : Sound s) {old : Option Nat}
    (hs : s.unrecorded? spawner = some old) (code : Nat) : s.stage ≠ .exits code := by
  intro hstage
  obtain ⟨-, hcalls⟩ | ⟨n, -, hn⟩ := unrecorded?_eq_some_iff.1 hs
  · cases hstage.symm.trans hcalls
  · cases (h.exits code hstage).2 _ (List.mem_of_getElem? hn)

/-- At its begin the worker forgets the threads that it inherited, which are none of its own. -/
theorem begin (h : Sound s) (hstage : s.stage = .begins) :
    Sound { s with isWorker := true, recorded := [], stage := .calls none } := by
  obtain ⟨hthreads, hjoined⟩ := h.begins hstage
  refine ⟨nofun, fun _ ↦ rfl, fun _ ↦ ?_, h.lt, h.ended, nofun⟩
  simp [Lingering.places, inHand, Stage.unrecorded, Stage.batch, hthreads, hjoined]

/-- What a spawner has at hand decides nothing else about the stage. -/
theorem stage_setUnrecorded (h : Sound s) {old : Option Nat}
    (hs : s.unrecorded? spawner = some old) (new : Option Nat) :
    (s.setUnrecorded new spawner).stage ≠ .begins ∧
      ∀ code, (s.setUnrecorded new spawner).stage ≠ .exits code := by
  cases spawner with
  | function => exact ⟨nofun, nofun⟩
  | thread n => exact ⟨h.ne_begins_of_unrecorded? hs, h.stage_ne_exits_of_unrecorded? hs⟩

theorem spawn (h : Sound s) (hs : s.unrecorded? spawner = some none) :
    Sound (s.spawn spawner) := by
  have hbegins := h.ne_begins_of_unrecorded? hs
  obtain ⟨hbegins', hexits'⟩ := h.stage_setUnrecorded hs (some s.threads.length)
  obtain ⟨hrecorded, hjoined, hworker, -, hlength⟩ :=
    s.setUnrecorded_frame (some s.threads.length) spawner
  refine ⟨fun hstage ↦ absurd hstage hbegins', fun _ ↦ hworker.trans (h.isWorker hbegins),
    fun _ ↦ ?_, fun n thread hn ↦ ?_, fun n hn ↦ ?_, fun code hstage ↦ absurd hstage (hexits' code)⟩
  · have hperm := (inHand_spawn hs).map Recorded.own
    have hplaces := h.places hbegins
    simp only [Lingering.places] at hplaces ⊢
    rw [show (s.spawn spawner).recorded = s.recorded from hrecorded,
      show (s.spawn spawner).joined = s.joined from hjoined,
      show (s.spawn spawner).stage.batch = s.stage.batch from batch_setUnrecorded hs _,
      show (s.spawn spawner).threads.length = s.threads.length + 1 by simp [Lingering.spawn],
      List.range_succ, List.map_append]
    simp only [List.append_assoc] at hplaces ⊢
    exact (hperm.append_right _).trans
      ((hplaces.cons _).trans (List.perm_append_singleton _ _).symm)
  · replace hn : ((s.setUnrecorded (some s.threads.length) spawner).threads ++ [.runs none])[n]? =
      some (.runs (some thread)) := hn
    rw [List.getElem?_append] at hn
    split at hn
    · exact h.lt_setUnrecorded hs (by simp) n thread hn
    · cases List.mem_singleton.1 (List.mem_of_getElem? hn)
  · exact ended_spawn (h.ended n (hjoined ▸ hn)) hs

/-- A thread that is recorded goes from the hands of its spawner to the list. -/
theorem record (h : Sound s) {thread : Nat} (hs : s.unrecorded? spawner = some (some thread)) :
    Sound (s.record thread spawner) := by
  have hbegins := h.ne_begins_of_unrecorded? hs
  obtain ⟨hbegins', hexits'⟩ := h.stage_setUnrecorded hs none
  obtain ⟨-, hjoined, hworker, -, hlength⟩ := s.setUnrecorded_frame none spawner
  have heq : s.record thread spawner =
      { s.setUnrecorded none spawner with recorded := s.recorded ++ [.own thread] } := by
    rw [Lingering.record, if_pos (h.isWorker hbegins)]
  have hperm := (inHand_record hs).map Recorded.own
  rw [heq] at hperm ⊢
  refine ⟨fun hstage ↦ absurd hstage hbegins', fun _ ↦ hworker.trans (h.isWorker hbegins),
    fun _ ↦ ?_, h.lt_setUnrecorded hs nofun,
    fun n hn ↦ ended_setUnrecorded (h.ended n (hjoined ▸ hn)) hs none,
    fun code hstage ↦ absurd hstage (hexits' code)⟩
  have hplaces := h.places hbegins
  simp only [Lingering.places, hlength, hjoined, batch_setUnrecorded hs, List.append_assoc]
    at hplaces ⊢
  refine List.Perm.trans ?_ hplaces
  -- the thread goes from the hands of its spawner to the end of the list
  refine List.Perm.trans ?_ (hperm.append_right _)
  rw [List.map_cons, List.cons_append]
  exact (List.perm_middle.append_left _).trans List.perm_middle

theorem finish (h : Sound s) {n : Nat} (hthread : s.threads[n]? = some (.runs none)) :
    Sound { s with threads := s.threads.set n .ended } := by
  have hbegins : s.stage ≠ .begins := fun hstage ↦ by
    rw [(h.begins hstage).1] at hthread
    cases hthread
  refine ⟨fun hstage ↦ absurd hstage hbegins, h.isWorker, fun hstage ↦ ?_, fun k thread hk ↦ ?_,
    fun k hk ↦ ended_set (h.ended k hk) hthread _, fun code hstage ↦ ⟨(h.exits code hstage).1, ?_⟩⟩
  · have hset :=
      perm_flatMap_set (f := fun thread : Thread ↦ thread.unrecorded.toList) hthread .ended
    have hplaces := h.places hstage
    simp only [Lingering.places, inHand, List.length_set] at hplaces ⊢
    exact ((((hset.append_left _).map _).append_right _).append_right _ |>.append_right _).trans
      hplaces
  · replace hk : (s.threads.set n .ended)[k]? = some (.runs (some thread)) := hk
    rw [List.getElem?_set] at hk
    split at hk
    · split at hk <;> cases hk
    · exact h.lt k thread hk
  · intro thread hmem
    rcases List.mem_or_eq_of_mem_set hmem with hmem | rfl
    · exact (h.exits code hstage).2 thread hmem
    · rfl

theorem deliver (h : Sound s) (hstage : s.stage = .calls none) (c : Codec α)
    (conclusion : Conclusion α) : Sound (s.deliver c conclusion) := by
  have hbegins : s.stage ≠ .begins := by simp [hstage]
  have hplaces := h.places hbegins
  simp only [Lingering.places, inHand, hstage, Stage.unrecorded, Stage.batch] at hplaces
  unfold Lingering.deliver
  split <;>
    exact ⟨nofun, fun _ ↦ h.isWorker hbegins, fun _ ↦ hplaces, h.lt, h.ended, nofun⟩

/-- The worker takes what the list holds, in its order, and leaves it empty. -/
theorem take (h : Sound s) {code : Nat} (hstage : s.stage = .joins code []) :
    Sound (s.take code) := by
  have hbegins : s.stage ≠ .begins := by simp [hstage]
  have hplaces := h.places hbegins
  simp only [Lingering.places, inHand, hstage, Stage.unrecorded, Stage.batch, List.append_nil]
    at hplaces
  by_cases hrecorded : s.recorded = []
  · have heq : s.take code = { s with recorded := [], stage := .exits code } := by
      rw [Lingering.take, if_pos hrecorded]
    rw [heq]
    rw [hrecorded] at hplaces
    refine ⟨nofun, fun _ ↦ h.isWorker hbegins, fun _ ↦ ?_, h.lt, h.ended, fun _ _ ↦ ⟨rfl, ?_⟩⟩
    · simpa [Lingering.places, inHand, Stage.unrecorded, Stage.batch] using hplaces
    · intro thread hmem
      obtain ⟨n, hn⟩ := List.mem_iff_getElem?.1 hmem
      have hlt := (List.getElem?_eq_some_iff.1 hn).1
      have hended := h.ended_of_recorded_eq_nil hstage hrecorded n hlt
      exact Option.some.inj (hn.symm.trans hended)
  · have heq : s.take code = { s with recorded := [], stage := .joins code s.recorded } := by
      rw [Lingering.take, if_neg hrecorded]
    rw [heq]
    refine ⟨nofun, fun _ ↦ h.isWorker hbegins, fun _ ↦ ?_, h.lt, h.ended, nofun⟩
    simpa [Lingering.places, inHand, Stage.unrecorded, Stage.batch] using hplaces

/-- A thread that is joined has ended, and is joined for the first time. -/
theorem join (h : Sound s) {code : Nat} {next : Recorded} {batch : List Recorded}
    (hstage : s.stage = .joins code (next :: batch)) (hended : s.isEnded next = true) :
    Sound { s with stage := .joins code batch, joined := s.joined ++ [next] } := by
  have hbegins : s.stage ≠ .begins := by simp [hstage]
  have hplaces := h.places hbegins
  simp only [Lingering.places, inHand, hstage, Stage.unrecorded, Stage.batch] at hplaces
  refine ⟨nofun, fun _ ↦ h.isWorker hbegins, fun _ ↦ ?_, h.lt, fun n hn ↦ ?_, nofun⟩
  · simp only [Lingering.places, inHand, Stage.unrecorded, Stage.batch]
    refine List.Perm.trans ?_ hplaces
    simp only [List.append_assoc, List.cons_append]
    refine ((List.Perm.append_left _ ?_).append_left _)
    rw [← List.append_assoc]
    exact List.perm_append_singleton _ _
  · rcases List.mem_append.1 hn with hn | hn
    · exact h.ended n hn
    · obtain rfl := List.mem_singleton.1 hn
      obtain ⟨k, hk, hthread⟩ := isEnded_iff.1 hended
      cases hk
      exact hthread

theorem made (h : Sound s) (hmade : Made c s move t) : Sound t := by
  cases hmade with
  | begin hstage => exact h.begin hstage
  | spawn hs => exact h.spawn hs
  | record hs => exact h.record hs
  | finish hthread => exact h.finish hthread
  | deliver conclusion hstage => exact h.deliver hstage c conclusion
  | take hstage => exact h.take hstage
  | join hstage hended => exact h.join hstage hended

end Sound

/-- Threads are numbered for good. -/
theorem length_le_of_made (h : Made c s move t) : s.threads.length ≤ t.threads.length := by
  cases h with
  | begin | take | join => exact Nat.le_refl _
  | @spawn spawner =>
    have hlength := (s.setUnrecorded_frame (some s.threads.length) spawner).2.2.2.2
    simp [spawn, hlength]
  | @record spawner thread =>
    exact threads_record s .. ▸ Nat.le_of_eq (s.setUnrecorded_frame none spawner).2.2.2.2.symm
  | finish => simp
  | deliver conclusion => exact threads_deliver c s conclusion ▸ Nat.le_refl _

/-- A worker joins with its exit code decided. -/
theorem Made.exists_code? (h : Made c s .join t) : ∃ code, s.stage.code? = some code := by
  cases h with
  | @join code _ _ hstage => exact ⟨code, by rw [hstage]; rfl⟩

/-! ### The delivery -/

/-- The exit code and the pipe are those that the delivery left. -/
theorem code?_of_made (h : Made c s move t) {code : Nat} (hcode : t.stage.code? = some code) :
    (∃ conclusion, move = .deliver conclusion ∧
      Worker.processBody c s.pipe conclusion = (.exits code, t.pipe)) ∨
    s.stage.code? = some code ∧ t.pipe = s.pipe := by
  cases h with
  | begin => cases hcode
  | @spawn spawner hs =>
    exact .inr ⟨code?_setUnrecorded hs _ ▸ hcode, (s.setUnrecorded_frame _ spawner).2.2.2.1⟩
  | @record spawner thread hs =>
    refine .inr ?_
    have hpipe := (s.setUnrecorded_frame none spawner).2.2.2.1
    unfold record at hcode ⊢
    split at hcode <;> simp_all [code?_setUnrecorded hs]
  | finish => exact .inr ⟨hcode, rfl⟩
  | deliver conclusion =>
    refine .inl ⟨conclusion, rfl, ?_⟩
    unfold deliver at hcode ⊢
    split at hcode
    · next hbody =>
      obtain rfl := Option.some.inj hcode
      simp only [hbody]
    · cases hcode
  | @take code' hstage =>
    refine .inr ⟨?_, rfl⟩
    unfold take at hcode
    split at hcode <;> simpa [hstage, Stage.code?] using hcode
  | join hstage => exact .inr ⟨by simpa [hstage, Stage.code?] using hcode, rfl⟩

/-- The exit code does not change. -/
theorem code?_mono_of_made (h : Made c s move t) {code : Nat}
    (hcode : s.stage.code? = some code) : t.stage.code? = some code := by
  cases h with
  | begin hstage | deliver _ hstage =>
    rw [hstage] at hcode
    cases hcode
  | spawn hs => exact (code?_setUnrecorded hs _).trans hcode
  | record hs =>
    unfold record
    split <;> exact (code?_setUnrecorded hs _).trans hcode
  | finish => exact hcode
  | take hstage =>
    rw [hstage] at hcode
    unfold take
    split <;> exact hcode
  | join hstage =>
    rw [hstage] at hcode
    exact hcode

/-! ### Courses

The schedule is any function from instants to moves. It may leave the worker alone for as long as it
likes, and no two threads are assumed to be equally fast. What is needed of it for the exit is asked
for by name and nowhere else, so that all that is said about safety holds without it.
-/

/-- A state for every instant, and what happens between it and the next one, if anything does. -/
structure Course (c : Codec α) (schedule : Nat → Option (Move α)) (state : Nat → Lingering) :
    Prop where
  starts : ∃ pipe inWorker inherited, state 0 = .forked pipe inWorker inherited
  idle : ∀ n, schedule n = none → state (n + 1) = state n
  moves : ∀ n move, schedule n = some move → (state n).step c move = some (state (n + 1))

/-- No threads are started without end. -/
def Bounded (state : Nat → Lingering) : Prop :=
  ∃ bound, ∀ n, (state n).threads.length ≤ bound

/-- Every thread ends at some time. -/
def EachEnds (state : Nat → Lingering) : Prop :=
  ∀ n i, i < (state n).threads.length → ∃ m, n ≤ m ∧ (state m).threads[i]? = some .ended

/-- The main thread of the worker is not kept for ever from a move that it can make. -/
def GetsTurns (c : Codec α) (schedule : Nat → Option (Move α)) (state : Nat → Lingering) : Prop :=
  ∀ n, ∃ m, n ≤ m ∧ (schedule m = some .take ∨ schedule m = some .join ∨
    (state m).step c .take = none ∧ (state m).step c .join = none)

/-- How many moves the worker has at most to make if no thread is started any more. -/
def rank (s : Lingering) : Nat :=
  match s.stage with
  | .joins _ batch => 2 * s.recorded.length + batch.length + 1
  | _ => 0

/-- When all threads have ended, only the worker moves, and not for ever. -/
theorem rank_lt_of_made (h : Made c s move t) (hended : ∀ thread ∈ s.threads, thread = .ended)
    {code : Nat} (hcode : s.stage.code? = some code) : t.rank < s.rank := by
  have hspawner {spawner : Spawner} {old : Option Nat} (hs : s.unrecorded? spawner = some old) :
      False := by
    obtain ⟨-, hstage⟩ | ⟨n, -, hn⟩ := unrecorded?_eq_some_iff.1 hs
    · rw [hstage] at hcode
      cases hcode
    · cases hended _ (List.mem_of_getElem? hn)
  cases h with
  | begin hstage | deliver _ hstage =>
    rw [hstage] at hcode
    cases hcode
  | spawn hs | record hs => exact (hspawner hs).elim
  | finish hthread => cases hended _ (List.mem_of_getElem? hthread)
  | take hstage =>
    by_cases hrecorded : s.recorded = []
    · simp [Lingering.take, hrecorded, rank, hstage]
    · have hpos := List.length_pos_iff.2 hrecorded
      simp only [Lingering.take, if_neg hrecorded, rank, hstage, List.length_nil]
      omega
  | join hstage => simp [rank, hstage]

/-- When all threads have ended, a worker that has threads left to join can make a move. -/
theorem exists_step_of_ended (h : Sound s) (hended : ∀ thread ∈ s.threads, thread = .ended)
    {code : Nat} {batch : List Recorded} (hstage : s.stage = .joins code batch) :
    ¬ (s.step c .take = none ∧ s.step c .join = none) := by
  rintro ⟨htake, hjoin⟩
  cases batch with
  | nil => simp [step, hstage] at htake
  | cons next batch =>
    have hbegins : s.stage ≠ .begins := by simp [hstage]
    obtain ⟨n, hn, rfl⟩ := h.exists_own hbegins (r := next)
      (by simp [places, hstage, Stage.batch])
    have hthread : s.threads[n]? = some .ended := by
      rw [List.getElem?_eq_getElem hn, hended _ (List.getElem_mem hn)]
    simp [step, hstage, isEnded, hthread] at hjoin

namespace Course

variable {schedule : Nat → Option (Move α)} {state : Nat → Lingering}

/-- A run of finitely many moves is a course from its start in which nothing happens after them. -/
theorem of_run_start {pipe : Channel.Pipe} {inWorker : Bool} {inherited : List Nat}
    {moves : List (Move α)} (h : run c moves (.forked pipe inWorker inherited) = some s) :
    ∃ state, Course c (fun n ↦ moves[n]?) state ∧ state 0 = .forked pipe inWorker inherited ∧
      ∀ n, moves.length ≤ n → state n = s := by
  let start := Lingering.forked pipe inWorker inherited
  have hrun (n : Nat) : ∃ s', run c (moves.take n) start = some s' := by
    rw [run, ← List.take_append_drop n moves, List.foldlM_append] at h
    obtain ⟨s', hs', -⟩ := Option.bind_eq_some_iff.1 h
    exact ⟨s', hs'⟩
  choose state hstate using hrun
  have hnext (n : Nat) :
      moves[n]?.toList.foldlM (step c) (state n) = some (state (n + 1)) := by
    have hsucc := hstate (n + 1)
    rwa [run, List.take_add_one, List.foldlM_append, ← run, hstate n] at hsucc
  have hstart : state 0 = start := (Option.some.inj (hstate 0)).symm
  refine ⟨state, ⟨⟨pipe, inWorker, inherited, hstart⟩, fun n hn ↦ ?_, fun n move hn ↦ ?_⟩, hstart,
    fun n hn ↦ ?_⟩
  · have hsucc := hnext n
    rw [hn] at hsucc
    exact (Option.some.inj hsucc).symm
  · have hsucc := hnext n
    rw [hn] at hsucc
    simpa using hsucc
  · have hall := hstate n
    rw [List.take_of_length_le hn] at hall
    exact Option.some.inj (hall.symm.trans h)

/-- A run of finitely many moves is a course that comes to rest. -/
theorem of_run {pipe : Channel.Pipe} {inWorker : Bool} {inherited : List Nat}
    {moves : List (Move α)} (h : run c moves (.forked pipe inWorker inherited) = some s) :
    ∃ state, Course c (fun n ↦ moves[n]?) state ∧ ∀ n, moves.length ≤ n → state n = s := by
  obtain ⟨state, hcourse, -, hrest⟩ := of_run_start h
  exact ⟨state, hcourse, hrest⟩

/-- An instant is like the one before, or a move apart. -/
theorem eq_or_made (h : Course c schedule state) (n : Nat) :
    state (n + 1) = state n ∨
      ∃ move, schedule n = some move ∧ Made c (state n) move (state (n + 1)) := by
  cases hmove : schedule n with
  | none => exact .inl (h.idle n hmove)
  | some move => exact .inr ⟨move, rfl, made_of_step (h.moves n move hmove)⟩

/-- What every move keeps holds from any instant on. -/
theorem kept (h : Course c schedule state) {P : Lingering → Prop}
    (hmade : ∀ {s t : Lingering} {move : Move α}, Made c s move t → P s → P t) {m n : Nat}
    (hmn : m ≤ n) (hm : P (state m)) : P (state n) := by
  induction n, hmn using Nat.le_induction with
  | base => exact hm
  | succ n _ ih =>
    rcases h.eq_or_made n with heq | ⟨move, -, hmove⟩
    · exact heq ▸ ih
    · exact hmade hmove ih

/-- At every instant of a course each thread has its place. -/
theorem sound (h : Course c schedule state) (n : Nat) : Sound (state n) := by
  obtain ⟨pipe, inWorker, inherited, hstart⟩ := h.starts
  have hzero : Sound (state 0) := hstart ▸ .forked pipe inWorker inherited
  exact h.kept (fun hmade hs ↦ hs.made hmade) (Nat.zero_le n) hzero

/-- An exit code is there because an outcome was delivered before, and the pipe holds what it held
then. -/
theorem sent (h : Course c schedule state) {n code : Nat}
    (hcode : (state n).stage.code? = some code) :
    ∃ m conclusion, m < n ∧ schedule m = some (.deliver conclusion) ∧
      Worker.processBody c (state m).pipe conclusion = (.exits code, (state n).pipe) := by
  induction n with
  | zero =>
    obtain ⟨pipe, inWorker, inherited, hstart⟩ := h.starts
    rw [hstart] at hcode
    cases hcode
  | succ n ih =>
    rcases h.eq_or_made n with heq | ⟨move, hmove, hmade⟩
    · rw [heq] at hcode ⊢
      obtain ⟨m, conclusion, hm, hsent⟩ := ih hcode
      exact ⟨m, conclusion, Nat.lt_succ_of_lt hm, hsent⟩
    · rcases code?_of_made hmade hcode with ⟨conclusion, rfl, hbody⟩ | ⟨hcode, hpipe⟩
      · exact ⟨n, conclusion, Nat.lt_succ_self n, hmove, hbody⟩
      · obtain ⟨m, conclusion, hm, hsent⟩ := ih hcode
        exact ⟨m, conclusion, Nat.lt_succ_of_lt hm, hpipe ▸ hsent⟩

theorem ended_mono (h : Course c schedule state) {m n i : Nat} (hmn : m ≤ n)
    (hended : (state m).threads[i]? = some .ended) : (state n).threads[i]? = some .ended :=
  h.kept (P := fun s ↦ s.threads[i]? = some .ended) (fun hmade ↦ ended_of_made hmade) hmn hended

/-- No thread is forgotten. -/
theorem length_le (h : Course c schedule state) {m n : Nat} (hmn : m ≤ n) :
    (state m).threads.length ≤ (state n).threads.length :=
  h.kept (P := fun s ↦ (state m).threads.length ≤ s.threads.length)
    (fun hmade hle ↦ Nat.le_trans hle (length_le_of_made hmade)) hmn (Nat.le_refl _)

/-- From some instant on no thread is started. -/
theorem exists_length_eq (h : Course c schedule state) (hbounded : Bounded state) :
    ∃ n, ∀ m, n ≤ m → (state m).threads.length = (state n).threads.length := by
  obtain ⟨bound, hbound⟩ := hbounded
  by_contra! hgrows
  -- otherwise there is an instant with as many threads as one likes
  have hmany (k : Nat) : ∃ n, k ≤ (state n).threads.length := by
    induction k with
    | zero => exact ⟨0, Nat.zero_le _⟩
    | succ k ih =>
      obtain ⟨n, hn⟩ := ih
      obtain ⟨m, hnm, hne⟩ := hgrows n
      have hle := h.length_le hnm
      exact ⟨m, by omega⟩
  obtain ⟨n, hn⟩ := hmany (bound + 1)
  exact absurd (hbound n) (by omega)

/-- From some instant on all threads have ended. -/
theorem exists_ended (h : Course c schedule state) (hbounded : Bounded state)
    (hends : EachEnds state) :
    ∃ n, ∀ m, n ≤ m → ∀ thread ∈ (state m).threads, thread = .ended := by
  obtain ⟨n₀, hlength⟩ := h.exists_length_eq hbounded
  have hfirst (k : Nat) (hk : k ≤ (state n₀).threads.length) :
      ∃ n, n₀ ≤ n ∧ ∀ i < k, (state n).threads[i]? = some .ended := by
    induction k with
    | zero => exact ⟨n₀, Nat.le_refl _, nofun⟩
    | succ k ih =>
      obtain ⟨n, hn, hended⟩ := ih (Nat.le_of_succ_le hk)
      obtain ⟨m, hnm, hthread⟩ := hends n k (by rw [hlength n hn]; exact hk)
      refine ⟨m, Nat.le_trans hn hnm, fun i hi ↦ ?_⟩
      rcases Nat.lt_succ_iff_lt_or_eq.1 hi with hi | rfl
      · exact h.ended_mono hnm (hended i hi)
      · exact hthread
  obtain ⟨n, hn, hended⟩ := hfirst _ (Nat.le_refl _)
  refine ⟨n, fun m hnm thread hmem ↦ ?_⟩
  obtain ⟨i, hi⟩ := List.mem_iff_getElem?.1 hmem
  have hlt : i < (state n₀).threads.length :=
    hlength m (Nat.le_trans hn hnm) ▸ (List.getElem?_eq_some_iff.1 hi).1
  exact Option.some.inj (hi.symm.trans (h.ended_mono hnm (hended i hlt)))

theorem code?_mono (h : Course c schedule state) {m n code : Nat} (hmn : m ≤ n)
    (hcode : (state m).stage.code? = some code) : (state n).stage.code? = some code :=
  h.kept (P := fun s ↦ s.stage.code? = some code) (fun hmade ↦ code?_mono_of_made hmade) hmn hcode

/-- When all threads have ended, the worker comes no further from its exit. -/
theorem rank_le (h : Course c schedule state) {m n code : Nat} (hmn : m ≤ n)
    (hended : ∀ k, m ≤ k → ∀ thread ∈ (state k).threads, thread = .ended)
    (hcode : (state m).stage.code? = some code) : (state n).rank ≤ (state m).rank := by
  induction n, hmn using Nat.le_induction with
  | base => exact Nat.le_refl _
  | succ n hmn ih =>
    rcases h.eq_or_made n with heq | ⟨move, -, hmade⟩
    · exact heq ▸ ih
    · exact Nat.le_trans
        (Nat.le_of_lt (rank_lt_of_made hmade (hended n hmn) (h.code?_mono hmn hcode))) ih

/-- When all threads have ended, the turns that the worker gets lead it to its exit. -/
theorem exits_of_ended (h : Course c schedule state) (hturns : GetsTurns c schedule state)
    {n code : Nat} (hended : ∀ m, n ≤ m → ∀ thread ∈ (state m).threads, thread = .ended)
    (hcode : (state n).stage.code? = some code) : ∃ m, n ≤ m ∧ (state m).stage = .exits code := by
  induction hrank : (state n).rank using Nat.strongRecOn generalizing n with
  | _ r ih =>
    obtain ⟨m, hnm, hturn⟩ := hturns n
    have hcode' := h.code?_mono hnm hcode
    have hle := h.rank_le hnm hended hcode
    cases hstage : (state m).stage with
    | begins | calls | unwinds =>
      rw [hstage] at hcode'
      cases hcode'
    | exits code' =>
      rw [hstage] at hcode'
      obtain rfl := Option.some.inj hcode'
      exact ⟨m, hnm, hstage⟩
    | joins code' batch =>
      -- the turn is a move that brings the worker closer to its exit
      have hmoves : ∃ move, schedule m = some move := by
        rcases hturn with hmove | hmove | hnone
        · exact ⟨_, hmove⟩
        · exact ⟨_, hmove⟩
        · exact absurd hnone (exists_step_of_ended (h.sound m) (hended m hnm) hstage)
      obtain ⟨move, hmove⟩ := hmoves
      have hmade := made_of_step (h.moves m move hmove)
      have hlt := rank_lt_of_made hmade (hended m hnm) hcode'
      obtain ⟨k, hk, hexits⟩ := ih _ (hrank ▸ Nat.lt_of_lt_of_le hlt hle)
        (fun k hk ↦ hended k (by omega)) (code?_mono_of_made hmade hcode') rfl
      exact ⟨k, by omega, hexits⟩

/-- If there is an end of new threads, each thread ends, and the worker gets its turns, it exits. -/
theorem exits (h : Course c schedule state) (hbounded : Bounded state) (hends : EachEnds state)
    (hturns : GetsTurns c schedule state) {n code : Nat}
    (hcode : (state n).stage.code? = some code) :
    ∃ m, n ≤ m ∧ (state m).stage = .exits code := by
  obtain ⟨n₀, hended⟩ := h.exists_ended hbounded hends
  obtain ⟨m, hm, hexits⟩ := h.exits_of_ended hturns (n := max n n₀)
    (fun k hk ↦ hended k (Nat.le_trans (Nat.le_max_right ..) hk))
    (h.code?_mono (Nat.le_max_left ..) hcode)
  exact ⟨m, Nat.le_trans (Nat.le_max_left ..) hm, hexits⟩

end Course

/-- What holds of a worker that leaves threads behind. -/
structure Kept (c : Codec α) (schedule : Nat → Option (Move α)) (state : Nat → Lingering) :
    Prop where
  /-- When the worker exits, all threads have ended, and each was joined once. -/
  joined : ∀ n code, (state n).stage = .exits code →
    (∀ thread ∈ (state n).threads, thread = .ended) ∧
      (state n).joined.Perm ((List.range (state n).threads.length).map .own)
  /-- No thread is joined twice, or joined while it runs. -/
  once : ∀ n, (state n).joined.Nodup ∧
    ∀ thread : Nat, .own thread ∈ (state n).joined → (state n).threads[thread]? = some .ended
  /-- The worker neither joins nor waits for a thread that it did not start. -/
  own : ∀ n, ∀ r ∈ (state n).stage.batch ++ (state n).joined,
    ∃ thread, thread < (state n).threads.length ∧ r = .own thread
  /-- Before a thread is joined the outcome is delivered, with the exit code that this gives, and
  the pipe holds what it holds after that. -/
  sent : ∀ n, schedule n = some .join → ∃ m conclusion own code, m < n ∧
    schedule m = some (.deliver conclusion) ∧ (state n).stage.code? = some code ∧
      Worker.processBody c (state m).pipe conclusion = (.exits code, (state n).pipe) ∧
      conclusion.outcome = .ok own ∧
      Worker.Delivered c own (state m).pipe code (state n).pipe
  /-- Once the outcome is delivered, the worker exits, if there is an end of new threads, each
  thread ends, and the worker gets its turns. -/
  exits : Bounded state → EachEnds state → GetsTurns c schedule state → ∀ n code,
    (state n).stage.code? = some code → ∃ m, n ≤ m ∧ (state m).stage = .exits code

/-- Every course of a worker keeps to this, whatever the order in which its threads start, record
and end. -/
theorem kept_of_course {schedule : Nat → Option (Move α)} {state : Nat → Lingering}
    (h : Course c schedule state) : Kept c schedule state := by
  refine ⟨fun n code hstage ↦ ?_, fun n ↦ ?_, fun n r hr ↦ ?_, fun n hjoin ↦ ?_,
    fun hbounded hends hturns n code ↦ h.exits hbounded hends hturns⟩
  · obtain ⟨hrecorded, hended⟩ := (h.sound n).exits code hstage
    have hplaces := (h.sound n).places (by simp [hstage])
    have hnone : ((state n).threads.flatMap fun thread ↦ thread.unrecorded.toList) = [] :=
      List.flatMap_eq_nil_iff.2 fun thread hmem ↦ by rw [hended thread hmem]; rfl
    simp only [places, inHand, hstage, hrecorded, hnone, Stage.unrecorded, Stage.batch] at hplaces
    exact ⟨hended, hplaces⟩
  · refine ⟨?_, (h.sound n).ended⟩
    by_cases hbegins : (state n).stage = .begins
    · rw [((h.sound n).begins hbegins).2]
      exact .nil
    · have hnodup : ((List.range (state n).threads.length).map Recorded.own).Nodup :=
        List.nodup_range.map fun _ _ heq ↦ Recorded.own.inj heq
      exact (((h.sound n).places hbegins).nodup_iff.2 hnodup).of_append_right
  · by_cases hbegins : (state n).stage = .begins
    · simp [hbegins, Stage.batch, ((h.sound n).begins hbegins).2] at hr
    · refine (h.sound n).exists_own hbegins ?_
      simp only [places, List.append_assoc, List.mem_append] at hr ⊢
      exact .inr (.inr hr)
  · obtain ⟨code, hcode⟩ := (made_of_step (h.moves n .join hjoin)).exists_code?
    obtain ⟨m, conclusion, hm, hdeliver, hbody⟩ := h.sent hcode
    obtain ⟨own, hown, hdelivered⟩ := Worker.delivered_of_processBody hbody
    exact ⟨m, conclusion, own, code, hm, hdeliver, hcode, hbody, hown, hdelivered⟩

/-- The function leaves a thread behind that leaves another one behind. That one has ended before it
is recorded, and is recorded when the worker waits already. -/
theorem kept_of_course_late_record :
    let moves : List (Move Bool) := [.begin, .spawn .function, .record .function,
      .spawn (.thread 0), .finish 1, .deliver (.returns true), .take, .record (.thread 0),
      .finish 0, .join, .take, .join, .take]
    ∃ state, Course .bool (fun n ↦ moves[n]?) state ∧ Bounded state ∧ EachEnds state ∧
      GetsTurns .bool (fun n ↦ moves[n]?) state ∧ (state moves.length).stage = .exits 0 ∧
      (state moves.length).joined = [.own 0, .own 1] ∧
      Kept .bool (fun n ↦ moves[n]?) state := by
  intro moves
  obtain ⟨s, hrun, hthreads, hstage, hjoined⟩ : ∃ s,
      run .bool moves (.forked {} true [3]) = some s ∧ s.threads = [.ended, .ended] ∧
        s.stage = .exits 0 ∧ s.joined = [.own 0, .own 1] := ⟨_, rfl, rfl, rfl, rfl⟩
  obtain ⟨state, hcourse, hrest⟩ := Course.of_run hrun
  have hlate (n : Nat) : state (max n moves.length) = s := hrest _ (Nat.le_max_right ..)
  have hlength (n : Nat) : (state n).threads.length ≤ 2 := by
    have hle := hcourse.length_le (Nat.le_max_left n moves.length)
    rwa [hlate, hthreads] at hle
  have hend := hrest _ (Nat.le_refl _)
  refine ⟨state, hcourse, ⟨2, hlength⟩, fun n i hi ↦ ?_, fun n ↦ ?_, hend ▸ hstage,
    hend ▸ hjoined, kept_of_course hcourse⟩
  · refine ⟨max n moves.length, Nat.le_max_left .., ?_⟩
    have hlt := Nat.lt_of_lt_of_le hi (hlength n)
    rw [hlate, hthreads]
    match i, hlt with
    | 0, _ | 1, _ => rfl
  · refine ⟨max n moves.length, Nat.le_max_left .., .inr (.inr ?_)⟩
    rw [hlate]
    simp [step, hstage]

end Lingering

end Offload
