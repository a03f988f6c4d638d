import Offload.Child.Supervisor
import Mathlib.Data.List.Basic

/-!
# The calls that a supervisor makes

A system that keeps a record of what is asked of it (`Kernel.recording`) answers as the system it is
made from. A supervisor in it does what it does without the record (`forget_of_collect`,
`forget_waitUntil`, `forget_wait`, `forget_send`), so what the record says is said of every
supervisor in every system.

The one fact behind all others is `Follows`: an operation adds its calls to the record, makes none
and changes nothing once the worker is known to be gone, and takes it for gone at the first call
that says so, which is then the last. `Follows` is kept by one look, by one wait and by one signal,
and by any sequence of them (`Follows.trans`).

The record is a device of the proofs. It is a system like any other, with the same laws of the
clock, and so every operation can be run in it. What it adds is a list that no operation reads. The
lemmas of the last section say that taking it away afterwards gives what the operation does without
it; they are what turns a statement about records into one about supervisors.

What a call tells of the worker is read off its answer alone (`Call.ending?`), and so is what the
supervisor notes. That the two agree at every moment is the point of `Follows`.
-/

namespace Offload.Child

variable {σ : Type}

/-! ### What the answers say

An answer that tells of the end of the worker has a status with it, or says that there is no such
child any more. `tellEnd` looks for one among the calls. Interrupted calls and calls that fail tell
nothing.
-/

namespace Poll

/-- What a look at the worker answers. -/
def result : Poll → Except IoKind Bool
  | .running | .interrupted => .ok false
  | .ended _ | .noChild => .ok true
  | .failed kind => .error kind

/-- What an answer tells of the worker's end: nothing, or that it is gone, with its status if this
is the answer that saw it end. -/
def ending? : Poll → Option (Option ExitStatus)
  | .ended status => some (some status)
  | .noChild => some none
  | .running | .interrupted | .failed _ => none

end Poll

namespace Await

/-- What a wait for the worker answers, if it is not interrupted and comes to an end. -/
def result? : Await → Option (Except IoKind (Option ExitStatus))
  | .ended status => some (.ok (some status))
  | .noChild => some (.ok none)
  | .failed kind => some (.error kind)
  | .interrupted | .never => none

/-- What an answer tells of the worker's end. -/
def ending? : Await → Option (Option ExitStatus)
  | .ended status => some (some status)
  | .noChild => some none
  | .interrupted | .failed _ | .never => none

end Await

/-- A call of the system, with its answer. -/
inductive Call where
  | polled (answer : Poll)
  | awaited (answer : Await)
  | signalled (signal : Signal) (result : Except IoKind Unit)
  | slept (nanos : Nat)

namespace Call

/-- What a call tells of the worker's end. -/
def ending? : Call → Option (Option ExitStatus)
  | .polled answer => answer.ending?
  | .awaited answer => answer.ending?
  | .signalled .. | .slept _ => none

/-- The signal that a call sends. -/
def signal? : Call → Option Signal
  | .signalled signal _ => some signal
  | _ => none

/-- Whether a call is a look or a sleep, as a bounded wait makes them. -/
def isWait : Call → Bool
  | .polled _ | .slept _ => true
  | _ => false

/-- The time that a call sleeps, as asked for. -/
def nanos : Call → Nat
  | .slept nanos => nanos
  | _ => 0

end Call

/-- Whether one of the calls tells that the worker is gone. -/
def tellEnd (calls : List Call) : Prop :=
  ∃ c ∈ calls, c.ending? ≠ none

/-- The signals that are sent by the calls, in order. -/
def signals (calls : List Call) : List Signal :=
  calls.filterMap Call.signal?

/-- The time that the calls sleep in all, as asked for. -/
def sleptIn : List Call → Nat
  | [] => 0
  | c :: rest => c.nanos + sleptIn rest

@[simp]
theorem signals_append (calls calls' : List Call) :
    signals (calls ++ calls') = signals calls ++ signals calls' :=
  List.filterMap_append

@[simp]
theorem signals_cons (c : Call) (calls : List Call) :
    signals (c :: calls) = c.signal?.toList ++ signals calls := by
  rw [signals, List.filterMap_cons]
  rcases c.signal? with - | signal <;> rfl

@[simp]
theorem sleptIn_nil : sleptIn [] = 0 := rfl

@[simp]
theorem sleptIn_cons (c : Call) (calls : List Call) :
    sleptIn (c :: calls) = c.nanos + sleptIn calls := rfl

@[simp]
theorem sleptIn_append (calls calls' : List Call) :
    sleptIn (calls ++ calls') = sleptIn calls + sleptIn calls' := by
  induction calls with
  | nil => simp
  | cons c rest ih => simp [ih, Nat.add_assoc]

theorem not_tellEnd_nil : ¬ tellEnd [] := by
  simp [tellEnd]

/-- An end is told by one of two parts if it is told at all. -/
theorem tellEnd_append {calls calls' : List Call} :
    tellEnd (calls ++ calls') ↔ tellEnd calls ∨ tellEnd calls' := by
  simp [tellEnd, or_and_right, exists_or]

theorem tellEnd_cons {c : Call} {calls : List Call} :
    tellEnd (c :: calls) ↔ c.ending? ≠ none ∨ tellEnd calls := by
  simp [tellEnd]

/-- One call tells the end if it carries one. -/
theorem tellEnd_singleton {c : Call} : tellEnd [c] ↔ c.ending? ≠ none := by
  simp [tellEnd]

/-! ### Systems with a record -/

/-- A system, and the calls that were made of it. -/
structure Recorded (σ : Type) where
  system : σ
  calls : List Call := []

/-- The system that keeps a record. Reading the clock is no call. -/
def Kernel.recording (k : Kernel σ) : Kernel (Recorded σ) where
  now r := k.now r.system
  sleep nanos r := ⟨k.sleep nanos r.system, r.calls ++ [.slept nanos]⟩
  poll r :=
    let (answer, system) := k.poll r.system
    (answer, ⟨system, r.calls ++ [.polled answer]⟩)
  await r :=
    let (answer, system) := k.await r.system
    (answer, ⟨system, r.calls ++ [.awaited answer]⟩)
  signal signal r :=
    let (result, system) := k.signal signal r.system
    (result, ⟨system, r.calls ++ [.signalled signal result]⟩)
  interruptions r := k.interruptions r.system
  sleep_lasts nanos r := k.sleep_lasts nanos r.system
  now_le_poll r := k.now_le_poll r.system
  now_le_signal signal r := k.now_le_signal signal r.system
  interruptions_lt r := k.interruptions_lt r.system

namespace Supervisor

/-- The supervisor with an empty record. -/
def recorded (w : Supervisor σ) : Supervisor (Recorded σ) :=
  { w with system := { system := w.system } }

/-- The supervisor without the record. -/
def forget (w : Supervisor (Recorded σ)) : Supervisor σ :=
  { w with system := w.system.system }

/-- The calls that are recorded. -/
def calls (w : Supervisor (Recorded σ)) : List Call :=
  w.system.calls

/-- The supervisor after a call, which leaves the system so and tells so of the worker's end. -/
def heard {τ : Type} (w : Supervisor τ) (system : τ) (ending? : Option (Option ExitStatus)) :
    Supervisor τ :=
  match ending? with
  | some status => { w with system }.noteGone status
  | none => { w with system }

/-- The supervisor after a recorded call. -/
def after (w : Supervisor (Recorded σ)) (system : σ) (call : Call) : Supervisor (Recorded σ) :=
  w.heard ⟨system, w.calls ++ [call]⟩ call.ending?

/-- What is heard of the worker is the same without the record. -/
theorem forget_heard (w : Supervisor (Recorded σ)) (r : Recorded σ)
    (ending? : Option (Option ExitStatus)) :
    (w.heard r ending?).forget = w.forget.heard r.system ending? := by
  rcases ending? with - | status <;> rfl

/-! ### The operations, call by call -/

section Equations

variable {k : Kernel σ} {w w' : Supervisor σ} {system : σ}

/-- A worker that is known to be gone is not looked at. -/
theorem collect_of_reaped (hr : w.reaped = true) : w.collect k = (.ok true, w) := by
  rw [collect, if_pos hr]

/-- A look asks the system once, and notes an end if the answer tells one. -/
theorem collect_of_poll (hr : w.reaped = false) {answer : Poll}
    (h : k.poll w.system = (answer, system)) :
    w.collect k = (answer.result, w.heard system answer.ending?) := by
  rw [collect, if_neg (by simp [hr])]
  simp only [h]
  rcases answer with - | status | - | - | kind <;> rfl

/-- A look does not take the clock back. -/
theorem now_le_of_collect {result : Except IoKind Bool} (h : w.collect k = (result, w')) :
    k.now w.system ≤ k.now w'.system := by
  have hle := now_le_collect k w
  rwa [h] at hle

/-- Whether a worker counts as running when a look answers so. -/
def countsAsRunning : Except IoKind Bool → Bool
  | .ok gone => !gone
  | .error _ => true

/-- Whether a worker counts as running is told by a look. One that cannot be looked at counts as
running. -/
theorem isRunning_of_collect {result : Except IoKind Bool} (h : w.collect k = (result, w')) :
    w.isRunning k = (countsAsRunning result, w') := by
  rw [isRunning, h]
  rcases result with kind | gone <;> rfl

/-- A bounded wait after its first look. -/
theorem waitUntil_of_collect {result : Except IoKind Bool} (h : w.collect k = (result, w'))
    (deadline : Nat) :
    w.waitUntil k deadline =
      match result with
      | .ok false =>
        if k.now w'.system < deadline then
          waitUntil k deadline
            { w' with system := k.sleep (min tick (deadline - k.now w'.system)) w'.system }
        else (.ok false, w')
      | _ => (result, w') := by
  rw [waitUntil]
  split <;> next heq =>
    obtain ⟨rfl, rfl⟩ := Prod.mk.inj (heq.symm.trans h)
    rfl

/-- A worker that is known to be gone is not waited for. -/
theorem wait_of_reaped (hr : w.reaped = true) : w.wait k = (some (.ok w.status), w) := by
  rw [wait, if_pos hr]

/-- A wait without a bound after its first call. -/
theorem wait_of_await (hr : w.reaped = false) {answer : Await}
    (h : k.await w.system = (answer, system)) :
    w.wait k =
      if answer = .interrupted then wait k { w with system }
      else (answer.result?, w.heard system answer.ending?) := by
  rw [wait, if_neg (by simp [hr])]
  split <;> next heq =>
    obtain ⟨rfl, rfl⟩ := Prod.mk.inj (heq.symm.trans h)
    rfl

/-- It is sent nothing, and that is no failure. -/
theorem send_of_reaped (hr : w.reaped = true) (signal : Signal) :
    w.send k signal = (.ok (), w) := by
  rw [send, if_pos hr]

/-- A signal is one call, and nothing is heard of the worker by it. -/
theorem send_of_signal (hr : w.reaped = false) (signal : Signal) {result : Except IoKind Unit}
    (h : k.signal signal w.system = (result, system)) :
    w.send k signal = (result, { w with system }) := by
  rw [send, if_neg (by simp [hr]), h]

end Equations

/-! ### What an operation leads to

`Follows` compares two supervisors and the calls between them. It has no clause for what the worker
does: a call that tells nothing is compatible with a worker that is gone, and with one that runs.
-/

variable {w w' w'' : Supervisor (Recorded σ)} {added added' : List Call}

/-- From `w` to `w'` by the calls `added`. -/
structure Follows (w w' : Supervisor (Recorded σ)) (added : List Call) : Prop where
  pid : w'.pid = w.pid
  name : w'.name = w.name
  calls : w'.calls = w.calls ++ added
  /-- Once the worker is known to be gone, nothing is asked and nothing changes. -/
  idle : w.reaped = true → w' = w
  /-- As long as it is not known to be gone, no call has told so. -/
  running : w'.reaped = false → ¬ tellEnd added ∧ w'.status = w.status
  /-- It is taken for gone at the first call that tells so. -/
  gone : w.reaped = false → w'.reaped = true →
    ∃ before c, added = before ++ [c] ∧ ¬ tellEnd before ∧ c.ending? = some w'.status

namespace Follows

theorem refl (w : Supervisor (Recorded σ)) : Follows w w [] where
  pid := rfl
  name := rfl
  calls := (List.append_nil _).symm
  idle _ := rfl
  running _ := ⟨not_tellEnd_nil, rfl⟩
  gone h h' := absurd (h.symm.trans h') Bool.false_ne_true

/-- Once the worker is known to be gone, no call is made. -/
theorem nil_of_reaped (h : Follows w w' added) (hr : w.reaped = true) : added = [] := by
  have hcalls := h.calls
  rw [h.idle hr] at hcalls
  exact List.self_eq_append_right.1 hcalls

/-- What is known of a worker's end is not forgotten. -/
theorem reaped_mono (h : Follows w w' added) (hr : w.reaped = true) : w'.reaped = true := by
  rw [h.idle hr]
  exact hr

/-- A worker that is not known to be gone was not known to be gone before. -/
theorem not_reaped (h : Follows w w' added) (hr : w'.reaped = false) : w.reaped = false := by
  by_contra hw
  rw [h.reaped_mono (eq_true_of_ne_false hw)] at hr
  exact Bool.noConfusion hr

theorem trans (h : Follows w w' added) (h' : Follows w' w'' added') :
    Follows w w'' (added ++ added') where
  pid := h'.pid.trans h.pid
  name := h'.name.trans h.name
  calls := by rw [h'.calls, h.calls, List.append_assoc]
  idle hr := (h'.idle (h.reaped_mono hr)).trans (h.idle hr)
  running hr := by
    obtain ⟨hno', hs'⟩ := h'.running hr
    obtain ⟨hno, hs⟩ := h.running (h'.not_reaped hr)
    exact ⟨fun hend ↦ (tellEnd_append.1 hend).elim hno hno', hs'.trans hs⟩
  gone hr hr'' := by
    rcases hr' : w'.reaped with - | -
    · -- the call that tells the end is one of the second operation's
      obtain ⟨before, c, rfl, hno', hc⟩ := h'.gone hr' hr''
      obtain ⟨hno, -⟩ := h.running hr'
      exact ⟨added ++ before, c, (List.append_assoc ..).symm,
        fun hend ↦ (tellEnd_append.1 hend).elim hno hno', hc⟩
    · obtain ⟨before, c, hadded, hno, hc⟩ := h.gone hr hr'
      rw [h'.nil_of_reaped hr', List.append_nil, h'.idle hr']
      exact ⟨before, c, hadded, hno, hc⟩

/-- Whether the worker is known to be gone can be read off the calls. -/
theorem reaped_iff (h : Follows w w' added) (hr : w.reaped = false) :
    w'.reaped = true ↔ tellEnd added := by
  constructor
  · intro hr'
    obtain ⟨before, c, rfl, -, hc⟩ := h.gone hr hr'
    exact tellEnd_append.2 (.inr (tellEnd_singleton.2 (by simp [hc])))
  · intro hend
    by_contra hr'
    exact (h.running (eq_false_of_ne_true hr')).1 hend

/-- One call, of a worker that is not known to be gone. -/
theorem after (hr : w.reaped = false) (system : σ) (call : Call) :
    Follows w (w.after system call) [call] := by
  rcases hc : call.ending? with - | status
  · have heq : w.after system call = { w with system := ⟨system, w.calls ++ [call]⟩ } := by
      rw [Supervisor.after, hc, heard]
    rw [heq]
    exact
      { pid := rfl
        name := rfl
        calls := rfl
        idle := fun h ↦ absurd (hr.symm.trans h) Bool.false_ne_true
        running := fun _ ↦ ⟨fun hend ↦ tellEnd_singleton.1 hend hc, rfl⟩
        gone := fun _ h ↦ absurd (hr.symm.trans h) Bool.false_ne_true }
  · have heq : w.after system call =
        noteGone { w with system := ⟨system, w.calls ++ [call]⟩ } status := by
      rw [Supervisor.after, hc, heard]
    rw [heq]
    exact
      { pid := rfl
        name := rfl
        calls := rfl
        idle := fun h ↦ absurd (hr.symm.trans h) Bool.false_ne_true
        running := fun h ↦ Bool.noConfusion h
        gone := fun _ _ ↦ ⟨[], call, rfl, not_tellEnd_nil, hc⟩ }

end Follows

/-! ### The operations -/

variable (k : Kernel σ)

/-- What a look or a bounded wait answers, and whether the worker is known to be gone then. -/
def Tells (result : Except IoKind Bool) (w : Supervisor (Recorded σ)) : Prop :=
  match result with
  | .ok gone => w.reaped = gone
  | .error _ => w.reaped = false

/-- The answer that the worker is gone is given exactly if that is known then. -/
theorem Tells.ok_true_iff {result : Except IoKind Bool} (h : Tells result w) :
    result = .ok true ↔ w.reaped = true := by
  rcases result with kind | gone
  · simp [show w.reaped = false from h]
  · simp [show w.reaped = gone from h]

/-- A look is one call, or none if the worker is known to be gone. -/
theorem follows_of_collect {result : Except IoKind Bool}
    (h : w.collect k.recording = (result, w')) :
    ∃ added, Follows w w' added ∧ Tells result w' ∧
      (w.reaped = true ∧ added = [] ∧ result = .ok true ∨
        w.reaped = false ∧ ∃ answer, added = [.polled answer] ∧ result = answer.result) := by
  rcases hr : w.reaped with - | -
  · rw [collect_of_poll hr rfl] at h
    obtain ⟨rfl, rfl⟩ := Prod.mk.inj h
    have hcall := Follows.after hr (k.poll w.system.system).2 (.polled (k.poll w.system.system).1)
    refine ⟨_, hcall, ?_, .inr ⟨rfl, _, rfl, rfl⟩⟩
    show Tells (k.poll w.system.system).1.result (w.heard _ (k.poll w.system.system).1.ending?)
    rcases (k.poll w.system.system).1 with - | status | - | - | kind
    exacts [hr, rfl, hr, rfl, hr]
  · rw [collect_of_reaped hr] at h
    obtain ⟨rfl, rfl⟩ := Prod.mk.inj h
    exact ⟨[], .refl w, hr, .inl ⟨rfl, rfl, rfl⟩⟩

/-- The question whether the worker runs is one look. It is answered with "no" exactly if the worker
is known to be gone then. -/
theorem follows_isRunning (w : Supervisor (Recorded σ)) :
    ∃ added, Follows w (w.isRunning k.recording).2 added ∧
      (w.isRunning k.recording).2.reaped = !(w.isRunning k.recording).1 ∧
      (w.reaped = true ∧ added = [] ∨ w.reaped = false ∧ ∃ answer, added = [.polled answer]) := by
  rcases h : w.collect k.recording with ⟨result, w'⟩
  obtain ⟨added, hf, ht, hadded⟩ := follows_of_collect k h
  rw [isRunning_of_collect h]
  refine ⟨added, hf, ?_, hadded.imp (fun ⟨hr, hnone, _⟩ ↦ ⟨hr, hnone⟩)
    fun ⟨hr, answer, hlook, _⟩ ↦ ⟨hr, answer, hlook⟩⟩
  rcases result with kind | gone
  · exact ht
  · exact ht.trans (Bool.not_not gone).symm

/-- A wait for the time `limit`, from `w` to `w'`. -/
structure Waits (limit : Nat) (w w' : Supervisor (Recorded σ)) (result : Except IoKind Bool)
    (added : List Call) : Prop where
  follows : Follows w w' added
  tells : Tells result w'
  isWait : ∀ c ∈ added, c.isWait = true
  sleptIn_le : sleptIn added ≤ limit
  /-- A worker that is not gone is given up when the time has passed. -/
  lasts : result = .ok false → k.now w.system.system + limit ≤ k.now w'.system.system
  /-- The only other thing that ends a wait for it is a look that fails. -/
  failed : ∀ kind, result = .error kind → ∃ before, added = before ++ [.polled (.failed kind)]

/-- A look is a wait that has no time, or that comes to an end before its time is over. -/
theorem waits_of_collect {result : Except IoKind Bool} {limit : Nat}
    (h : w.collect k.recording = (result, w'))
    (hlasts : result = .ok false → k.now w.system.system + limit ≤ k.now w'.system.system) :
    ∃ added, Waits k limit w w' result added := by
  obtain ⟨added, hf, ht, ⟨-, rfl, rfl⟩ | ⟨-, answer, rfl, rfl⟩⟩ := follows_of_collect k h
  · exact ⟨[], hf, ht, by simp, Nat.zero_le _, hlasts, nofun⟩
  · refine ⟨_, hf, ht, by simp [Call.isWait], by simp [Call.nanos], hlasts, fun kind hkind ↦ ?_⟩
    cases answer <;> cases hkind
    exact ⟨[], rfl⟩

/-- The sleeps of a wait fit in between its begin and the deadline: each lasts as long as was asked
for at least, and none is longer than what is left. -/
theorem waits_waitUntil (deadline : Nat) (w : Supervisor (Recorded σ)) :
    ∃ added, Waits k (deadline - k.now w.system.system) w (w.waitUntil k.recording deadline).2
      (w.waitUntil k.recording deadline).1 added := by
  fun_induction waitUntil k.recording deadline w
  case case1 w kind w' h => exact waits_of_collect k h nofun
  case case2 w w' h => exact waits_of_collect k h nofun
  case case3 w w' h now hlt ih =>
    have hle : k.now w.system.system ≤ k.now w'.system.system := now_le_of_collect h
    obtain ⟨look, hlook⟩ : ∃ look, Waits k 0 w w' (.ok false) look :=
      waits_of_collect k h fun _ ↦ hle
    -- one round: a look, a sleep, and the rest of the wait from there
    obtain ⟨rest, hrest⟩ := ih
    have hsleep : Follows w' _ [.slept (min tick (deadline - now))] :=
      .after hlook.tells (k.sleep (min tick (deadline - now)) w'.system.system) (.slept _)
    have hnow : k.now w.system.system ≤ now := hle
    have hlasts : now + min tick (deadline - now) ≤ _ :=
      k.sleep_lasts (min tick (deadline - now)) w'.system.system
    refine ⟨look ++ [.slept (min tick (deadline - now))] ++ rest,
      (hlook.follows.trans hsleep).trans hrest.follows, hrest.tells, ?_, ?_, fun hfalse ↦ ?_,
      fun kind hkind ↦ ?_⟩
    · simp only [List.mem_append, List.mem_singleton]
      rintro c ((hc | rfl) | hc)
      · exact hlook.isWait c hc
      · rfl
      · exact hrest.isWait c hc
    · have hlook := hlook.sleptIn_le
      have hrest := hrest.sleptIn_le
      simp only [sleptIn_append, sleptIn_cons, sleptIn_nil, Call.nanos, Kernel.recording] at hrest ⊢
      omega
    · -- what is left of the time after the sleep is waited for in the rest
      have hend := hrest.lasts hfalse
      simp only [Kernel.recording] at hend ⊢
      omega
    · obtain ⟨before, rfl⟩ := hrest.failed kind hkind
      exact ⟨_, (List.append_assoc ..).symm⟩
  case case4 w w' h now hlt =>
    have hle : k.now w.system.system ≤ k.now w'.system.system := now_le_of_collect h
    have hover : deadline ≤ k.now w'.system.system := Nat.not_lt.1 hlt
    refine waits_of_collect k h fun _ ↦ ?_
    dsimp only
    omega

/-- A wait for a time is a wait until that time has passed from its begin. -/
theorem waits_waitFor (timeout : Duration) (w : Supervisor (Recorded σ)) :
    ∃ added, Waits k timeout.nanos w (w.waitFor k.recording timeout).2
      (w.waitFor k.recording timeout).1 added := by
  have h := waits_waitUntil k (k.now w.system.system + timeout.nanos) w
  rwa [Nat.add_sub_cancel_left] at h

/-- A signal is one call, or none if the worker is known to be gone. -/
theorem follows_send (signal : Signal) (w : Supervisor (Recorded σ)) :
    ∃ added, Follows w (w.send k.recording signal).2 added ∧
      (w.send k.recording signal).2.reaped = w.reaped ∧
      (w.reaped = true ∧ added = [] ∨
        w.reaped = false ∧ ∃ result, added = [.signalled signal result]) := by
  rcases hr : w.reaped with - | -
  · have hcall := Follows.after hr (k.signal signal w.system.system).2
      (.signalled signal (k.signal signal w.system.system).1)
    rw [send_of_signal hr signal rfl]
    exact ⟨_, hcall, hr, .inr ⟨rfl, _, rfl⟩⟩
  · rw [send_of_reaped hr]
    exact ⟨[], .refl w, hr, .inl ⟨rfl, rfl⟩⟩

/-- What a wait without a bound answers, and whether the worker is known to be gone then. -/
def TellsEnd (result : Option (Except IoKind (Option ExitStatus))) (w : Supervisor (Recorded σ)) :
    Prop :=
  match result with
  | some (.ok status) => w.reaped = true ∧ w.status = status
  | some (.error _) | none => w.reaped = false

/-- A wait without a bound hears of the worker by one call, or is interrupted. -/
theorem follows_of_await (hr : ¬ w.reaped = true) {answer : Await} {r : Recorded σ}
    (h : k.recording.await w.system = (answer, r)) :
    Follows w (w.heard r answer.ending?) [.awaited answer] := by
  obtain ⟨rfl, rfl⟩ := Prod.mk.inj h
  exact .after (eq_false_of_ne_true hr) _ (.awaited _)

/-- A wait without a bound is a row of such calls, and the last one answers it. -/
theorem follows_wait (w : Supervisor (Recorded σ)) :
    ∃ added, Follows w (w.wait k.recording).2 added ∧
      TellsEnd (w.wait k.recording).1 (w.wait k.recording).2 := by
  fun_induction wait k.recording w
  case case1 w hr => exact ⟨[], .refl w, hr, rfl⟩
  case case2 w hr status r h => exact ⟨_, follows_of_await k hr h, rfl, rfl⟩
  case case3 w hr r h => exact ⟨_, follows_of_await k hr h, rfl, rfl⟩
  case case4 w hr kind r h => exact ⟨_, follows_of_await k hr h, eq_false_of_ne_true hr⟩
  case case5 w hr r h => exact ⟨_, follows_of_await k hr h, eq_false_of_ne_true hr⟩
  case case6 w hr r h ih =>
    obtain ⟨rest, hrest, htells⟩ := ih
    exact ⟨_, (follows_of_await k hr h).trans hrest, htells⟩

/-! ### The same without the record -/

theorem forget_of_collect {result : Except IoKind Bool}
    (h : w.collect k.recording = (result, w')) : w.forget.collect k = (result, w'.forget) := by
  rcases hr : w.reaped with - | -
  · rw [collect_of_poll hr rfl] at h
    obtain ⟨rfl, rfl⟩ := Prod.mk.inj h
    rw [collect_of_poll (by exact hr) rfl, forget_heard]
    rfl
  · rw [collect_of_reaped hr] at h
    obtain ⟨rfl, rfl⟩ := Prod.mk.inj h
    exact collect_of_reaped hr

theorem forget_isRunning (w : Supervisor (Recorded σ)) :
    w.forget.isRunning k =
      ((w.isRunning k.recording).1, (w.isRunning k.recording).2.forget) := by
  rcases h : w.collect k.recording with ⟨result, w'⟩
  rw [isRunning_of_collect h, isRunning_of_collect (forget_of_collect k h)]

theorem forget_waitUntil (deadline : Nat) (w : Supervisor (Recorded σ)) :
    w.forget.waitUntil k deadline =
      ((w.waitUntil k.recording deadline).1, (w.waitUntil k.recording deadline).2.forget) := by
  fun_induction waitUntil k.recording deadline w
  case case1 w kind w' h => exact waitUntil_of_collect (forget_of_collect k h) deadline
  case case2 w w' h => exact waitUntil_of_collect (forget_of_collect k h) deadline
  case case3 w w' h now hlt ih =>
    rw [waitUntil_of_collect (forget_of_collect k h) deadline]
    exact (if_pos hlt).trans ih
  case case4 w w' h now hlt =>
    rw [waitUntil_of_collect (forget_of_collect k h) deadline]
    exact if_neg hlt

theorem forget_waitFor (timeout : Duration) (w : Supervisor (Recorded σ)) :
    w.forget.waitFor k timeout =
      ((w.waitFor k.recording timeout).1, (w.waitFor k.recording timeout).2.forget) :=
  forget_waitUntil k _ w

/-- A call that waits for the worker answers the same without the record. -/
theorem forget_of_await (hr : ¬ w.reaped = true) {answer : Await} {r : Recorded σ}
    (h : k.recording.await w.system = (answer, r)) :
    w.forget.wait k =
      if answer = .interrupted then wait k (forget { w with system := r })
      else (answer.result?, (w.heard r answer.ending?).forget) := by
  obtain ⟨rfl, rfl⟩ := Prod.mk.inj h
  have hr' : w.forget.reaped = false := eq_false_of_ne_true hr
  rw [wait_of_await hr' rfl, forget_heard]
  rfl

theorem forget_wait (w : Supervisor (Recorded σ)) :
    w.forget.wait k = ((w.wait k.recording).1, (w.wait k.recording).2.forget) := by
  fun_induction wait k.recording w
  case case1 w hr => exact wait_of_reaped hr
  case case2 w hr status r h => exact forget_of_await k hr h
  case case3 w hr r h => exact forget_of_await k hr h
  case case4 w hr kind r h => exact forget_of_await k hr h
  case case5 w hr r h => exact forget_of_await k hr h
  case case6 w hr r h ih => exact (forget_of_await k hr h).trans ih

theorem forget_send (signal : Signal) (w : Supervisor (Recorded σ)) :
    w.forget.send k signal =
      ((w.send k.recording signal).1, (w.send k.recording signal).2.forget) := by
  rcases hr : w.reaped with - | -
  · rw [send_of_signal hr signal rfl, send_of_signal (by exact hr) signal rfl]
    rfl
  · rw [send_of_reaped hr, send_of_reaped (by exact hr)]

end Supervisor

end Offload.Child
