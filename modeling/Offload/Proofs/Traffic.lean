import Offload.Task
import Offload.Proofs.Limiters
import Offload.Proofs.Watch

/-!
# Calls in traffic

Many calls at one time, of tasks that count in one family of limiters. A call is made of steps, and
between two of its steps any number of steps of other calls may happen: a *move* is a step of one
call, and a run is a list of moves.

The steps are cut where the limiter is touched. A call takes its slot (`Task.takeSlot`) and is
started then, by a launch of its worker and of its watch, either of which may fail; if it fails the
call gives its slot back (`Task.release`) and returns the error. A watch asks its receiver, and on
an outcome publishes, stops, fires, releases and reaps, each a step of its own, while callers may
register callbacks on the handle from their own threads.

The steps are those of the library: a call without others in between is `Task.call`
(`run_callAlone`) and a watch without others in between is `Watch.run` (`run_watchAlone`).

A step that cannot be made leaves a run undefined. So a run of the moves is also the statement that
each of them could be made: that the call was admitted before it was launched, and that a watch had
something to report. Nothing is said about which of the possible moves comes next, and every order
is a run.
-/

namespace Offload

variable {α κ : Type}

/-! ### The steps of a watch

A watch is cut where others may see it: at each question, and between each two things that it does
with an outcome. What it does in one step is done under one lock, or touches nothing that is shared.
-/

/-- What a watch has still to do. -/
inductive Watch.Phase (α κ : Type) where
  /-- It asks the receiver. -/
  | asking
  /-- It has published an outcome and stops the worker next. -/
  | stopping (completion : Completion α κ)
  | firing (completion : Completion α κ)
  | releasing
  | reaping (ending : Watch.Ending)
  | ended (ending : Watch.Ending)

namespace Traffic

/-- A step of a call that has a slot. -/
inductive Action (α κ : Type) where
  /-- The worker and the watch are launched, or one of them cannot be. A worker that is a process
  has a pid. -/
  | start (result : Except TaskError (Option Nat))
  /-- The slot of a call that could not be started is given back. -/
  | giveBack
  /-- The receiver answers the watch. -/
  | receive (answer : Channel.Answer α)
  /-- The watch stops the worker, if that is asked for; the worker answers so. -/
  | stop (alive : Bool) (report : Option Report)
  | fire
  /-- The watch gives the slot back. -/
  | release
  | reap
  /-- A caller registers a callback on a thread of its own. -/
  | register (kind : CallbackKind) (callback : κ)

end Traffic

open Traffic (Action)

/-- One step of a watch, on what it works on. -/
def Watch.advance (settings : Settings) :
    Watch.Phase α κ → Action α κ → Watch.State α κ → Option (Watch.Phase α κ × Watch.State α κ)
  | .asking, .receive answer, s =>
    let s := s.emit (.asked settings.pollInterval)
    match answer with
    | .ok none => some (.asking, s)
    | .ok (some outcome) =>
      match s.handle.publish outcome with
      | (none, _) => some (.ended .ignored, s)
      | (some completion, handle) =>
        some (.stopping completion, { s with handle }.emit (.published outcome.state))
    | .error _ => some (.reaping .lost, s)
  | .stopping completion, .stop alive report, s =>
    some (.firing completion, (s.stop (fun _ ↦ false) settings { alive, report }).2)
  | .firing completion, .fire, s => some (.releasing, s.fire completion)
  | .releasing, .release, s => some (.reaping .finished, s.release)
  | .reaping ending, .reap, s => some (.ended ending, s.reap)
  | phase, .register kind callback, s =>
    some (phase, { s with handle := (s.handle.register kind callback).2 })
  | _, _, _ => none

/-- The steps of a list in turn. -/
def Watch.advanceAll (settings : Settings) :
    List (Action α κ) → Watch.Phase α κ × Watch.State α κ →
      Option (Watch.Phase α κ × Watch.State α κ)
  | [], w => some w
  | action :: rest, w =>
    (Watch.advance settings w.1 action w.2).bind (Watch.advanceAll settings rest)

/-! ### Calls -/

namespace Traffic

/-- Where a call stands. -/
inductive Stage (α κ : Type) where
  /-- It was refused a slot. -/
  | refused (error : TaskError)
  /-- It has a slot and is being started. -/
  | admitted
  /-- It could not be started and still has its slot. -/
  | failed (error : TaskError)
  /-- It could not be started and gave its slot back. -/
  | abandoned (error : TaskError)
  /-- It was started, and a watch is at work on its handle. -/
  | watched (phase : Watch.Phase α κ) (handle : Handle α κ) (effects : List (Watch.Effect α κ))

end Traffic

/-- A call of a task. -/
structure Flight (α κ : Type) where
  task : Task
  stage : Traffic.Stage α κ

/-- One step of a call, in the limiters that all calls share. The watch works on the table of its
task's limiter. -/
def Flight.act (c : Flight α κ) (ls : Limiters) (action : Action α κ) :
    Option (Flight α κ × Limiters) :=
  match c.stage, action with
  | .admitted, .start (.ok pid) =>
    some ({ c with stage := .watched .asking (.new c.task.identity pid) [] }, ls)
  | .admitted, .start (.error e) => some ({ c with stage := .failed e }, ls)
  | .failed e, .giveBack => some ({ c with stage := .abandoned e }, c.task.release ls)
  | .watched phase handle effects, action =>
    let table := (ls.get? c.task.limiter).getD .empty
    (Watch.advance c.task.settings phase action ⟨handle, table, effects⟩).map fun (phase, s) ↦
      ({ c with stage := .watched phase s.handle s.effects }, ls.set c.task.limiter s.limiter)
  | _, _ => none

/-- Calls that share a family of limiters, the oldest first. A call is known by its number. -/
structure Traffic (α κ : Type) where
  limiters : Limiters
  calls : List (Flight α κ) := []

namespace Traffic

/-- A step of one of the calls. -/
inductive Move (α κ : Type) where
  /-- A call of a task begins: it tries to take a slot. -/
  | call (task : Task)
  | act (n : Nat) (action : Action α κ)

/-- One move. A task has a limiter, so a task without one is not called. -/
def step (s : Traffic α κ) : Move α κ → Option (Traffic α κ)
  | .call task =>
    if (s.limiters.get? task.limiter).isSome then
      match task.takeSlot s.limiters with
      | (.ok (), limiters) => some ⟨limiters, s.calls ++ [⟨task, .admitted⟩]⟩
      | (.error e, limiters) => some ⟨limiters, s.calls ++ [⟨task, .refused e⟩]⟩
    else none
  | .act n action =>
    (s.calls[n]?).bind fun c ↦
      (c.act s.limiters action).map fun (c, limiters) ↦ ⟨limiters, s.calls.set n c⟩

/-- The moves of a list in turn. -/
def run : List (Move α κ) → Traffic α κ → Option (Traffic α κ)
  | [], s => some s
  | move :: rest, s => (s.step move).bind (run rest)

/-- A run goes on from where an earlier one has come to. -/
theorem run_append (ms rest : List (Move α κ)) (s : Traffic α κ) :
    run (ms ++ rest) s = (run ms s).bind (run rest) := by
  induction ms generalizing s with
  | nil => rfl
  | cons move ms ih =>
    rw [List.cons_append, run, run]
    rcases s.step move with - | s'
    · rfl
    · exact ih s'

/-- A longer run ends with a step. -/
theorem run_concat_eq_some_iff {ms : List (Move α κ)} {move : Move α κ} {s₀ s' : Traffic α κ} :
    run (ms ++ [move]) s₀ = some s' ↔ ∃ s, run ms s₀ = some s ∧ s.step move = some s' := by
  rw [run_append, Option.bind_eq_some_iff]
  simp only [run, Option.bind_eq_some_iff]
  simp

/-! ### Calls without others in between

The steps are compared with the functions that they are cut from. A call that is not interrupted
leaves the limiters that `Task.call` leaves, and returns what it returns; and a watch that is not
interrupted leaves the handle, the effects and the table that `Watch.run` leaves.
-/

/-- The moves of a call that is started at once, up to its return. -/
def callAlone (n : Nat) (task : Task) (result : Except TaskError (Option Nat)) :
    List (Move α κ) :=
  .call task :: .act n (.start result) ::
    match result with
    | .ok _ => []
    | .error _ => [.act n .giveBack]

/-- A call that gets a slot and has no others in between returns what `Task.call` returns, and
leaves the limiters that it leaves. -/
theorem run_callAlone {s : Traffic α κ} {task : Task} {table : Limiter}
    (hk : s.limiters.get? task.limiter = some table)
    (hl : task.settings.limit.admits (s.limiters.inFlight task.limiter task.identity) = true)
    (result : Except TaskError (Option Nat)) :
    (task.call result s.limiters).1 = result ∧
      run (callAlone s.calls.length task result) s =
        some ⟨(task.call result s.limiters).2, s.calls ++ [⟨task, match result with
          | .ok pid => .watched .asking (.new task.identity pid) []
          | .error e => .abandoned e⟩]⟩ := by
  have hadmitted : (s.limiters.enter task.limiter task.identity task.settings.limit).1 = true :=
    (Limiters.enter_fst hk _ _).trans hl
  have hslot : task.takeSlot s.limiters =
      (.ok (), (s.limiters.enter task.limiter task.identity task.settings.limit).2) := by
    simp [Task.takeSlot, hadmitted]
  cases result with
  | ok pid => simp [callAlone, run, step, Flight.act, Task.call, hslot, hk]
  | error e => simp [callAlone, run, step, Flight.act, Task.call, hslot, hk]

end Traffic

/-- The steps of a watch from its first question on, the answers to all but the last being
"nothing yet". -/
def Watch.watchAlone (nothings : Nat) (answer : Channel.Answer α) (alive : Bool)
    (report : Option Report) : List (Action α κ) :=
  List.replicate nothings (.receive (.ok none)) ++ .receive answer ::
    match answer with
    | .ok _ => [.stop alive report, .fire, .release, .reap]
    | .error _ => [.reap]

/-- A watch that nothing comes between does what `Watch.run` does, and ends as that ends. -/
theorem Watch.advanceAll_watchAlone (panics : κ → Bool) (settings : Settings) (nothings : Nat)
    {answer : Channel.Answer α} (ha : answer ≠ .ok none) (alive : Bool) (report : Option Report)
    {s : Watch.State α κ} (hs : s.handle.settled = none) :
    advanceAll settings (watchAlone nothings answer alive report) (.asking, s) =
      let last := run panics settings { alive, report }
        (List.replicate nothings (.answers (.ok none)) ++ [.answers answer]) s
      some (.ended last.1, last.2) := by
  induction nothings generalizing s with
  | zero =>
    rcases answer with loss | _ | outcome
    · rfl
    · exact absurd rfl ha
    · simp [watchAlone, advanceAll, advance, run, finish, Handle.publish, hs, stop_eq, State.emit]
  | succ n ih =>
    -- both sides ask once and go on from there
    have hs' : (s.emit (.asked settings.pollInterval)).handle.settled = none := hs
    exact ih hs'

namespace Traffic

/-- The moves of one watch, with no others in between, are its steps. In the end its call stands
where they lead, and the table of its limiter is the one that they leave. -/
theorem run_advanceAll {s : Traffic α κ} {n : Nat} {task : Task} {phase : Watch.Phase α κ}
    {handle : Handle α κ} {effects : List (Watch.Effect α κ)} {table : Limiter}
    (hc : s.calls[n]? = some ⟨task, .watched phase handle effects⟩)
    (hk : s.limiters.get? task.limiter = some table) (actions : List (Action α κ)) :
    run (actions.map (.act n)) s =
      (Watch.advanceAll task.settings actions (phase, ⟨handle, table, effects⟩)).map fun w ↦
        ⟨s.limiters.set task.limiter w.2.limiter,
          s.calls.set n ⟨task, .watched w.1 w.2.handle w.2.effects⟩⟩ := by
  obtain ⟨hn, hget⟩ := List.getElem?_eq_some_iff.1 hc
  induction actions generalizing s phase handle effects table with
  | nil =>
    have hlimiters : s.limiters.set task.limiter table = s.limiters := by
      simpa [hk] using s.limiters.set_getD_get? task.limiter
    have hcalls : s.calls.set n ⟨task, .watched phase handle effects⟩ = s.calls := by
      rw [← hget, List.set_getElem_self]
    simp [run, Watch.advanceAll, hlimiters, hcalls]
  | cons action rest ih =>
    have hact : s.step (.act n action) =
        (Watch.advance task.settings phase action ⟨handle, table, effects⟩).map fun w ↦
          ⟨s.limiters.set task.limiter w.2.limiter,
            s.calls.set n ⟨task, .watched w.1 w.2.handle w.2.effects⟩⟩ := by
      simp [step, hc, Flight.act, hk, Option.map_map, Function.comp_def]
    rw [List.map_cons, run, hact, Watch.advanceAll]
    rcases Watch.advance task.settings phase action ⟨handle, table, effects⟩ with - | ⟨phase', w⟩
    · rfl
    · -- the rest begins where the first step led
      have hn' : n < (s.calls.set n ⟨task, .watched phase' w.handle w.effects⟩).length := by
        rwa [List.length_set]
      have hget' := List.getElem_set_self hn'
      have hk' : (s.limiters.set task.limiter w.limiter).get? task.limiter = some w.limiter := by
        rw [Limiters.get?_set hk, if_pos rfl]
      simp only [Option.map_some, Option.bind_some]
      rw [ih (List.getElem?_eq_some_iff.2 ⟨hn', hget'⟩) hk' hn' hget']
      simp only [Limiters.set_set, List.set_set]

/-- A watch that starts on an incomplete handle, and has no others in between, does to its call and
its limiter what `Watch.run` does. -/
theorem run_watchAlone {s : Traffic α κ} {n : Nat} {task : Task} {handle : Handle α κ}
    {effects : List (Watch.Effect α κ)} {table : Limiter}
    (hc : s.calls[n]? = some ⟨task, .watched .asking handle effects⟩)
    (hk : s.limiters.get? task.limiter = some table) (hs : handle.settled = none) (nothings : Nat)
    {answer : Channel.Answer α} (ha : answer ≠ .ok none) (panics : κ → Bool) (alive : Bool)
    (report : Option Report) :
    let last := Watch.run panics task.settings { alive, report }
      (List.replicate nothings (.answers (.ok none)) ++ [.answers answer]) ⟨handle, table, effects⟩
    run ((Watch.watchAlone nothings answer alive report).map (.act n)) s =
      some ⟨s.limiters.set task.limiter last.2.limiter,
        s.calls.set n ⟨task, .watched (.ended last.1) last.2.handle last.2.effects⟩⟩ := by
  intro last
  rw [run_advanceAll hc hk, Watch.advanceAll_watchAlone panics task.settings nothings ha alive
    report hs]
  rfl

end Traffic

end Offload
