import Offload.Handle

/-!
# Scripts on a handle

A script is what callers do to a handle, step by step. A callback is a script of its own: it is
called with the outcome, takes its steps on the same handle, and may panic at the end. A panic
passes through every callback that is running and ends the step that started them.

The completions that publishing hands out wait in a queue until a step fires them. A completion
leaves the queue before its callback runs, and a callback that was called is held by no place any
more, so the calls that are running at one time are calls of different callbacks. Their number in
the script bounds the depth.
-/

namespace Offload

namespace Handle

mutual

/-- A callback: its name, its steps, and what it panics with after them. -/
inductive Callback (α : Type) where
  | mk (name : String) (body : Steps α) (panic : Option String)

/-- A step on a handle. -/
inductive Step (α : Type) where
  | register (kind : CallbackKind) (callback : Callback α)
  | publish (outcome : Outcome α)
  /-- Fire the oldest completion, unless it was replaced. -/
  | fire
  /-- Run the callback of the oldest completion, replaced or not. -/
  | fireCompletion
  | wait
  /-- Wait for a bounded time. -/
  | waitBriefly
  /-- Let callers wait on threads of their own. -/
  | startWaiters (count : Nat)
  /-- What those callers got. -/
  | joinWaiters
  | noteTermination (report : Report)
  | inspect

/-- The steps of a script. -/
inductive Steps (α : Type) where
  | done
  | next (step : Step α) (rest : Steps α)

end

variable {α : Type}

/-- The steps of a list. -/
def Steps.ofList : List (Step α) → Steps α
  | [] => .done
  | step :: rest => .next step (ofList rest)

/-- The steps as a list. -/
def Steps.toList : Steps α → List (Step α)
  | .done => []
  | .next step rest => step :: rest.toList

mutual

/-- The callbacks in a callback, itself included. -/
def Callback.count : Callback α → Nat
  | .mk _ body _ => body.count + 1

/-- The callbacks in a step. -/
def Step.count : Step α → Nat
  | .register _ callback => callback.count
  | _ => 0

/-- The callbacks in a script. -/
def Steps.count : Steps α → Nat
  | .done => 0
  | .next step rest => step.count + rest.count

end

/-- The answer to a step. -/
inductive Answer (α : Type) where
  | nothing
  | published (state : TaskState)
  | ignored
  | fired
  | nothingToFire
  | value (value : Option α)
  | wouldBlock
  | values (values : List (Option α))
  | view (handle : Handle α (Callback α))
  | panicked (message : String)

/-- What is seen of the callbacks. -/
inductive Entry (α : Type) where
  /-- A callback was called. -/
  | called (name : String) (outcome : Outcome α) (state : TaskState)
  /-- A step of a callback was answered. -/
  | answered (name : String) (answer : Answer α)

/-- A handle in use. -/
structure Session (α : Type) where
  handle : Handle α (Callback α)
  completions : List (Completion α (Callback α)) := []
  waiters : Nat := 0
  log : List (Entry α) := []

/-- Actions on a session. A panic is thrown, and what was done before it stays done. -/
abbrev Action (α : Type) := ExceptT String (StateM (Session α))

/-- Add an entry to the log. -/
def note (entry : Entry α) : Action α Unit :=
  modify fun s => { s with log := s.log ++ [entry] }

/-- Take the oldest completion out of the queue. -/
def dequeue : Action α (Option (Completion α (Callback α))) := do
  let s ← get
  match s.completions with
  | [] => return none
  | completion :: rest =>
    set { s with completions := rest }
    return some completion

/-- Take one step, where `call` runs a callback. -/
def perform (call : Callback α → Outcome α → Action α Unit) : Step α → Action α (Answer α)
  | .register kind callback => do
    let s ← get
    let (registration, handle) := s.handle.register kind callback
    set { s with handle }
    match registration with
    | .runs outcome => call callback outcome
    | _ => pure ()
    return .nothing
  | .publish outcome => do
    let s ← get
    let (completion, handle) := s.handle.publish outcome
    set { s with handle, completions := s.completions ++ completion.toList }
    return if completion.isSome then .published outcome.state else .ignored
  | .fire => do
    let some completion ← dequeue | return .nothingToFire
    if let some callback := (← get).handle.callbackToFire? completion then
      call callback completion.outcome
    return .fired
  | .fireCompletion => do
    let some completion ← dequeue | return .nothingToFire
    if let some callback := completion.callback then
      call callback completion.outcome
    return .fired
  | .wait =>
    return ((← get).handle.wait?.map Answer.value).getD .wouldBlock
  | .waitBriefly =>
    return .value (← get).handle.value?
  | .startWaiters count => do
    modify fun s => { s with waiters := s.waiters + count }
    return .nothing
  | .joinWaiters => do
    let s ← get
    match s.handle.wait? with
    | none => return .wouldBlock
    | some value =>
      set { s with waiters := 0 }
      return .values (List.replicate s.waiters value)
  | .noteTermination report => do
    modify fun s => { s with handle := s.handle.noteTermination report }
    return .nothing
  | .inspect =>
    return .view (← get).handle

/-- Run a callback, with at most `depth` callbacks running at one time. -/
def call : (depth : Nat) → Callback α → Outcome α → Action α Unit
  | 0, _, _ => return
  | depth + 1, .mk name body panic, outcome => do
    note (.called name outcome (← get).handle.state)
    for step in body.toList do
      let answer ← perform (call depth) step
      note (.answered name answer)
    match panic with
    | some message => throw message
    | none => return

/-- One step of a script: its answer, and the entries that it made. -/
def Session.step (depth : Nat) (step : Step α) (session : Session α) :
    (Answer α × List (Entry α)) × Session α :=
  let (answer, session) := (perform (call depth) step).run { session with log := [] }
  ((match answer with
    | .ok answer => answer
    | .error message => .panicked message, session.log), session)

/-- The steps of a script in turn: for each one its answer, its entries, and the state then. -/
def Session.run (depth : Nat) : List (Step α) → Session α →
    List (Answer α × List (Entry α) × TaskState) × Session α
  | [], session => ([], session)
  | step :: rest, session =>
    let ((answer, entries), session) := session.step depth step
    let (answers, last) := session.run depth rest
    ((answer, entries, session.handle.state) :: answers, last)

/-- Run a script on a new handle. -/
def runScript (identity : Identity) (pid : Option Nat) (steps : Steps α) :
    List (Answer α × List (Entry α) × TaskState) × Session α :=
  Session.run steps.count steps.toList { handle := .new identity pid }

end Handle

end Offload
