import Offload.Child.Machine
import Offload.Handle.Script
import Offload.Task
import Offload.Termination
import Offload.Watch

/-!
# Calls in progress

A call has a handle, a worker, and a watch that takes the worker's outcome to the handle. The worker
is a child process with a pipe, or a thread with a channel. The watch is run as soon as the receiver
has an answer, so between two steps a call is either quiet or over.
-/

namespace Offload

open Child (Machine Supervisor)
open Channel (Answer InProcess Pipe)

/-- What runs a call. -/
inductive CallWorker where
  | process (supervisor : Supervisor Machine)
  | thread (behaviour : Behaviour) (channel : InProcess Wire.Dynamic)

/-- A call that was started. -/
structure Call where
  task : Task
  handle : Handle Wire.Dynamic (Handle.Callback Wire.Dynamic)
  worker : CallWorker
  /-- Whether the watch has ended. -/
  watched : Bool := false

namespace Call

/-- A callback, called with an outcome. -/
abbrev Entry : Type := Handle.Callback Wire.Dynamic × Outcome Wire.Dynamic

/-- Start a call in a child process with the given pid. -/
def inProcess (task : Task) (b : Behaviour) (pid : Nat) : Call :=
  { task, handle := .new task.identity (some pid)
    worker := .process { pid, name := task.identity.name, system := .launch b } }

/-- Start a call on a thread. -/
def onThread (task : Task) (b : Behaviour) : Call :=
  { task, handle := .new task.identity none, worker := .thread b {} }

/-- The gate that a call waits for. -/
def gate? (c : Call) : Option String :=
  match c.worker with
  | .thread b _ => if c.watched then none else b.gate
  | .process w =>
    match w.system.phase with
    | .waiting b => b.gate
    | _ => none

/-- Let the call pass its gate. -/
def pass (c : Call) : Call :=
  match c.worker with
  | .process w => { c with worker := .process { w with system := w.system.openGate } }
  | .thread b channel =>
    let channel := match b.act.conclusion? (.thread c.task.threadName) with
      | some conclusion => Worker.threadBody channel conclusion
      | none => channel
    { c with worker := .thread { b with gate := none } channel }

/-- What the receiver answers now. -/
def receive (c : Call) : Answer Wire.Dynamic × Call :=
  match c.worker with
  | .process w =>
    let (answer, _, pipe) := w.system.pipe.receive Wire.Dynamic.codec {}
    let system := Machine.advance { w.system with pipe }
    (answer, { c with worker := .process { w with system } })
  | .thread b channel =>
    let (answer, channel) := channel.receive
    (answer, { c with worker := .thread b channel })

/-- The worker as the watch meets it when the outcome is there. A thread cannot be stopped. -/
def meet (c : Call) : Watch.Worker (Handle.Callback Wire.Dynamic) × Call :=
  match c.worker with
  | .thread .. => ({ alive := false }, c)
  | .process w =>
    if c.task.settings.terminateOnReturn then
      match w.isRunning Machine.kernel with
      | (false, w) => ({ alive := false }, { c with worker := .process w })
      | (true, w) =>
        let (report, w) := Termination.run Machine.kernel c.task.settings.termination w
        ({ alive := true, report := some report }, { c with worker := .process w })
    else ({ alive := false }, c)

/-- Wait for the worker to be gone. -/
def reap (c : Call) : Call :=
  match c.worker with
  | .thread .. => c
  | .process w => { c with worker := .process (w.wait Machine.kernel).2 }

/-- Whether the child process is gone, for a call that has one. -/
def gone? (c : Call) : Option Bool :=
  match c.worker with
  | .thread .. => none
  | .process w => some w.system.isGone

/-- Whether a callback panics. -/
def panics : Handle.Callback Wire.Dynamic → Bool
  | .mk _ _ panic => panic.isSome

/-- The callbacks among the effects of a watch. -/
def entries : List (Watch.Effect Wire.Dynamic (Handle.Callback Wire.Dynamic)) → List Entry
  | [] => []
  | .called callback outcome _ :: rest => (callback, outcome) :: entries rest
  | _ :: rest => entries rest

/-- Run the watch if the receiver has an answer. Gives the callbacks that were run. -/
def settle (c : Call) (limiter : Limiter) : List Entry × Limiter × Call :=
  match c.receive with
  | (.ok none, c) => ([], limiter, c)
  | (answer, c) =>
    let (worker, c) := match answer with
      | .ok _ => c.meet
      | .error _ => ({ alive := false }, c)
    let (_, last) := Watch.run panics c.task.settings worker [.answers answer]
      { handle := c.handle, limiter }
    (entries last.effects, last.limiter, { c.reap with handle := last.handle, watched := true })

end Call

end Offload
