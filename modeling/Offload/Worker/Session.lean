import Offload.Child.Machine
import Offload.Termination

/-!
# Worker processes in use

A worker process with its supervisor and the receiver of its outcome, used step by step. Either of
the two can be dropped before the other.
-/

namespace Offload.Worker

open Channel (Pipe Answer)
open Child (ExitStatus Machine Supervisor)

/-- A step on a worker process. -/
inductive Step
  | receive (timeout : Duration)
  | dropReceiver
  | openGate
  /-- Someone else waits for the child and sees it end. -/
  | reapElsewhere
  | drop
  | name
  | pid
  | isRunning
  | collect
  | waitFor (timeout : Duration)
  | wait
  /-- Wait, and tell nothing of the end. -/
  | reap
  | exitStatus
  | askToStop
  | kill
  | terminate (policy : TerminationPolicy)
  deriving DecidableEq

/-- The answer to a step. -/
inductive Reply where
  | nothing
  | truth (b : Bool)
  | text (s : String)
  | pid (n : Nat)
  | done
  | failed (error : TaskError)
  | status (status : Option ExitStatus)
  | received (answer : Answer Wire.Dynamic)
  | noReceiver
  | noWorker
  /-- The worker was dropped; tells whether it is gone. -/
  | dropped (gone : Bool)
  | report (report : Report)
  /-- The step never ends. -/
  | never

/-- A worker process in use. -/
structure Session where
  worker : Supervisor Machine
  workerHeld : Bool := true
  receiver : Pipe.Receiver := {}

namespace Session

/-- Launch a worker process. -/
def launch (pid : Nat) (name : String) (b : Behaviour) : Session :=
  { worker := { pid, name, system := .launch b } }

/-- The session after a change of the machine. -/
def onSystem (s : Session) (f : Machine → Machine) : Session :=
  { s with worker := { s.worker with system := f s.worker.system } }

/-- The reply that the result of an operation is. -/
def Reply.ofResult {α : Type} (f : α → Reply) : Except IoKind α → Reply
  | .ok a => f a
  | .error kind => .failed (.io kind)

/-- Receive, waiting for at most the given time. -/
def receive (s : Session) (timeout : Duration) : Answer Wire.Dynamic × Session :=
  let m := s.worker.system
  let (answer, receiver, pipe) := m.pipe.receive Wire.Dynamic.codec s.receiver
  let m := Machine.advance { m with pipe }
  let m := match answer with
    | .ok none => m.sleep (Pipe.waitMillis timeout * 1000000)
    | _ => m
  (answer, { s.onSystem fun _ => m with receiver })

/-- A step on the worker itself. -/
def workerStep (w : Supervisor Machine) : Step → Reply × Supervisor Machine
  | .name => (.text w.name, w)
  | .pid => (.pid w.pid, w)
  | .isRunning => let (b, w) := w.isRunning Machine.kernel; (.truth b, w)
  | .collect => let (r, w) := w.collect Machine.kernel; (Reply.ofResult .truth r, w)
  | .waitFor timeout =>
    let (r, w) := w.waitFor Machine.kernel timeout
    (Reply.ofResult .truth r, w)
  | .wait =>
    match w.wait Machine.kernel with
    | (some r, w) => (Reply.ofResult .status r, w)
    | (none, w) => (.never, w)
  | .reap =>
    match w.wait Machine.kernel with
    | (some _, w) => (.nothing, w)
    | (none, w) => (.never, w)
  | .exitStatus => (.status w.status, w)
  | .askToStop => let (r, w) := w.askToStop Machine.kernel; (Reply.ofResult (fun _ => .done) r, w)
  | .kill => let (r, w) := w.kill Machine.kernel; (Reply.ofResult (fun _ => .done) r, w)
  | .terminate policy =>
    let (r, w) := Termination.run Machine.kernel policy w
    (.report r, w)
  | .reapElsewhere =>
    let (answer, system) := w.system.await
    (if answer = .never then .never else .truth true, { w with system })
  | .receive _ | .dropReceiver | .openGate | .drop => (.nothing, w)

/-- One step. -/
def step (s : Session) : Step → Reply × Session
  | .receive timeout =>
    if s.worker.system.pipe.receiverHeld then
      let (answer, s) := s.receive timeout
      (.received answer, s)
    else (.noReceiver, s)
  | .dropReceiver =>
    (.nothing, s.onSystem fun m =>
      Machine.advance { m with pipe := { m.pipe with receiverHeld := false } })
  | .openGate => (.nothing, s.onSystem Machine.openGate)
  | .drop =>
    let s := if s.workerHeld then
      { s with worker := s.worker.drop Machine.kernel, workerHeld := false } else s
    (.dropped s.worker.system.isGone, s)
  | other =>
    if s.workerHeld then
      let (reply, worker) := workerStep s.worker other
      (reply, { s with worker })
    else (.noWorker, s)

end Session

end Offload.Worker
