import Offload.Settings.Document
import Offload.Task.Call

/-!
# Tasks in use

Tasks, calls, gates and limiters under names of the user's choice, used step by step. After each
step every call goes on as far as it can. A gate lets as many calls pass as it was opened times,
those that wait the longest first.
-/

namespace Offload

namespace Task

/-- A change of a task. -/
inductive Change
  | limit (limit : Limit)
  | terminateOnReturn (terminateOnReturn : Bool)
  | settings (settings : Settings)
  | limiter (name : String)
  | name (name : String)
  | key (key : String)

/-- A step on tasks. -/
inductive Step where
  | wrap (task : String) (path : Path) (type : TypeTag) (hasContent : Bool) (function : Function)
  | makeLimiter (name : String)
  | clone (task copy : String)
  | change (task : String) (change : Change)
  | makeGate (name : String)
  | openGate (name : String)
  | call (task : String) (arguments : Arguments) (handle : String)
  | register (handle : String) (kind : CallbackKind) (callback : Handle.Callback Wire.Dynamic)
  | wait (handle : String)
  | inspect (handle : String)
  /-- Wait until the worker process of a call is gone. -/
  | awaitGone (handle : String)
  /-- Wait for the report of a termination. -/
  | awaitReport (handle : String)
  | inFlight (task : String)
  | sameIdentity (task other : String)
  | name (task : String)
  | inspectTask (task : String)
  /-- From here on no pipe can be made, or it can again. -/
  | setPipes (available : Bool)

/-- The answer to a step. -/
inductive Reply where
  | nothing
  | started (hasPid : Bool)
  | failed (error : TaskError)
  | value (value : Option Wire.Dynamic)
  | view (handle : Handle Wire.Dynamic (Handle.Callback Wire.Dynamic))
  | gone (isGone : Bool)
  /-- The call has no worker process. -/
  | noChild
  | report (report : Option Report) (samePid : Bool)
  | inFlight (n : Nat)
  | truth (b : Bool)
  | text (s : String)
  | task (settings : Settings) (inFlight tracked : Nat)
  /-- A name is not known. -/
  | unknown

/-- A gate: how many calls may still pass. -/
structure Gate where
  name : String
  permits : Nat := 0
  deriving Repr, DecidableEq

/-- What is in use. The limiter at the position zero is the one that tasks start with. -/
structure Session where
  limiters : Limiters := .single
  limiterNames : List (String × Nat) := [("main", 0)]
  numbering : Numbering := {}
  tasks : List (String × Task × Function) := []
  gates : List Gate := []
  /-- The calls, the oldest first, under the names of their handles. -/
  calls : List (String × Call) := []
  pipesAvailable : Bool := true
  log : List Call.Entry := []

namespace Session

/-- The task of a name. -/
def task? (s : Session) (name : String) : Option (Task × Function) :=
  s.tasks.lookup name

/-- Give a name to a task. -/
def setTask (s : Session) (name : String) (task : Task × Function) : Session :=
  { s with tasks := (name, task) :: s.tasks.filter (·.1 ≠ name) }

/-- The latest call under a name. -/
def call? (s : Session) (name : String) : Option Call :=
  s.calls.reverse.lookup name

/-- Replace the first call under a name. -/
def replaceCall (name : String) (call : Call) : List (String × Call) → List (String × Call)
  | [] => []
  | (n, c) :: rest => if n = name then (n, call) :: rest else (n, c) :: replaceCall name call rest

/-- Replace the latest call under a name. -/
def setCall (s : Session) (name : String) (call : Call) : Session :=
  { s with calls := (replaceCall name call s.calls.reverse).reverse }

/-- Let the first call that waits for a gate pass it. Tells whether there was one. -/
def passFirst (gate : String) : List (String × Call) → Bool × List (String × Call)
  | [] => (false, [])
  | (name, c) :: rest =>
    if c.gate? = some gate then (true, (name, c.pass) :: rest)
    else
      let (passed, rest) := passFirst gate rest
      (passed, (name, c) :: rest)

/-- Let the calls go on that are in use, the oldest first. -/
def settleCalls (limiters : Limiters) :
    List (String × Call) → List Call.Entry × Limiters × List (String × Call)
  | [] => ([], limiters, [])
  | (name, c) :: rest =>
    if c.watched then
      let (entries, limiters, rest) := settleCalls limiters rest
      (entries, limiters, (name, c) :: rest)
    else
      let (entries, limiter, c) := c.settle ((limiters.get? c.task.limiter).getD .empty)
      let (more, limiters, rest) := settleCalls (limiters.set c.task.limiter limiter) rest
      (entries ++ more, limiters, (name, c) :: rest)

/-- Let every call go on as far as it can. -/
def settle (s : Session) : Session :=
  let (entries, limiters, calls) := settleCalls s.limiters s.calls
  { s with limiters, calls, log := s.log ++ entries }

/-- Take a permit of a gate, if it has one. -/
def takePermit (gate : String) : List Gate → Bool × List Gate
  | [] => (false, [])
  | g :: rest =>
    if g.name = gate then
      (0 < g.permits, { g with permits := g.permits - 1 } :: rest)
    else
      let (taken, rest) := takePermit gate rest
      (taken, g :: rest)

/-- Add a permit to a gate. -/
def addPermit (gate : String) (gates : List Gate) : List Gate :=
  gates.map fun g => if g.name = gate then { g with permits := g.permits + 1 } else g

/-- Start a call that has a slot. -/
def start (s : Session) (task : Task) (b : Behaviour) : Except TaskError Call :=
  match task.path with
  | .thread => .ok (.onThread task b)
  | .process =>
    if s.pipesAvailable then .ok (.inProcess task b (s.calls.length + 1))
    else .error (.channel "Failed to create result pipe")

/-- Let a new call pass its gate, if it has none or a permit is left. -/
def enter (s : Session) (c : Call) (b : Behaviour) : Session × Call :=
  match b.gate with
  | none => (s, match c.worker with
    | .thread .. => c.pass
    | .process _ => c)
  | some gate =>
    let (passes, gates) := takePermit gate s.gates
    ({ s with gates }, if passes then c.pass else c)

/-- Call a task. -/
def callTask (s : Session) (task : Task) (b : Behaviour) (handle : String) : Reply × Session :=
  match task.call (s.start task b) s.limiters with
  | (.error e, limiters) => (.failed e, { s with limiters })
  | (.ok c, limiters) =>
    let (s, c) := { s with limiters }.enter c b
    (.started c.handle.pid.isSome, { s with calls := s.calls ++ [(handle, c)] })

/-- The task after a change. -/
def changed? (s : Session) (task : Task) : Change → Option Task
  | .limit limit => some (task.withLimit limit)
  | .terminateOnReturn b => some (task.terminatingOnReturn b)
  | .settings settings => some { task with settings }
  | .limiter name => (s.limiterNames.lookup name).map fun limiter => { task with limiter }
  | .name name => some (task.renamed name)
  | .key key => some (task.countedUnder key)

/-- Register a callback on the handle of a call. One that runs at once runs here. -/
def register (s : Session) (name : String) (c : Call) (kind : CallbackKind)
    (callback : Handle.Callback Wire.Dynamic) : Session :=
  let (registration, handle) := c.handle.register kind callback
  let s := s.setCall name { c with handle }
  match registration with
  | .runs outcome => { s with log := s.log ++ [(callback, outcome)] }
  | _ => s

/-- An answer about the call of a handle. -/
def withCall (s : Session) (handle : String) (f : Call → Reply) : Reply × Session :=
  (((s.call? handle).map f).getD .unknown, s)

/-- An answer about a task. -/
def withTask (s : Session) (task : String) (f : Task → Reply) : Reply × Session :=
  (((s.task? task).map fun (t, _) => f t).getD .unknown, s)

/-- One step, without what the calls do afterwards. -/
def act (s : Session) : Step → Reply × Session
  | .wrap name path type hasContent function =>
    let (task, numbering) := Task.wrap path type hasContent .default 0 s.numbering
    (.nothing, { s with numbering }.setTask name (task, function))
  | .makeLimiter name =>
    let (reference, limiters) := s.limiters.new
    (.nothing, { s with limiters, limiterNames := (name, reference) :: s.limiterNames })
  | .clone name copy =>
    match s.task? name with
    | some task => (.nothing, s.setTask copy task)
    | none => (.unknown, s)
  | .change name change =>
    match (s.task? name).bind fun (task, f) => (s.changed? task change).map fun t => (t, f) with
    | some task => (.nothing, s.setTask name task)
    | none => (.unknown, s)
  | .makeGate name => (.nothing, { s with gates := ⟨name, 0⟩ :: s.gates.filter (·.name ≠ name) })
  | .openGate name =>
    match passFirst name s.calls with
    | (true, calls) => (.nothing, { s with calls })
    | (false, _) => (.nothing, { s with gates := addPermit name s.gates })
  | .call name arguments handle =>
    match s.task? name with
    | some (task, function) => s.callTask task (function.behaviour arguments) handle
    | none => (.unknown, s)
  | .register handle kind callback =>
    match s.call? handle with
    | some c => (.nothing, s.register handle c kind callback)
    | none => (.unknown, s)
  | .wait handle => s.withCall handle fun c => .value c.handle.value?
  | .inspect handle => s.withCall handle fun c => .view c.handle
  | .awaitGone handle => s.withCall handle fun c => (c.gone?.map Reply.gone).getD .noChild
  | .awaitReport handle => s.withCall handle fun c =>
      let report := c.handle.termination
      .report report (report.any fun r => some r.pid = c.handle.pid)
  | .inFlight name => s.withTask name fun t => .inFlight (s.limiters.inFlight t.limiter t.identity)
  | .sameIdentity name other =>
    s.withTask name fun t => ((s.task? other).map fun (u, _) =>
      Reply.truth (t.identity == u.identity)).getD .unknown
  | .name name => s.withTask name fun t => .text t.identity.name
  | .inspectTask name => s.withTask name fun t =>
      .task t.settings (s.limiters.inFlight t.limiter t.identity) (s.limiters.tracked t.limiter)
  | .setPipes available => (.nothing, { s with pipesAvailable := available })

/-- One step, after which every call goes on as far as it can. -/
def step (s : Session) (step : Step) : Reply × Session :=
  let (reply, s) := s.act step
  (reply, s.settle)

/-- The steps of a list in turn. -/
def run : List Step → Session → List Reply × Session
  | [], s => ([], s)
  | step :: rest, s =>
    let (reply, s) := s.step step
    let (replies, last) := run rest s
    (reply :: replies, last)

end Session

end Task

end Offload
