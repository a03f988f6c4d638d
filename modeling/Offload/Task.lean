import Offload.Limiters
import Offload.Settings
import Offload.TaskError
import Offload.Text.Path

/-!
# Wrapped functions

A task is a function wrapped for calls in worker processes or on worker threads. Its calls are
counted in a limiter under its identity, which is scoped by the path, so that the two ways of
calling one function never share slots. A call needs a slot, and a call that cannot be started gives
it back.
-/

namespace Offload

/-- The ways to run a call. -/
inductive Path
  | process
  | thread
  deriving Repr, DecidableEq

/-- The scope of the identities of a path. -/
def Path.scope : Path → TypeTag
  | .process => ⟨"Process"⟩
  | .thread => ⟨"Thread"⟩

/-- A wrapped function. -/
structure Task where
  path : Path
  identity : Identity
  settings : Settings
  /-- The reference of the limiter that counts the calls. -/
  limiter : Nat

namespace Task

/-- Wrap a function of the given type. -/
def wrap (path : Path) (type : TypeTag) (hasContent : Bool) (settings : Settings) (limiter : Nat)
    (numbering : Numbering) : Task × Numbering :=
  let (identity, numbering) := Identity.ofValue type hasContent numbering
  ({ path, identity := identity.within path.scope, settings, limiter }, numbering)

/-- The task with another limit. -/
def withLimit (t : Task) (limit : Limit) : Task :=
  { t with settings := { t.settings with limit } }

/-- The task with its worker processes terminated on return, or not. -/
def terminatingOnReturn (t : Task) (terminateOnReturn : Bool) : Task :=
  { t with settings := { t.settings with terminateOnReturn } }

/-- The task under another name. -/
def renamed (t : Task) (name : String) : Task :=
  { t with identity := t.identity.named name }

/-- The task counted under a key. -/
def countedUnder (t : Task) (key : String) : Task :=
  { t with identity := (Identity.keyed key).within t.path.scope }

/-- The name of the threads that calls run on. -/
def threadName (t : Task) : String :=
  "isotask-worker-" ++ String.ofList (Text.lastSegment t.identity.name.toList)

/-- The number that is reported as the limit. -/
def reportedLimit : Limit → Nat
  | .atMost max => max
  | .unbounded => 2 ^ 64 - 1

/-- The error of a call that was refused. -/
def refusal (t : Task) : TaskError :=
  .limitExceeded t.identity.name (reportedLimit t.settings.limit)

/-- Take a slot for a call. -/
def takeSlot (t : Task) (ls : Limiters) : Except TaskError Unit × Limiters :=
  let (admitted, ls) := ls.enter t.limiter t.identity t.settings.limit
  (if admitted then .ok () else .error t.refusal, ls)

/-- Give the slot of a call back. -/
def release (t : Task) (ls : Limiters) : Limiters :=
  ls.release t.limiter t.identity

/-- Start a call in a slot, where `start` is what starting comes to. -/
def call {β : Type} (t : Task) (start : Except TaskError β) (ls : Limiters) :
    Except TaskError β × Limiters :=
  match t.takeSlot ls with
  | (.error e, ls) => (.error e, ls)
  | (.ok (), ls) =>
    match start with
    | .ok b => (.ok b, ls)
    | .error e => (.error e, t.release ls)

end Task

end Offload
