import Offload.Duration
import Offload.Child.Kernel

/-!
# Supervising a worker process

A supervisor is the only one to reap its worker. Once it has seen that the worker is gone it asks
the system nothing more about it and sends it no more signals, since the pid may belong to another
process by then. Each operation below therefore looks at `reaped` first.
-/

namespace Offload.Child

/-- A worker process under supervision, in a system with states in `σ`. -/
structure Supervisor (σ : Type) where
  pid : Nat
  name : String
  /-- Whether the worker is known to be gone. -/
  reaped : Bool := false
  /-- How the worker ended, if this supervisor saw it. -/
  status : Option ExitStatus := none
  system : σ

/-- The longest time between two looks at a worker, in nanoseconds. -/
def tick : Nat :=
  10000000

namespace Supervisor

variable {σ : Type}

/-- The worker is gone. -/
def noteGone (w : Supervisor σ) (status : Option ExitStatus) : Supervisor σ :=
  { w with reaped := true, status }

/-- Reap the worker if it has ended. Tells whether it is gone. -/
def collect (k : Kernel σ) (w : Supervisor σ) : Except IoKind Bool × Supervisor σ :=
  if w.reaped then (.ok true, w)
  else
    let (answer, system) := k.poll w.system
    let w := { w with system }
    match answer with
    | .running | .interrupted => (.ok false, w)
    | .ended status => (.ok true, w.noteGone (some status))
    | .noChild => (.ok true, w.noteGone none)
    | .failed kind => (.error kind, w)

/-- Whether the worker is running, as far as can be told. One that has ended is reaped. -/
def isRunning (k : Kernel σ) (w : Supervisor σ) : Bool × Supervisor σ :=
  match w.collect k with
  | (.ok gone, w) => (!gone, w)
  | (.error _, w) => (true, w)

theorem now_le_collect (k : Kernel σ) (w : Supervisor σ) :
    k.now w.system ≤ k.now (w.collect k).2.system := by
  unfold collect
  split
  · exact Nat.le_refl _
  · have h := k.now_le_poll w.system
    generalize k.poll w.system = answer at h
    obtain ⟨answer, system⟩ := answer
    cases answer <;> exact h

/-- Look at the worker until it is gone or the deadline has passed, with sleeps of at most a tick
that end at the deadline at the latest. -/
def waitUntil (k : Kernel σ) (deadline : Nat) (w : Supervisor σ) :
    Except IoKind Bool × Supervisor σ :=
  match _h : w.collect k with
  | (.error kind, w) => (.error kind, w)
  | (.ok true, w) => (.ok true, w)
  | (.ok false, w') =>
    let now := k.now w'.system
    if now < deadline then
      waitUntil k deadline { w' with system := k.sleep (min tick (deadline - now)) w'.system }
    else (.ok false, w')
termination_by deadline - k.now w.system
decreasing_by
  have reap := now_le_collect k w
  rw [_h] at reap
  have sleep := k.sleep_lasts (min tick (deadline - k.now w'.system)) w'.system
  simp only [tick] at reap sleep ⊢
  omega

/-- Wait for the worker for a bounded time. Tells whether it is gone. -/
def waitFor (k : Kernel σ) (timeout : Duration) (w : Supervisor σ) :
    Except IoKind Bool × Supervisor σ :=
  w.waitUntil k (k.now w.system + timeout.nanos)

/-- Wait until the worker is gone, however long that takes, and tell how it ended if that was seen.
Nothing is answered if the worker never ends. -/
def wait (k : Kernel σ) (w : Supervisor σ) :
    Option (Except IoKind (Option ExitStatus)) × Supervisor σ :=
  if w.reaped then (some (.ok w.status), w)
  else
    match _h : k.await w.system with
    | (.ended status, system) => (some (.ok (some status)), { w with system }.noteGone status)
    | (.noChild, system) => (some (.ok none), { w with system }.noteGone none)
    | (.failed kind, system) => (some (.error kind), { w with system })
    | (.never, system) => (none, { w with system })
    | (.interrupted, system) => wait k { w with system }
termination_by k.interruptions w.system
decreasing_by
  have lt := k.interruptions_lt w.system (by rw [_h])
  rw [_h] at lt
  exact lt

/-- Send the worker a signal, unless it is gone. -/
def send (k : Kernel σ) (signal : Signal) (w : Supervisor σ) :
    Except IoKind Unit × Supervisor σ :=
  if w.reaped then (.ok (), w)
  else
    let (result, system) := k.signal signal w.system
    (result, { w with system })

/-- Ask the worker to stop. -/
def askToStop (k : Kernel σ) (w : Supervisor σ) : Except IoKind Unit × Supervisor σ :=
  w.send k .stop

/-- Kill the worker. -/
def kill (k : Kernel σ) (w : Supervisor σ) : Except IoKind Unit × Supervisor σ :=
  w.send k .kill

/-- Let go of the worker. One that is still running is killed and waited for a little. -/
def drop (k : Kernel σ) (w : Supervisor σ) : Supervisor σ :=
  match w.isRunning k with
  | (true, w) => ((w.kill k).2.waitFor k (.ofMillis 1000)).2
  | (false, w) => w

end Supervisor

end Offload.Child
