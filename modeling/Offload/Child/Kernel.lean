import Offload.TaskError

/-!
# What the system does for a supervisor

A supervisor has one child process. The system keeps the clock, lets the supervisor sleep, tells it
what became of the child, and passes signals on. `Kernel σ` is such a system with states in `σ`.

Four laws bind it. A sleep lasts at least as long as was asked, no call takes the clock back, and a
wait that has no end in sight is interrupted finitely often.
-/

namespace Offload.Child

/-- How a process ended. -/
inductive ExitStatus
  | code (n : Nat)
  | signal (n : Nat)
  deriving Repr, DecidableEq

/-- The signals that a supervisor sends. -/
inductive Signal
  /-- A request to stop, which a process may ignore. -/
  | stop
  /-- A forced kill. -/
  | kill
  deriving Repr, DecidableEq

/-- The number of a signal. -/
def Signal.number : Signal → Nat
  | .stop => 15
  | .kill => 9

/-- What the system says of a child that is asked about without waiting. -/
inductive Poll
  | running
  /-- It has ended, and is gone from now on. -/
  | ended (status : ExitStatus)
  | interrupted
  /-- There is no such child: someone else has seen it end. -/
  | noChild
  | failed (kind : IoKind)
  deriving Repr, DecidableEq

/-- What the system says of a child that is waited for. -/
inductive Await
  | ended (status : ExitStatus)
  | interrupted
  | noChild
  | failed (kind : IoKind)
  /-- The child never ends. -/
  | never
  deriving Repr, DecidableEq

/-- A system with states in `σ`. Times are in nanoseconds. -/
structure Kernel (σ : Type) where
  now : σ → Nat
  sleep : (nanos : Nat) → σ → σ
  poll : σ → Poll × σ
  await : σ → Await × σ
  signal : Signal → σ → Except IoKind Unit × σ
  /-- How many interruptions of waits are still to come. -/
  interruptions : σ → Nat
  sleep_lasts : ∀ nanos s, now s + nanos ≤ now (sleep nanos s)
  now_le_poll : ∀ s, now s ≤ now (poll s).2
  now_le_signal : ∀ sig s, now s ≤ now (signal sig s).2
  interruptions_lt : ∀ s, (await s).1 = .interrupted → interruptions (await s).2 < interruptions s

end Offload.Child
