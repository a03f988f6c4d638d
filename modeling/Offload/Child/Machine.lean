import Offload.Child.Kernel
import Offload.Worker.Behaviour
import Offload.Worker.Body

/-!
# A machine with one worker process

The simplest system that a supervisor can have: one child, which does what a behaviour says, and a
clock that moves only when someone sleeps or waits. A child that got past its gate runs at once. A
child that has ended stays until it is reaped.

A child whose outcome is longer than the pipe holds goes on when the pipe is read.
-/

namespace Offload.Child

open Channel (Pipe)
open Worker (Departure)

/-- How far a child has come. -/
inductive Phase where
  /-- It waits for its gate. -/
  | waiting (behaviour : Behaviour)
  | hanging
  /-- It waits for the pipe to be read. The rest is how it goes on. -/
  | sending (until? : Option Nat) (code : Nat)
  /-- Its outcome is delivered, and a thread keeps it until the given time or for ever. -/
  | lingering (until? : Option Nat) (code : Nat)
  /-- It has ended and was not reaped. -/
  | ended (status : ExitStatus)
  | gone

/-- A child, its result pipe, and the clock. -/
structure Machine where
  clock : Nat := 0
  phase : Phase
  /-- Whether the child ignores requests to stop. -/
  ignoresStop : Bool := false
  pipe : Pipe := {}

namespace Machine

/-- End the child. Its end of the pipe is closed. -/
def finish (m : Machine) (status : ExitStatus) : Machine :=
  { m with phase := .ended status, pipe := { m.pipe with senderHeld := false } }

/-- Go on as far as the pipe and the clock allow. -/
def advance (m : Machine) : Machine :=
  let m := match m.phase with
    | .sending until? code =>
      if m.pipe.unread ≤ Pipe.capacity then { m with phase := .lingering until? code }
      else if m.pipe.receiverHeld then m
      else { m with phase := .lingering until? Worker.exitSendFailed }
    | _ => m
  match m.phase with
  | .lingering (some time) code => if time ≤ m.clock then m.finish (.code code) else m
  | _ => m

/-- The time at which the last thread of a child ends that leaves a thread behind now. -/
def lingerEnd (m : Machine) : Option Linger → Option Nat
  | none => some m.clock
  | some (.millis n) => some (m.clock + n * 1000000)
  | some .forever => none

/-- The child gets past its gate. -/
def start (m : Machine) (b : Behaviour) : Machine :=
  let m := { m with ignoresStop := b.ignoresStop }
  match b.act with
  | .exits code => m.finish (.code (code % 256))
  | .diesOf n => m.finish (.signal n)
  | act =>
    match act.conclusion? .process with
    | none => { m with phase := .hanging }
    | some conclusion =>
      match Worker.processBody Wire.Dynamic.codec m.pipe conclusion with
      | (.exits code, pipe) =>
        advance { m with pipe, phase := .sending (m.lingerEnd b.linger) code }
      | (.unwinds _, pipe) => { m with pipe, phase := .hanging }

/-- Start a child. One without a gate runs at once. -/
def launch (b : Behaviour) : Machine :=
  let m : Machine := { phase := .waiting b }
  if b.gate.isSome then m else m.start b

/-- Open the gate that the child waits for. -/
def openGate (m : Machine) : Machine :=
  match m.phase with
  | .waiting b => m.start b
  | _ => m

/-- The child is seen to end: it is gone, and everyone after hears that there is no child. -/
def takeEnded (m : Machine) : Option ExitStatus × Machine :=
  match m.phase with
  | .ended status => (some status, { m with phase := .gone })
  | _ => (none, m)

/-- Whether the child is gone. -/
def isGone (m : Machine) : Bool :=
  match m.phase with
  | .gone => true
  | _ => false

/-- Let time pass. -/
def sleep (nanos : Nat) (m : Machine) : Machine :=
  advance { m with clock := m.clock + nanos }

/-- Look at the child. -/
def poll (m : Machine) : Poll × Machine :=
  match m.takeEnded with
  | (some status, m) => (.ended status, m)
  | (none, m) => (if m.isGone then .noChild else .running, m)

/-- Let the time pass that a child needs to end by itself. -/
def elapse (m : Machine) : Machine :=
  match m.phase with
  | .lingering (some time) _ => m.sleep (time - m.clock)
  | _ => m

/-- Wait for the child. -/
def await (m : Machine) : Await × Machine :=
  match m.elapse.takeEnded with
  | (some status, m) => (.ended status, m)
  | (none, m) => (if m.isGone then .noChild else .never, m)

/-- Send the child a signal. -/
def signal (s : Signal) (m : Machine) : Except IoKind Unit × Machine :=
  match m.phase with
  | .ended _ | .gone => (.ok (), m)
  | _ =>
    match s with
    | .stop => (.ok (), if m.ignoresStop then m else m.finish (.signal s.number))
    | .kill => (.ok (), m.finish (.signal s.number))

theorem clock_advance (m : Machine) : m.advance.clock = m.clock := by
  unfold advance
  split <;> (try split) <;> (try split) <;> dsimp only <;> split <;> (try split) <;> rfl

theorem clock_sleep (nanos : Nat) (m : Machine) : (m.sleep nanos).clock = m.clock + nanos := by
  rw [sleep, clock_advance]

theorem clock_takeEnded (m : Machine) : m.takeEnded.2.clock = m.clock := by
  unfold takeEnded
  split <;> rfl

theorem clock_poll (m : Machine) : m.poll.2.clock = m.clock := by
  unfold poll
  have h := m.clock_takeEnded
  split <;> simp_all

theorem clock_signal (s : Signal) (m : Machine) : (m.signal s).2.clock = m.clock := by
  unfold signal
  split
  · rfl
  · rfl
  · cases s
    · dsimp only
      split <;> rfl
    · rfl

theorem await_ne_interrupted (m : Machine) : m.await.1 ≠ .interrupted := by
  unfold await
  split
  · simp
  · split <;> simp

/-- The machine as a system for a supervisor. -/
def kernel : Kernel Machine where
  now := clock
  sleep := sleep
  poll := poll
  await := await
  signal := signal
  interruptions _ := 0
  sleep_lasts nanos m := Nat.le_of_eq (clock_sleep nanos m).symm
  now_le_poll m := Nat.le_of_eq m.clock_poll.symm
  now_le_signal s m := Nat.le_of_eq (clock_signal s m).symm
  interruptions_lt m h := absurd h m.await_ne_interrupted

end Machine

end Offload.Child
