import Offload.Worker.Body

/-!
# Threads that a worker process waits for

A function that runs in a worker process may leave threads behind, and these may start others. The
list of the process records them, so that the worker can join them when its outcome is sent: it
takes what the list holds, joins the threads that it took, and looks at the list again, until it
finds the list empty.

A thread is recorded by the one that started it, some time after it was started. By then it may
have started others, or have ended. The list is copied with everything else when a worker is forked.
What it holds then stands for threads of the process that was forked, so a worker forgets it first.
-/

namespace Offload

open Wire (Codec)

/-- A thread, as the list records it. -/
inductive Lingering.Recorded
  /-- A thread of the process that the worker was forked from. -/
  | inherited (n : Nat)
  /-- A thread of the worker. -/
  | own (thread : Nat)
  deriving Repr, DecidableEq

/-- A thread that was left behind. -/
inductive Lingering.Thread
  /-- It runs. It may have started a thread that it has still to record. -/
  | runs (unrecorded : Option Nat)
  | ended
  deriving Repr, DecidableEq

/-- What the main thread of the worker is at. -/
inductive Lingering.Stage
  /-- The worker was forked just now. -/
  | begins
  /-- The function runs. It may have started a thread that it has still to record. -/
  | calls (unrecorded : Option Nat)
  /-- The outcome is delivered. What is left of the threads that were taken from the list is joined,
  and then the list is looked at again. -/
  | joins (code : Nat) (batch : List Lingering.Recorded)
  /-- All threads are joined, and the process exits. -/
  | exits (code : Nat)
  /-- A panic goes on into the code of the caller. -/
  | unwinds (payload : Payload)
  deriving Repr, DecidableEq

/-- A worker process with the threads that its function leaves behind. They are numbered in the
order in which they are started. -/
structure Lingering where
  pipe : Channel.Pipe := {}
  /-- Whether the process is marked as a worker. -/
  isWorker : Bool := false
  /-- The list. -/
  recorded : List Lingering.Recorded := []
  threads : List Lingering.Thread := []
  stage : Lingering.Stage := .begins
  /-- The threads that were joined, in order. -/
  joined : List Lingering.Recorded := []

namespace Lingering

variable {α : Type}

/-- A worker that was forked from a process, which may be a worker and have recorded threads. -/
def forked (pipe : Channel.Pipe) (inWorker : Bool) (inherited : List Nat) : Lingering where
  pipe
  isWorker := inWorker
  recorded := inherited.map .inherited

/-- Whoever starts threads: the function, or a thread that was left behind. -/
inductive Spawner
  | function
  | thread (n : Nat)
  deriving Repr, DecidableEq

/-- A move of one thread. -/
inductive Move (α : Type) where
  /-- The worker marks its process and forgets what the list holds. -/
  | begin
  | spawn (spawner : Spawner)
  /-- The thread that was started last is recorded by the one that started it. -/
  | record (spawner : Spawner)
  /-- A thread ends. -/
  | finish (thread : Nat)
  /-- The function has come to its end, and what it comes to is delivered. -/
  | deliver (conclusion : Conclusion α)
  /-- The worker takes what the list holds. -/
  | take
  /-- The worker joins the next one of the threads that it took. -/
  | join

/-- The thread that is started and not recorded by a spawner that runs. -/
def unrecorded? (s : Lingering) : Spawner → Option (Option Nat)
  | .function =>
    match s.stage with
    | .calls unrecorded => some unrecorded
    | _ => none
  | .thread n =>
    match s.threads[n]? with
    | some (.runs unrecorded) => some unrecorded
    | _ => none

/-- Replace what a spawner has still to record. -/
def setUnrecorded (s : Lingering) (unrecorded : Option Nat) : Spawner → Lingering
  | .function => { s with stage := .calls unrecorded }
  | .thread n => { s with threads := s.threads.set n (.runs unrecorded) }

/-- Start a thread. -/
def spawn (s : Lingering) (spawner : Spawner) : Lingering :=
  let s' := s.setUnrecorded (some s.threads.length) spawner
  { s' with threads := s'.threads ++ [.runs none] }

/-- Record a thread. This is done in workers only. -/
def record (s : Lingering) (thread : Nat) (spawner : Spawner) : Lingering :=
  let s' := s.setUnrecorded none spawner
  if s.isWorker then { s' with recorded := s.recorded ++ [.own thread] } else s'

/-- Deliver what the function came to. -/
def deliver (c : Codec α) (s : Lingering) (conclusion : Conclusion α) : Lingering :=
  match Worker.processBody c s.pipe conclusion with
  | (.exits code, pipe) => { s with pipe, stage := .joins code [] }
  | (.unwinds payload, pipe) => { s with pipe, stage := .unwinds payload }

/-- Take what the list holds. The worker is done if this is nothing. -/
def take (s : Lingering) (code : Nat) : Lingering :=
  { s with
    recorded := []
    stage := if s.recorded = [] then .exits code else .joins code s.recorded }

/-- Whether a recorded thread is one that has ended. A thread of another process never is. -/
def isEnded (s : Lingering) : Recorded → Bool
  | .own n => s.threads[n]? = some .ended
  | .inherited _ => false

/-- One move. -/
def step (c : Codec α) (s : Lingering) : Move α → Option Lingering
  | .begin =>
    match s.stage with
    | .begins => some { s with isWorker := true, recorded := [], stage := .calls none }
    | _ => none
  | .spawn spawner =>
    match s.unrecorded? spawner with
    | some none => some (s.spawn spawner)
    | _ => none
  | .record spawner =>
    match s.unrecorded? spawner with
    | some (some thread) => some (s.record thread spawner)
    | _ => none
  | .finish n =>
    match s.threads[n]? with
    | some (.runs none) => some { s with threads := s.threads.set n .ended }
    | _ => none
  | .deliver conclusion =>
    match s.stage with
    | .calls none => some (s.deliver c conclusion)
    | _ => none
  | .take =>
    match s.stage with
    | .joins code [] => some (s.take code)
    | _ => none
  | .join =>
    match s.stage with
    | .joins code (next :: batch) =>
      if s.isEnded next then
        some { s with stage := .joins code batch, joined := s.joined ++ [next] }
      else none
    | _ => none

/-- The moves of a list in turn. -/
def run (c : Codec α) (moves : List (Move α)) (s : Lingering) : Option Lingering :=
  moves.foldlM (step c) s

end Lingering

end Offload
