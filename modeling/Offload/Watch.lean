import Offload.Channel.Receive
import Offload.Handle
import Offload.Limiter
import Offload.Settings

/-!
# Watching a call

A watch asks the receiver of a call until it has an answer other than "nothing yet". On an outcome
it publishes the outcome on the handle, stops the worker if the settings say so and the worker is
alive, runs the callback that publishing handed out, gives the slot back, and reaps the worker, in
this order. If the worker is lost it only reaps: the handle stays incomplete and the slot taken. If
the handle had an outcome already it does nothing more at all.

Others may register callbacks while the watch runs. One that runs at once runs on the thread that
registers it, and where that is the thread of the watch, its panic ends the watch. A panic of the
callback that the watch fires ends nothing.

The payload of a callback's panic is dropped by the watch, and the outcome with the last that holds
it. Neither is taken to panic when it is dropped, so no effect stands for that.

What a watch does is the list of its effects, in order.
-/

namespace Offload

namespace Watch

variable {α κ : Type}

/-- What reaches a watch. -/
inductive Arrival (α κ : Type) where
  /-- A callback is registered. -/
  | registers (kind : CallbackKind) (callback : κ)
  /-- The receiver answers. -/
  | answers (answer : Channel.Answer α)

/-- A worker as the watch meets it: what it answers, and the callbacks that are registered while it
is being stopped. -/
structure Worker (κ : Type) where
  alive : Bool
  report : Option Report := none
  registrations : List (CallbackKind × κ) := []

/-- What a callback can see when it runs. -/
structure View where
  state : TaskState
  inFlight : Nat
  termination : Option Report

/-- What a watch does. -/
inductive Effect (α κ : Type) where
  /-- It asks the receiver for at most this long. -/
  | asked (interval : Duration)
  | published (state : TaskState)
  /-- It asks whether the worker is alive. -/
  | checked (alive : Bool)
  /-- It stops the worker. -/
  | stopped (policy : TerminationPolicy) (state : TaskState)
  | recorded (report : Report)
  | called (callback : κ) (outcome : Outcome α) (view : View)
  | released
  | reaped (inFlight : Nat)

/-- How a watch ends. -/
inductive Ending
  | finished
  /-- The worker was lost. -/
  | lost
  /-- The handle had an outcome already. -/
  | ignored
  /-- A panic ended it. -/
  | unwound
  deriving Repr, DecidableEq

/-- What a watch works on, and what it did so far. -/
structure State (α κ : Type) where
  handle : Handle α κ
  limiter : Limiter
  effects : List (Effect α κ) := []

namespace State

/-- Add an effect. -/
def emit (s : State α κ) (effect : Effect α κ) : State α κ :=
  { s with effects := s.effects ++ [effect] }

/-- The calls in flight that share the handle's identity. -/
def inFlight (s : State α κ) : Nat :=
  s.limiter.inFlight s.handle.identity

/-- Run a callback. -/
def call (s : State α κ) (callback : κ) (outcome : Outcome α) : State α κ :=
  s.emit (.called callback outcome ⟨s.handle.state, s.inFlight, s.handle.termination⟩)

/-- Register a callback, where `panics` tells which ones panic. Tells whether a panic got out. -/
def register (panics : κ → Bool) (s : State α κ) (kind : CallbackKind) (callback : κ) :
    Bool × State α κ :=
  match s.handle.register kind callback with
  | (.runs outcome, handle) =>
    (panics callback, { s with handle }.call callback outcome)
  | (_, handle) => (false, { s with handle })

/-- Register callbacks one after the other, until a panic gets out. -/
def registerAll (panics : κ → Bool) :
    List (CallbackKind × κ) → State α κ → Bool × State α κ
  | [], s => (false, s)
  | (kind, callback) :: rest, s =>
    match s.register panics kind callback with
    | (true, s) => (true, s)
    | (false, s) => registerAll panics rest s

/-- Stop the worker if that is asked for and it is alive. Tells whether a panic got out. -/
def stop (panics : κ → Bool) (settings : Settings) (worker : Worker κ) (s : State α κ) :
    Bool × State α κ :=
  if settings.terminateOnReturn then
    let s := s.emit (.checked worker.alive)
    if worker.alive then
      let s := s.emit (.stopped settings.termination s.handle.state)
      match s.registerAll panics worker.registrations with
      | (true, s) => (true, s)
      | (false, s) =>
        match worker.report with
        | some report =>
          (false, { s with handle := s.handle.noteTermination report }.emit (.recorded report))
        | none => (false, s)
    else (false, s)
  else (false, s)

/-- Run the callback of a completion, unless it was replaced. Its panic goes no further. -/
def fire (s : State α κ) (completion : Completion α κ) : State α κ :=
  match s.handle.callbackToFire? completion with
  | some callback => s.call callback completion.outcome
  | none => s

/-- Give the slot back. -/
def release (s : State α κ) : State α κ :=
  { s with limiter := s.limiter.release s.handle.identity }.emit .released

/-- Reap the worker. -/
def reap (s : State α κ) : State α κ :=
  s.emit (.reaped s.inFlight)

end State

/-- What a watch does with an outcome. A panic of the callback that it fires goes no further, and
its payload is dropped without another panic. -/
def finish (panics : κ → Bool) (settings : Settings) (worker : Worker κ) (outcome : Outcome α)
    (s : State α κ) : Ending × State α κ :=
  match s.handle.publish outcome with
  | (none, _) => (.ignored, s)
  | (some completion, handle) =>
    match ({ s with handle }.emit (.published outcome.state)).stop panics settings worker with
    | (true, s) => (.unwound, s)
    | (false, s) => (.finished, (s.fire completion).release.reap)

/-- Watch a call through the given arrivals. Behind the last one the worker is lost. -/
def run (panics : κ → Bool) (settings : Settings) (worker : Worker κ) :
    List (Arrival α κ) → State α κ → Ending × State α κ
  | [], s => (.lost, (s.emit (.asked settings.pollInterval)).reap)
  | .registers kind callback :: rest, s =>
    match s.register panics kind callback with
    | (true, s) => (.unwound, s)
    | (false, s) => run panics settings worker rest s
  | .answers answer :: rest, s =>
    let s := s.emit (.asked settings.pollInterval)
    match answer with
    | .ok none => run panics settings worker rest s
    | .ok (some outcome) => finish panics settings worker outcome s
    | .error _ => (.lost, s.reap)

end Watch

end Offload
