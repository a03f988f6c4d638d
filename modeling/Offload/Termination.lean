import Offload.Child.Supervisor
import Offload.Termination.Policy
import Offload.Termination.Report

/-!
# Terminating a worker

A worker is asked to stop and gets the grace period to do so. If it is not gone then, it is killed
and waited for once more. Errors on the way do not end the protocol.
-/

namespace Offload

open Child (Kernel Supervisor)

namespace Termination

variable {σ : Type}

/-- Wait for the worker for a bounded time. An error counts as a worker that is not gone. -/
def goneWithin (k : Kernel σ) (timeout : Duration) (w : Supervisor σ) : Bool × Supervisor σ :=
  match w.waitFor k timeout with
  | (.ok gone, w) => (gone, w)
  | (.error _, w) => (false, w)

/-- Terminate a worker: how far it got, and whether the forced kill was needed. -/
def stop (k : Kernel σ) (policy : TerminationPolicy) (w : Supervisor σ) :
    (Stage × Bool) × Supervisor σ :=
  match w.isRunning k with
  | (false, w) => ((.dead, false), w)
  | (true, w) =>
    match goneWithin k policy.gracePeriod (w.askToStop k).2 with
    | (true, w) => ((.dead, false), w)
    | (false, w) =>
      match goneWithin k policy.killWait (w.kill k).2 with
      | (true, w) => ((.dead, true), w)
      | (false, w) => ((.unresponsive, true), w)

/-- Terminate a worker and report. -/
def run (k : Kernel σ) (policy : TerminationPolicy) (w : Supervisor σ) : Report × Supervisor σ :=
  let started := k.now w.system
  let ((stage, escalated), w) := stop k policy w
  ({ pid := w.pid, stage, escalated,
     elapsed := Duration.saturating (k.now w.system - started) }, w)

end Termination

end Offload
