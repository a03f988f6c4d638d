import Offload.Handle.Script
import Offload.Proofs.Cell

/-!
# What scripts do to a handle

A script operates on its handle, whatever its callbacks do and however they end: every handle that a
session comes to is one that a list of operations reaches. So what holds of every run of operations
holds of scripts too.

`OperatesFrom` is a property of an action of the session's monad: from this session on, whatever it
ends with, the handle is reached by operations. It is closed under what actions are made of, and
from there on no proof looks at the session again.
-/

namespace Offload.Handle

variable {α β γ : Type} {s : Session α}

/-- What an action does to the handle of a session is done by operations, also if it panics. -/
def OperatesFrom (s : Session α) (act : Action α β) : Prop :=
  ∃ ops, (act.run s).2.handle = s.handle.after ops

namespace OperatesFrom

/-- An action that does nothing operates on nothing. -/
protected theorem pure (s : Session α) (b : β) : OperatesFrom s (pure b) :=
  ⟨[], rfl⟩

/-- An action that fails leaves the handle where it is. -/
protected theorem throw (s : Session α) (message : String) :
    OperatesFrom s (throw message : Action α β) :=
  ⟨[], rfl⟩

theorem bind {act : Action α β} {next : β → Action α γ} (hact : OperatesFrom s act)
    (hnext : ∀ b s', OperatesFrom s' (next b)) : OperatesFrom s (act >>= next) := by
  obtain ⟨ops, hops⟩ := hact
  have hrun : (act >>= next).run s = ExceptT.bindCont next (act.run s).1 (act.run s).2 := rfl
  rcases hres : act.run s with ⟨message | b, s'⟩
  · -- a panic of `act` skips `next` and keeps what `act` did
    rw [hres] at hops hrun
    exact ⟨ops, by rw [hrun, ← hops]; rfl⟩
  · obtain ⟨more, hmore⟩ := hnext b s'
    rw [hres] at hops hrun
    exact ⟨ops ++ more, by rw [hrun, after_append, ← hops, ← hmore]; rfl⟩

theorem forIn {body : β → PUnit → Action α (ForInStep PUnit)}
    (hbody : ∀ b u s, OperatesFrom s (body b u)) :
    ∀ (l : List β) (u : PUnit) (s : Session α), OperatesFrom s (forIn l u body)
  | [], u, s => .pure s u
  | b :: rest, u, s => by
    rw [List.forIn_cons]
    refine (hbody b u s).bind fun step s' ↦ ?_
    rcases step with u' | u'
    · exact .pure ..
    · exact forIn hbody rest u' s'

/-- An action that leaves the handle alone. -/
theorem of_handle_eq {act : Action α β} (h : (act.run s).2.handle = s.handle) :
    OperatesFrom s act :=
  ⟨[], h⟩

/-- The session is read, and the action goes on from it. -/
theorem get_bind {next : Session α → Action α β} (h : OperatesFrom s (next s)) :
    OperatesFrom s (get >>= next) :=
  h

/-- The session is replaced by one on which an operation was carried out. -/
theorem set_bind {s' : Session α} {next : PUnit → Action α β}
    (op : Operation α (Callback α)) (hs' : s'.handle = (s.handle.apply op).2)
    (h : OperatesFrom s' (next PUnit.unit)) : OperatesFrom s (set s' >>= next) := by
  obtain ⟨ops, hops⟩ := h
  exact ⟨op :: ops, by rw [after, List.foldl_cons, ← hs', ← after, ← hops]; rfl⟩

end OperatesFrom

/-- To take the next callback off the queue is no operation. -/
theorem operatesFrom_dequeue (s : Session α) : OperatesFrom s dequeue := by
  obtain ⟨handle, - | ⟨completion, rest⟩, waiters, log⟩ := s
  · exact .of_handle_eq rfl
  · exact .of_handle_eq rfl

/-- A step operates if the callbacks do. -/
theorem operatesFrom_perform {call : Callback α → Outcome α → Action α Unit}
    (hcall : ∀ callback outcome s, OperatesFrom s (call callback outcome)) (step : Step α)
    (s : Session α) : OperatesFrom s (perform call step) := by
  rcases step with ⟨kind, callback⟩ | outcome | - | - | - | - | count | - | report | -
  · refine .get_bind ?_
    rcases hr : s.handle.register kind callback with ⟨registration, handle⟩
    refine .set_bind (.register kind callback) (by simp [apply, hr]) ?_
    rcases registration with - | outcome | -
    · exact .of_handle_eq rfl
    · exact (hcall callback outcome _).bind fun _ s' ↦ .pure s' _
    · exact .of_handle_eq rfl
  · exact ⟨[.publish outcome], rfl⟩
  · refine (operatesFrom_dequeue s).bind fun completion? s' ↦ ?_
    rcases completion? with - | completion
    · exact .pure ..
    · refine .get_bind ?_
      dsimp only
      rcases s'.handle.callbackToFire? completion with - | callback
      · exact .of_handle_eq rfl
      · exact (hcall callback completion.outcome s').bind fun _ s'' ↦ .pure s'' _
  · refine (operatesFrom_dequeue s).bind fun completion? s' ↦ ?_
    rcases completion? with - | ⟨outcome, - | callback⟩
    · exact .pure ..
    · exact .of_handle_eq rfl
    · exact (hcall callback outcome s').bind fun _ s'' ↦ .pure s'' _
  · exact .of_handle_eq rfl
  · exact .of_handle_eq rfl
  · exact .of_handle_eq rfl
  · refine .get_bind ?_
    rcases s.handle.wait? with - | value
    · exact .of_handle_eq rfl
    · exact .of_handle_eq rfl
  · exact ⟨[.noteTermination report], rfl⟩
  · exact .of_handle_eq rfl

/-- A callback operates, at any depth of callbacks that it sets off. -/
theorem operatesFrom_call : ∀ (depth : Nat) (callback : Callback α) (outcome : Outcome α)
    (s : Session α), OperatesFrom s (call depth callback outcome)
  | 0, _, _, s => .pure s _
  | depth + 1, .mk name body panic, outcome, s => by
    refine .get_bind (OperatesFrom.bind (.of_handle_eq rfl) fun _ s₁ ↦
      OperatesFrom.bind (.forIn (fun step _ s₂ ↦ ?_) body.toList _ s₁) fun _ s₂ ↦ ?_)
    · refine (operatesFrom_perform (operatesFrom_call depth) step s₂).bind fun answer s₃ ↦ ?_
      exact .of_handle_eq rfl
    · rcases panic with - | message
      · exact .pure ..
      · exact .throw ..

/-! ### Runs

A script is any program of steps, and its callbacks are scripts again. Whatever it does to a handle,
it does by operations, and so what holds of all lists of operations holds of all scripts.
-/

/-- A step of a script does operations only, however deep its callbacks go. -/
theorem exists_after_step (depth : Nat) (step : Step α) (s : Session α) :
    ∃ ops, (s.step depth step).2.handle = s.handle.after ops :=
  operatesFrom_perform (operatesFrom_call depth) step { s with log := [] }

/-- A script does operations only. -/
theorem exists_after_run (depth : Nat) (steps : List (Step α)) (s : Session α) :
    ∃ ops, (s.run depth steps).2.handle = s.handle.after ops := by
  induction steps generalizing s with
  | nil => exact ⟨[], rfl⟩
  | cons step rest ih =>
    obtain ⟨ops, hops⟩ := exists_after_step depth step s
    obtain ⟨more, hmore⟩ := ih (s.step depth step).2
    exact ⟨ops ++ more, by rw [after_append, ← hops, ← hmore]; rfl⟩

/-- A script leaves its handle as a run of operations on a new handle does. -/
theorem exists_reached_of_runScript (identity : Identity) (pid : Option Nat) (steps : Steps α) :
    ∃ ops, (runScript identity pid steps).2.handle = reached identity pid ops :=
  exists_after_run ..

end Offload.Handle
