import Offload.Proofs.Traffic
import Mathlib.Data.List.Basic
import Mathlib.Data.List.Induction

/-!
# Conservation of slots

In calls that share limiters, with their steps in any order, a count is the number of calls that
hold a slot: those that were admitted and have not given their slot back (`Conserved.counted`). A
call gives its slot back in one of two moves, `giveBack` if it could not be started and `release` if
its watch has settled it, and never twice. A watch that loses its worker makes neither, so its call
is counted for good.

The invariant is `Conserved`. It rests on what one step of a call can do (`Flight.act_cases`):
either it gives the slot back that the call held, and releases its identity in its own table, or it
leaves the limiters as they are. That a watch releases the identity of its task, and that it never
finds the handle settled by another, is `Flight.Sound`.

There is no balance to keep between a call and its watch, since a slot is handed over at one point.
The call has it until its watch is launched, the watch from then on, and a failed launch leaves it
with the call. Both kinds of giving back are therefore steps of a `Flight`, and one statement about
its steps covers them.

Three things are kept apart that are easily taken for one: that a call was admitted, that it holds a
slot, and that it is counted. The first is never undone, the second ends with a move, and the third
is a number in a table that has no names in it. `Conserved` ties the third to the second for each
table and identity, by counting calls; so a count cannot be right by two mistakes that cancel each
other.
-/

namespace Offload

variable {α κ : Type}

open Traffic (Action Move)

/-! ### Who holds a slot

Whether a call holds a slot is read off its stage, and whether it gave one back off the moves that
were made. The two need not agree by definition. That they do is the invariant, and it is what makes
a count of the limiter, which sees neither, the number of open calls.
-/

/-- Whether a step gives a slot back. -/
def Traffic.Action.givesBack : Action α κ → Bool
  | .giveBack | .release => true
  | _ => false

/-- Whether a move gives back the slot of the call `n`. -/
def Traffic.Move.givesBack (n : Nat) : Move α κ → Bool
  | .call _ => false
  | .act m action => m == n && action.givesBack

/-- How often the moves of a list give back the slot of the call `n`. -/
def Traffic.returns (trace : List (Move α κ)) (n : Nat) : Nat :=
  trace.countP fun move ↦ move.givesBack n

/-- Whether a watch has given the slot back. -/
def Watch.Phase.hasReleased : Watch.Phase α κ → Bool
  | .reaping .finished | .ended .finished => true
  | _ => false

/-- Whether a watch has lost its worker. -/
def Watch.Phase.isLost : Watch.Phase α κ → Bool
  | .reaping .lost | .ended .lost => true
  | _ => false

namespace Flight

/-- Whether the call was given a slot. -/
def wasAdmitted (c : Flight α κ) : Bool :=
  match c.stage with
  | .refused _ => false
  | _ => true

/-- Whether the call holds a slot now. -/
def holdsSlot (c : Flight α κ) : Bool :=
  match c.stage with
  | .refused _ | .abandoned _ => false
  | .admitted | .failed _ => true
  | .watched phase .. => !phase.hasReleased

/-- Whether the watch of the call has lost the worker. -/
def isLost (c : Flight α κ) : Bool :=
  match c.stage with
  | .watched phase .. => phase.isLost
  | _ => false

/-- Whether the call is at its end: it could not be started, or its watch is over. -/
def isOver (c : Flight α κ) : Bool :=
  match c.stage with
  | .abandoned _ | .watched (.ended _) .. => true
  | _ => false

/-- Whether the call is counted under an identity, in the table of a reference. -/
def countsFor (c : Flight α κ) (ls : Limiters) (r : Nat) (i : Identity) : Bool :=
  decide (ls.position? r = ls.position? c.task.limiter ∧ i.key = c.task.identity.key)

end Flight

/-! ### What a step of a watch does -/

/-- How far a watch is and whether its handle is settled go together. -/
def Watch.Phase.Sound (h : Handle α κ) : Watch.Phase α κ → Prop
  | .asking => h.settled = none
  | .stopping _ | .firing _ | .releasing => h.settled.isSome = true
  | .reaping ending | .ended ending =>
    ending = .finished ∧ h.settled.isSome = true ∨ ending = .lost ∧ h.settled = none

/-- Soundness of a phase depends on whether the handle is settled and on nothing else of it. -/
theorem Watch.Phase.Sound.congr {h h' : Handle α κ} {phase : Watch.Phase α κ}
    (hp : phase.Sound h) (hs : h'.settled = h.settled) : phase.Sound h' := by
  cases phase <;> simpa [Watch.Phase.Sound, hs] using hp

/-- A step of a watch releases, or leaves the table as it is. -/
theorem Watch.advance_cases {settings : Settings} {phase phase' : Watch.Phase α κ}
    {action : Action α κ} {s s' : Watch.State α κ} (hp : phase.Sound s.handle)
    (h : Watch.advance settings phase action s = some (phase', s')) :
    phase'.Sound s'.handle ∧ s'.handle.identity = s.handle.identity ∧
      (action.givesBack = true ∧ phase.hasReleased = false ∧ phase'.hasReleased = true ∧
          s'.limiter = s.limiter.release s.handle.identity ∨
        action.givesBack = false ∧ phase'.hasReleased = phase.hasReleased ∧
          s'.limiter = s.limiter) := by
  revert hp h
  fun_cases Watch.advance settings phase action s <;> intro hp h
  case case1 =>
    obtain ⟨rfl, rfl⟩ := Prod.mk.inj (Option.some.inj h)
    exact ⟨hp, rfl, .inr ⟨rfl, rfl, rfl⟩⟩
  case case2 outcome handle s₁ hpub =>
    -- an asking watch has an incomplete handle, so its outcome is never ignored
    rw [Handle.publish_of_incomplete (by exact hp)] at hpub
    exact absurd hpub (by simp)
  case case3 outcome completion handle s₁ hpub =>
    rw [Handle.publish_of_incomplete (by exact hp)] at hpub
    cases hpub
    obtain ⟨rfl, rfl⟩ := Prod.mk.inj (Option.some.inj h)
    exact ⟨rfl, rfl, .inr ⟨rfl, rfl, rfl⟩⟩
  case case4 =>
    obtain ⟨rfl, rfl⟩ := Prod.mk.inj (Option.some.inj h)
    exact ⟨.inr ⟨rfl, hp⟩, rfl, .inr ⟨rfl, rfl, rfl⟩⟩
  case case5 completion alive report =>
    rw [stop_eq] at h
    obtain ⟨rfl, rfl⟩ := Prod.mk.inj (Option.some.inj h)
    exact ⟨hp, rfl, .inr ⟨rfl, rfl, rfl⟩⟩
  case case6 completion =>
    cases h
    rw [State.fire]
    split <;> exact ⟨hp, rfl, .inr ⟨rfl, rfl, rfl⟩⟩
  case case7 =>
    cases h
    exact ⟨.inl ⟨rfl, hp⟩, rfl, .inl ⟨rfl, rfl, rfl, rfl⟩⟩
  case case8 ending =>
    cases h
    refine ⟨hp, rfl, .inr ⟨rfl, ?_, rfl⟩⟩
    cases ending <;> rfl
  case case9 kind callback =>
    cases h
    obtain ⟨hs, hi⟩ := s.handle.settled_register kind callback
    exact ⟨hp.congr hs, hi, .inr ⟨rfl, rfl, rfl⟩⟩
  case case10 => cases h

/-- A watch that has lost its worker never released a slot. -/
theorem Watch.Phase.hasReleased_of_isLost (phase : Watch.Phase α κ) (h : phase.isLost = true) :
    phase.hasReleased = false := by
  rcases phase with _ | _ | _ | _ | ending | ending <;>
    first
      | cases h
      | cases ending <;> first | rfl | cases h

/-- A watch that has lost its worker reaps it, and that is all. -/
theorem Watch.advance_of_isLost {settings : Settings} {phase phase' : Watch.Phase α κ}
    {action : Action α κ} {s s' : Watch.State α κ} (hl : phase.isLost = true)
    (h : Watch.advance settings phase action s = some (phase', s')) :
    phase'.isLost = true ∧ action.givesBack = false := by
  revert hl h
  fun_cases Watch.advance settings phase action s <;> intro hl h
  -- of the steps, only reaping and a callback's registration start from a phase that is lost
  case case8 ending =>
    cases h
    cases ending <;> first | exact ⟨rfl, rfl⟩ | cases hl
  case case9 kind callback =>
    cases h
    exact ⟨hl, rfl⟩
  all_goals first | cases hl | cases h

/-! ### What a step of a call does

Two cases are enough for all that follows: a step gives a slot back, or it leaves the limiters as
they are. The kinds of steps and the phases of a watch are looked at here and not again.
-/

namespace Flight

/-- The watch of a call is sound, and works on a handle of its task's identity. A refusal names the
bound that the call was refused under. -/
def Sound (c : Flight α κ) : Prop :=
  match c.stage with
  | .watched phase handle _ => phase.Sound handle ∧ handle.identity = c.task.identity
  | .refused e => ∃ max, c.task.settings.limit = .atMost max ∧
      e = .limitExceeded c.task.identity.name max
  | _ => True

/-- A step of a call gives back the slot that it held, in its own table under its own identity, or
leaves the limiters as they are. -/
theorem act_cases {c c' : Flight α κ} {ls ls' : Limiters} {action : Action α κ} (hc : c.Sound)
    (h : c.act ls action = some (c', ls')) :
    c'.task = c.task ∧ c'.Sound ∧ c.wasAdmitted = true ∧ c'.wasAdmitted = true ∧
      (action.givesBack = true ∧ c.holdsSlot = true ∧ c'.holdsSlot = false ∧
          ls' = ls.release c.task.limiter c.task.identity ∨
        action.givesBack = false ∧ c'.holdsSlot = c.holdsSlot ∧ ls' = ls) := by
  obtain ⟨task, stage⟩ := c
  cases stage with
  | refused e => simp [act] at h
  | abandoned e => simp [act] at h
  | admitted =>
    rcases action with ⟨e | pid⟩ | _ | _ | _ | _ | _ | _ | _ <;> try (simp [act] at h; done)
    · cases h
      exact ⟨rfl, trivial, rfl, rfl, .inr ⟨rfl, rfl, rfl⟩⟩
    · cases h
      exact ⟨rfl, ⟨rfl, rfl⟩, rfl, rfl, .inr ⟨rfl, rfl, rfl⟩⟩
  | failed e =>
    cases action <;> try (simp [act] at h; done)
    case giveBack =>
      cases h
      exact ⟨rfl, trivial, rfl, rfl, .inl ⟨rfl, rfl, rfl, rfl⟩⟩
  | watched phase handle effects =>
    obtain ⟨hp, hi⟩ := hc
    obtain ⟨⟨phase', s'⟩, hadvance, heq⟩ := Option.map_eq_some_iff.1 h
    obtain ⟨rfl, rfl⟩ := Prod.mk.inj heq
    obtain ⟨hp', hi', hcases⟩ := Watch.advance_cases hp hadvance
    refine ⟨rfl, ⟨hp', hi'.trans hi⟩, rfl, rfl, ?_⟩
    -- the watch works on a copy of its table, which is put back where it was taken from
    rcases hcases with ⟨ha, hr, hr', hl⟩ | ⟨ha, hr, hl⟩
    · refine .inl ⟨ha, by simp [holdsSlot, hr], by simp [holdsSlot, hr'], ?_⟩
      show ls.set task.limiter s'.limiter = _
      rw [hl]
      show ls.set task.limiter (((ls.get? task.limiter).getD .empty).release handle.identity) = _
      rw [hi, Limiters.set_release]
    · refine .inr ⟨ha, by simp [holdsSlot, hr], ?_⟩
      show ls.set task.limiter s'.limiter = _
      rw [hl]
      exact Limiters.set_getD_get? ls task.limiter

/-- A step of a call leaves every reference where it stood. -/
theorem frame_of_act {c c' : Flight α κ} {ls ls' : Limiters} {action : Action α κ} (hc : c.Sound)
    (h : c.act ls action = some (c', ls')) (r : Nat) :
    ls'.position? r = ls.position? r ∧ (ls'.get? r).isSome = (ls.get? r).isSome := by
  obtain ⟨-, -, -, -, ⟨-, -, -, rfl⟩ | ⟨-, -, rfl⟩⟩ := act_cases hc h
  · exact ⟨Limiters.position?_release .., Limiters.isSome_get?_release ..⟩
  · exact ⟨rfl, rfl⟩

/-- A call whose worker was lost keeps its slot in every step. -/
theorem act_of_isLost {c c' : Flight α κ} {ls ls' : Limiters} {action : Action α κ}
    (hl : c.isLost = true) (h : c.act ls action = some (c', ls')) :
    c'.isLost = true ∧ c'.task = c.task ∧ action.givesBack = false := by
  obtain ⟨task, stage⟩ := c
  cases stage with
  | watched phase handle effects =>
    obtain ⟨⟨phase', s'⟩, hadvance, heq⟩ := Option.map_eq_some_iff.1 h
    obtain ⟨rfl, rfl⟩ := Prod.mk.inj heq
    obtain ⟨hl', ha⟩ := Watch.advance_of_isLost hl hadvance
    exact ⟨hl', rfl, ha⟩
  | _ => cases hl

/-- A refused call is at its end. -/
theorem act_of_refused {c : Flight α κ} {e : TaskError} (hc : c.stage = .refused e)
    (ls : Limiters) (action : Action α κ) : c.act ls action = none := by
  simp [act, hc]

theorem holdsSlot_of_isLost {c : Flight α κ} (h : c.isLost = true) : c.holdsSlot = true := by
  obtain ⟨task, stage⟩ := c
  cases stage with
  | watched phase handle effects => simp [holdsSlot, phase.hasReleased_of_isLost h]
  | _ => cases h

/-- A call at its end has given its slot back, unless its worker was lost. -/
theorem returned_of_isOver {c : Flight α κ} (hc : c.Sound) (h : c.isOver = true) :
    (if c.wasAdmitted && !c.holdsSlot then 1 else 0) = if c.isLost then 0 else 1 := by
  obtain ⟨task, stage⟩ := c
  rcases stage with e | _ | e | e | ⟨_ | _ | _ | _ | _ | ending, handle, effects⟩ <;>
    try cases h
  · rfl
  · obtain ⟨⟨rfl, -⟩ | ⟨rfl, -⟩, -⟩ := hc <;> rfl

theorem wasAdmitted_of_holdsSlot {c : Flight α κ} (h : c.holdsSlot = true) :
    c.wasAdmitted = true := by
  obtain ⟨task, stage⟩ := c
  cases stage <;> first | rfl | cases h

/-- Which count a call is for is fixed by its task and by where the limiters have their tables. -/
theorem countsFor_congr {c c' : Flight α κ} {ls ls' : Limiters} (ht : c'.task = c.task)
    (hp : ∀ r, ls'.position? r = ls.position? r) (r : Nat) (i : Identity) :
    c'.countsFor ls' r i = c.countsFor ls r i := by
  simp [countsFor, ht, hp]

end Flight

/-! ### Taking a slot -/

namespace Task

variable {t : Task} {ls : Limiters} {table : Limiter}

/-- A call that its limit admits takes a slot and enters the count. -/
theorem takeSlot_of_admits (hk : ls.get? t.limiter = some table)
    (hl : t.settings.limit.admits (ls.inFlight t.limiter t.identity) = true) :
    t.takeSlot ls = (.ok (), (ls.enter t.limiter t.identity t.settings.limit).2) := by
  have hadmitted := (Limiters.enter_fst hk t.identity t.settings.limit).trans hl
  simp [takeSlot, hadmitted]

/-- A call that is not admitted is refused, and the limiters stay as they are. -/
theorem takeSlot_of_not_admits (hk : ls.get? t.limiter = some table)
    (hl : t.settings.limit.admits (ls.inFlight t.limiter t.identity) = false) :
    t.takeSlot ls = (.error t.refusal, ls) := by
  simp [takeSlot, Limiters.enter_of_not_admits hk hl]

/-- A call is refused under a bound that is met, and the error names the bound. -/
theorem refusal_of_not_admits
    (hl : t.settings.limit.admits (ls.inFlight t.limiter t.identity) = false) :
    ∃ max, t.settings.limit = .atMost max ∧ max ≤ ls.inFlight t.limiter t.identity ∧
      t.refusal = .limitExceeded t.identity.name max := by
  rcases hlimit : t.settings.limit with - | max
  · simp [hlimit, Limit.admits] at hl
  · refine ⟨max, rfl, ?_, by simp [refusal, reportedLimit, hlimit]⟩
    simpa [hlimit, Limit.admits] using hl

end Task

namespace Traffic

variable {s s' : Traffic α κ} {trace : List (Move α κ)}

/-- What a move does. A call is admitted, or refused with nothing counted, or one of the calls makes
a step. -/
theorem step_cases {move : Move α κ} (h : s.step move = some s') :
    (∃ task table, move = .call task ∧ s.limiters.get? task.limiter = some table ∧
      (task.settings.limit.admits (s.limiters.inFlight task.limiter task.identity) = true ∧
          s' = ⟨(s.limiters.enter task.limiter task.identity task.settings.limit).2,
            s.calls ++ [⟨task, .admitted⟩]⟩ ∨
        task.settings.limit.admits (s.limiters.inFlight task.limiter task.identity) = false ∧
          s' = ⟨s.limiters, s.calls ++ [⟨task, .refused task.refusal⟩]⟩)) ∨
      ∃ n action c c' ls', move = .act n action ∧ s.calls[n]? = some c ∧
        c.act s.limiters action = some (c', ls') ∧ s' = ⟨ls', s.calls.set n c'⟩ := by
  cases move with
  | call task =>
    left
    simp only [step] at h
    split at h
    · next hk =>
      obtain ⟨table, hk⟩ := Option.isSome_iff_exists.1 hk
      refine ⟨task, table, rfl, hk, ?_⟩
      rcases hl : task.settings.limit.admits
          (s.limiters.inFlight task.limiter task.identity) with - | -
      · rw [Task.takeSlot_of_not_admits hk hl] at h
        exact .inr ⟨rfl, (Option.some.inj h).symm⟩
      · rw [Task.takeSlot_of_admits hk hl] at h
        exact .inl ⟨rfl, (Option.some.inj h).symm⟩
    · exact absurd h (by simp)
  | act n action =>
    right
    obtain ⟨c, hc, h⟩ := Option.bind_eq_some_iff.1 h
    obtain ⟨⟨c', ls'⟩, hact, rfl⟩ := Option.map_eq_some_iff.1 h
    exact ⟨n, action, c, c', ls', rfl, hc, hact, rfl⟩

theorem returns_append (trace more : List (Move α κ)) (n : Nat) :
    returns (trace ++ more) n = returns trace n + returns more n :=
  List.countP_append ..

theorem returns_concat (trace : List (Move α κ)) (move : Move α κ) (n : Nat) :
    returns (trace ++ [move]) n = returns trace n + if move.givesBack n then 1 else 0 := by
  simp [returns]

/-! ### The invariant -/

/-- In the table of a reference, under an identity: the calls that hold a slot. -/
def holders (s : Traffic α κ) (r : Nat) (i : Identity) : Nat :=
  s.calls.countP fun c ↦ c.holdsSlot && c.countsFor s.limiters r i

/-- What the moves made so far leave true of the calls that they lead to. -/
structure Conserved (trace : List (Move α κ)) (s : Traffic α κ) : Prop where
  /-- The limiter of a call stands for a table. -/
  known : ∀ c ∈ s.calls, (s.limiters.get? c.task.limiter).isSome = true
  sound : ∀ c ∈ s.calls, c.Sound
  /-- A call that was admitted and holds no slot has given it back, once. -/
  returned : ∀ n c, s.calls[n]? = some c →
    returns trace n = if c.wasAdmitted && !c.holdsSlot then 1 else 0
  unborn : ∀ n, s.calls.length ≤ n → returns trace n = 0
  counted : ∀ r i, s.limiters.inFlight r i = s.holders r i

/-- A call that comes in is one holder more if it holds a slot. -/
theorem holders_append (ls ls' : Limiters) (hp : ∀ r, ls'.position? r = ls.position? r)
    (calls : List (Flight α κ)) (c : Flight α κ) (r : Nat) (i : Identity) :
    holders ⟨ls', calls ++ [c]⟩ r i =
      holders ⟨ls, calls⟩ r i + if c.holdsSlot && c.countsFor ls r i then 1 else 0 := by
  simp only [holders, Flight.countsFor_congr rfl hp, List.countP_append, List.countP_singleton]

/-- A call that makes a step is one holder more or less at most. -/
theorem holders_set {ls ls' : Limiters} (hp : ∀ r, ls'.position? r = ls.position? r)
    {calls : List (Flight α κ)} {n : Nat} {c c' : Flight α κ} (hc : calls[n]? = some c)
    (ht : c'.task = c.task) (r : Nat) (i : Identity) :
    holders ⟨ls', calls.set n c'⟩ r i =
        holders ⟨ls, calls⟩ r i - (if c.holdsSlot && c.countsFor ls r i then 1 else 0) +
          (if c'.holdsSlot && c.countsFor ls r i then 1 else 0) ∧
      (if c.holdsSlot && c.countsFor ls r i then 1 else 0) ≤ holders ⟨ls, calls⟩ r i := by
  obtain ⟨hn, rfl⟩ := List.getElem?_eq_some_iff.1 hc
  simp only [holders, Flight.countsFor_congr rfl hp, List.countP_set hn,
    Flight.countsFor_congr ht fun _ ↦ rfl, true_and]
  split
  · next hold => exact List.countP_pos_iff.2 ⟨calls[n], List.getElem_mem hn, hold⟩
  · exact Nat.zero_le _

/-- Before the first call no slot is held and every count is zero. -/
theorem Conserved.init {limiters : Limiters} (quiet : ∀ r i, limiters.inFlight r i = 0) :
    Conserved [] (⟨limiters, []⟩ : Traffic α κ) where
  known := by simp
  sound := by simp
  returned := by simp
  unborn := by simp [returns]
  counted r i := by simp [quiet, holders]

/-- A call that is new keeps the invariant, where its slot is counted if it has one. -/
theorem Conserved.append (hs : Conserved trace s) {c : Flight α κ} {ls' : Limiters}
    (hnew : c.stage = .admitted ∨ ∃ e, c.stage = .refused e) (hc : c.Sound)
    (hk : (s.limiters.get? c.task.limiter).isSome = true)
    (hg : ∀ r, (ls'.get? r).isSome = (s.limiters.get? r).isSome)
    (hp : ∀ r, ls'.position? r = s.limiters.position? r)
    (hcount : ∀ r i, ls'.inFlight r i =
      s.limiters.inFlight r i + if c.holdsSlot && c.countsFor s.limiters r i then 1 else 0) :
    Conserved (trace ++ [.call c.task]) ⟨ls', s.calls ++ [c]⟩ := by
  have hcalls : ∀ n, returns (trace ++ [.call c.task]) n = returns trace n := fun n ↦ by
    simp [returns_concat, Move.givesBack]
  refine ⟨fun d hd ↦ ?_, fun d hd ↦ ?_, fun n d hd ↦ ?_, fun n hn ↦ ?_, fun r i ↦ ?_⟩
  · rw [hg]
    rcases List.mem_append.1 hd with hd | hd
    · exact hs.known d hd
    · rwa [List.mem_singleton.1 hd]
  · rcases List.mem_append.1 hd with hd | hd
    · exact hs.sound d hd
    · rwa [List.mem_singleton.1 hd]
  · -- the new call is behind the others, and no move has been about it yet
    rw [hcalls]
    rcases Nat.lt_or_ge n s.calls.length with hn | hn
    · exact hs.returned n d (by rwa [List.getElem?_append_left hn] at hd)
    · rw [List.getElem?_append_right hn] at hd
      obtain rfl : d = c := by simpa using List.mem_of_getElem? hd
      rw [hs.unborn n hn]
      rcases hnew with h | ⟨e, h⟩ <;> simp [Flight.wasAdmitted, Flight.holdsSlot, h]
  · rw [hcalls]
    exact hs.unborn n (by simp at hn; omega)
  · rw [hcount, hs.counted, ← holders_append s.limiters ls' hp]

/-- A step of a call keeps the invariant. -/
theorem Conserved.set (hs : Conserved trace s) {n : Nat} {action : Action α κ}
    {c c' : Flight α κ} {ls' : Limiters} (hc : s.calls[n]? = some c)
    (hact : c.act s.limiters action = some (c', ls')) :
    Conserved (trace ++ [.act n action]) ⟨ls', s.calls.set n c'⟩ := by
  have hmem : c ∈ s.calls := List.mem_of_getElem? hc
  obtain ⟨table, hk⟩ := Option.isSome_iff_exists.1 (hs.known c hmem)
  obtain ⟨ht, hsound, hadm, hadm', hcases⟩ := Flight.act_cases (hs.sound c hmem) hact
  have hframe := Flight.frame_of_act (hs.sound c hmem) hact
  have hother : ∀ m, m ≠ n → returns (trace ++ [.act n action]) m = returns trace m := by
    intro m hm
    simp [returns_concat, Move.givesBack, Ne.symm hm]
  have hmem' : ∀ d ∈ s.calls.set n c', d ∈ s.calls ∨ d = c' := fun d hd ↦
    List.mem_or_eq_of_mem_set hd
  refine ⟨fun d hd ↦ ?_, fun d hd ↦ ?_, fun m d hd ↦ ?_, fun m hm ↦ ?_, fun r i ↦ ?_⟩
  · -- no table is made or lost by a step of a call
    rw [(hframe _).2]
    rcases hmem' d hd with hd | rfl
    · exact hs.known d hd
    · rw [ht]
      exact hs.known c hmem
  · rcases hmem' d hd with hd | rfl
    · exact hs.sound d hd
    · exact hsound
  · -- only the moves of the call itself are about its slot
    by_cases hm : m = n
    · subst hm
      obtain rfl : c' = d := by simpa [(List.getElem?_eq_some_iff.1 hc).1] using hd
      have hret := hs.returned m c hc
      rcases hcases with ⟨ha, hold, hold', -⟩ | ⟨ha, hold, -⟩
      · simp [returns_concat, Move.givesBack, ha, hret, hadm', hold, hold']
      · simp [returns_concat, Move.givesBack, ha, hret, hadm, hadm', hold]
    · rw [hother m hm]
      exact hs.returned m d (by rwa [List.getElem?_set_ne (Ne.symm hm)] at hd)
  · have hm' : s.calls.length ≤ m := by simpa using hm
    have hn : n < s.calls.length := (List.getElem?_eq_some_iff.1 hc).1
    rw [hother m (by omega)]
    exact hs.unborn m hm'
  · -- one holder less where a slot is given back, and as many as before otherwise
    obtain ⟨hset, hle⟩ := holders_set (fun r ↦ (hframe r).1) hc ht r i
    have hcounted := hs.counted r i
    rw [hset]
    rcases hcases with ⟨-, hold, hold', rfl⟩ | ⟨-, hold, rfl⟩
    · -- the slot that is given back is counted under this identity, or under another one
      rw [Limiters.inFlight_release hk, hcounted]
      simp [hold, hold', Flight.countsFor, Traffic.holders]
      split <;> rfl
    · rw [hold, hcounted]
      exact (Nat.sub_add_cancel hle).symm

/-- One move keeps the conservation, whichever call it belongs to. The cases are the arrival of a
call and a step of one that is there; in the second the call in question is compared with itself and
all others are as they were. -/
theorem Conserved.step (hs : Conserved trace s) {move : Move α κ} (h : s.step move = some s') :
    Conserved (trace ++ [move]) s' := by
  rcases step_cases h with ⟨task, table, rfl, hk, hcases⟩ |
    ⟨n, action, c, c', ls', rfl, hc, hact, rfl⟩
  · have hknown : (s.limiters.get? task.limiter).isSome = true := by simp [hk]
    rcases hcases with ⟨hl, rfl⟩ | ⟨hl, rfl⟩
    · refine hs.append (c := ⟨task, .admitted⟩) (.inl rfl) trivial hknown
        (fun r ↦ Limiters.isSome_get?_enter ..) (fun r ↦ Limiters.position?_enter ..)
        fun r i ↦ ?_
      rw [Limiters.inFlight_enter hk]
      simp only [hl, true_and, Flight.holdsSlot, Flight.countsFor, Bool.true_and,
        decide_eq_true_eq]
      split <;> rfl
    · obtain ⟨max, hlimit, -, hrefusal⟩ := Task.refusal_of_not_admits hl
      exact hs.append (c := ⟨task, .refused _⟩) (.inr ⟨_, rfl⟩) ⟨max, hlimit, hrefusal⟩ hknown
        (fun _ ↦ rfl) (fun _ ↦ rfl) fun r i ↦ by simp [Flight.holdsSlot]
  · exact hs.set hc hact

theorem Conserved.of_run {limiters : Limiters} (quiet : ∀ r i, limiters.inFlight r i = 0)
    (h : run trace ⟨limiters, []⟩ = some s) : Conserved trace s := by
  -- from the last move, for the invariant speaks of all the moves before
  induction trace using List.reverseRecOn generalizing s with
  | nil =>
    obtain rfl := Option.some.inj h
    exact .init quiet
  | append_singleton trace move ih =>
    obtain ⟨s₁, h₁, hstep⟩ := run_concat_eq_some_iff.1 h
    exact (ih h₁).step hstep

/-! ### What the counts say

The results are stated with the moves of a run, and not with the stages that the invariant uses:
`openCalls` counts admissions whose slot no move gave back. Of the calls that are over, those whose
worker was lost keep their slot and no others do (`Accounted.ended`).
-/

/-- In the table of a reference, under an identity: the calls that were admitted and whose slots no
move of the run gave back. -/
def openCalls (trace : List (Move α κ)) (s : Traffic α κ) (r : Nat) (i : Identity) : Nat :=
  s.calls.zipIdx.countP fun (c, n) ↦
    c.wasAdmitted && c.countsFor s.limiters r i && returns trace n == 0

/-- A call holds a slot if it was admitted and no move gave the slot back. -/
theorem Conserved.openCalls_eq (hs : Conserved trace s) (r : Nat) (i : Identity) :
    openCalls trace s r i = s.limiters.inFlight r i := by
  have hfst : s.holders r i = s.calls.zipIdx.countP fun p ↦
      p.1.holdsSlot && p.1.countsFor s.limiters r i := by
    conv_lhs => rw [holders, ← List.zipIdx_map_fst 0 s.calls, List.countP_map]
    rfl
  rw [hs.counted, hfst]
  refine List.countP_congr fun ⟨c, n⟩ hmem ↦ ?_
  -- position by position, the moves that gave the slot back tell who holds none
  have hret := hs.returned n c (List.mk_mem_zipIdx_iff_getElem?.1 hmem)
  simp only [hret]
  rcases hold : c.holdsSlot with - | -
  · cases hadm : c.wasAdmitted <;> simp
  · simp [Flight.wasAdmitted_of_holdsSlot hold]

/-- A call whose worker was lost stays so, and its slot is not given back. -/
theorem lost_of_run {more : List (Move α κ)} {n : Nat} {c : Flight α κ}
    (hc : s.calls[n]? = some c) (hl : c.isLost = true) (h : run more s = some s') :
    returns more n = 0 ∧
      ∃ c', s'.calls[n]? = some c' ∧ c'.task = c.task ∧ c'.isLost = true := by
  induction more generalizing s c with
  | nil =>
    obtain rfl := Option.some.inj h
    exact ⟨rfl, c, hc, rfl, hl⟩
  | cons move more ih =>
    obtain ⟨s₁, hstep, hrun⟩ := Option.bind_eq_some_iff.1 h
    have hn : n < s.calls.length := (List.getElem?_eq_some_iff.1 hc).1
    have hc₁ : move.givesBack n = false ∧
        ∃ c₁, s₁.calls[n]? = some c₁ ∧ c₁.task = c.task ∧ c₁.isLost = true := by
      rcases step_cases hstep with ⟨task, table, rfl, -, hcases⟩ |
        ⟨m, action, d, d', ls', rfl, hd, hact, rfl⟩
      · -- a call that comes in stands behind the one whose worker was lost
        refine ⟨rfl, c, ?_, rfl, hl⟩
        rcases hcases with ⟨-, rfl⟩ | ⟨-, rfl⟩ <;> simpa [List.getElem?_append_left hn] using hc
      · by_cases hm : m = n
        · subst hm
          obtain rfl := Option.some.inj (hc.symm.trans hd)
          obtain ⟨hl', ht, ha⟩ := Flight.act_of_isLost hl hact
          exact ⟨by simp [Move.givesBack, ha], d', by simp [hn], ht, hl'⟩
        · exact ⟨by simp [Move.givesBack, hm], c, by simpa [List.getElem?_set_ne hm] using hc,
            rfl, hl⟩
    obtain ⟨hback, c₁, hc₁, ht, hl₁⟩ := hc₁
    obtain ⟨hret, c', hc', ht', hl'⟩ := ih hc₁ hl₁ hrun
    refine ⟨?_, c', hc', ht'.trans ht, hl'⟩
    simpa [returns, List.countP_cons, hback] using hret

/-- A move keeps every reference and every task. -/
theorem Conserved.frame (hs : Conserved trace s) {move : Move α κ} (h : s.step move = some s') :
    (∀ r, s'.limiters.position? r = s.limiters.position? r) ∧
      ∀ c ∈ s.calls, ∃ c' ∈ s'.calls, c'.task = c.task := by
  rcases step_cases h with ⟨task, table, rfl, -, ⟨-, rfl⟩ | ⟨-, rfl⟩⟩ |
    ⟨n, action, c, c', ls', rfl, hc, hact, rfl⟩
  · exact ⟨by simp, fun c hc ↦ ⟨c, List.mem_append_left _ hc, rfl⟩⟩
  · exact ⟨fun r ↦ rfl, fun c hc ↦ ⟨c, List.mem_append_left _ hc, rfl⟩⟩
  · have hsound := hs.sound c (List.mem_of_getElem? hc)
    obtain ⟨ht, -⟩ := Flight.act_cases hsound hact
    refine ⟨fun r ↦ (Flight.frame_of_act hsound hact r).1, fun d hd ↦ ?_⟩
    · have hn : n < s.calls.length := (List.getElem?_eq_some_iff.1 hc).1
      obtain ⟨m, hm⟩ := List.mem_iff_getElem?.1 hd
      by_cases hmn : m = n
      · subst hmn
        obtain rfl := Option.some.inj (hm.symm.trans hc)
        exact ⟨c', List.mem_of_getElem? (i := m) (by simp [hn]), ht⟩
      · exact ⟨d, List.mem_of_getElem? (i := m) (by simpa [List.getElem?_set_ne (Ne.symm hmn)]),
          rfl⟩

/-- Calls that are all under one bound keep to it. -/
theorem inFlight_le_of_run {limiters : Limiters} (quiet : ∀ r i, limiters.inFlight r i = 0)
    (h : run trace ⟨limiters, []⟩ = some s) {r : Nat} {i : Identity} {max : Nat}
    (hmax : ∀ c ∈ s.calls, c.countsFor s.limiters r i = true →
      c.task.settings.limit = .atMost max) :
    s.limiters.inFlight r i ≤ max := by
  induction trace using List.reverseRecOn generalizing s with
  | nil =>
    obtain rfl := Option.some.inj h
    simp [quiet]
  | append_singleton trace move ih =>
    obtain ⟨s₁, h₁, hstep⟩ := run_concat_eq_some_iff.1 h
    have hs₁ := Conserved.of_run quiet h₁
    -- every call of now that is not new was there before the move, under the same bound
    have hle : s₁.limiters.inFlight r i ≤ max := by
      obtain ⟨hpos, hcalls⟩ := hs₁.frame hstep
      refine ih h₁ fun c hc hfor ↦ ?_
      obtain ⟨c', hc', ht⟩ := hcalls c hc
      rw [← ht]
      exact hmax c' hc' ((Flight.countsFor_congr ht hpos r i).trans hfor)
    rcases step_cases hstep with ⟨task, table, rfl, hk, ⟨hl, rfl⟩ | ⟨-, rfl⟩⟩ |
      ⟨n, action, c, c', ls', rfl, hc, hact, rfl⟩
    · rw [Limiters.inFlight_enter hk]
      split
      · next hcond =>
        -- the new call is one of those under the bound, so it was admitted below the bound
        obtain ⟨-, hr, hi⟩ := hcond
        have hlimit := hmax ⟨task, .admitted⟩ (by simp) (by simp [Flight.countsFor, hr, hi])
        rw [show task.settings.limit = .atMost max from hlimit, Limit.admits_atMost,
          ← Limiters.inFlight_congr hr hi] at hl
        exact hl
      · exact hle
    · exact hle
    · obtain ⟨table, hk⟩ := Option.isSome_iff_exists.1 (hs₁.known c (List.mem_of_getElem? hc))
      obtain ⟨-, -, -, -, hcases⟩ := Flight.act_cases (hs₁.sound c (List.mem_of_getElem? hc)) hact
      rcases hcases with ⟨-, -, -, rfl⟩ | ⟨-, -, rfl⟩
      · rw [Limiters.inFlight_release hk]
        split <;> omega
      · exact hle

/-- A move that gives a slot back takes one from the counts of its call, which is in them, and
nothing from the others. -/
theorem Conserved.inFlight_of_givesBack (hs : Conserved trace s) {move : Move α κ}
    (h : s.step move = some s') {n : Nat} (hb : move.givesBack n = true) :
    ∃ c, s.calls[n]? = some c ∧ ∀ r i, s.limiters.inFlight r i =
      s'.limiters.inFlight r i + if c.countsFor s.limiters r i then 1 else 0 := by
  rcases step_cases h with ⟨task, table, rfl, -⟩ | ⟨m, action, c, c', ls', rfl, hc, hact, rfl⟩
  · cases hb
  · obtain ⟨hm, ha⟩ : m = n ∧ action.givesBack = true := by simpa [Move.givesBack] using hb
    subst hm
    refine ⟨c, hc, fun r i ↦ ?_⟩
    have hmem := List.mem_of_getElem? hc
    obtain ⟨table, hk⟩ := Option.isSome_iff_exists.1 (hs.known c hmem)
    obtain ⟨ht, -, -, -, ⟨-, hold, -, rfl⟩ | ⟨ha', -⟩⟩ := Flight.act_cases (hs.sound c hmem) hact
    · have hsame : ∀ r, s.limiters.position? r = s.limiters.position? r := fun _ ↦ rfl
      have hcounted : holders ⟨s.limiters, s.calls⟩ r i = _ := (hs.counted r i).symm
      have hle := (holders_set hsame hc ht r i).2
      rw [hold, Bool.true_and, hcounted] at hle
      rw [Limiters.inFlight_release hk]
      simp only [Flight.countsFor, decide_eq_true_eq] at hle ⊢
      by_cases hfor : s.limiters.position? r = s.limiters.position? c.task.limiter ∧
          i.key = c.task.identity.key
      · simp only [if_pos hfor] at hle ⊢
        omega
      · simp only [if_neg hfor, Nat.add_zero]
    · rw [ha] at ha'
      exact absurd ha' (by simp)

/-- The steps that are left to a call until its slot is given back, where nothing is left to wait
for: its start failed, or its watch has the outcome. -/
def stepsLeft (c : Flight α κ) (alive : Bool) (report : Option Report) : List (Action α κ) :=
  match c.stage with
  | .failed _ => [.giveBack]
  | .watched (.stopping _) .. => [.stop alive report, .fire, .release]
  | .watched (.firing _) .. => [.fire, .release]
  | .watched .releasing .. => [.release]
  | _ => []

/-- Such a call can make its steps at any time, whatever the other calls have come to. -/
theorem run_stepsLeft {n : Nat} {c : Flight α κ} (hc : s.calls[n]? = some c) (alive : Bool)
    (report : Option Report) :
    ∃ s', run ((stepsLeft c alive report).map (.act n)) s = some s' := by
  have hset : ∀ c', (s.calls.set n c')[n]? = some c' := fun c' ↦ by
    simp [(List.getElem?_eq_some_iff.1 hc).1]
  obtain ⟨task, stage⟩ := c
  rcases stage with e | _ | e | e | ⟨_ | _ | _ | _ | _ | _, handle, effects⟩ <;>
    simp [stepsLeft, run, step, hc, hset, Flight.act, Watch.advance]

/-- The steps that are left to a call give its slot back once, if there are any. -/
theorem returns_stepsLeft (c : Flight α κ) (alive : Bool) (report : Option Report) (n : Nat) :
    returns ((stepsLeft c alive report).map (.act n)) n =
      if (stepsLeft c alive report).isEmpty then 0 else 1 := by
  obtain ⟨task, stage⟩ := c
  rcases stage with e | _ | e | e | ⟨_ | _ | _ | _ | _ | _, handle, effects⟩ <;>
    simp [stepsLeft, returns, Move.givesBack, Action.givesBack]

theorem holdsSlot_of_stepsLeft {c : Flight α κ} {alive : Bool} {report : Option Report}
    (h : stepsLeft c alive report ≠ []) : c.holdsSlot = true := by
  obtain ⟨task, stage⟩ := c
  rcases stage with e | _ | e | e | ⟨_ | _ | _ | _ | _ | _, handle, effects⟩ <;>
    first
      | rfl
      | exact absurd rfl h

/-- How the calls that a run leads to stand to the counts. -/
structure Accounted (trace : List (Move α κ)) (s : Traffic α κ) : Prop where
  /-- A count is the number of the calls that were admitted and whose slot no move gave back. -/
  counted : ∀ r i, s.limiters.inFlight r i = openCalls trace s r i
  /-- A call whose worker was lost is counted for good. -/
  lost : ∀ n c, s.calls[n]? = some c → c.isLost = true → ∀ more s', run more s = some s' →
    returns (trace ++ more) n = 0 ∧
      ∃ c', s'.calls[n]? = some c' ∧ c'.task = c.task ∧ c'.isLost = true
  /-- A slot that is given back was counted, and is not after that. -/
  taken : ∀ move s', s.step move = some s' → ∀ n, move.givesBack n = true →
    ∃ c, s.calls[n]? = some c ∧ ∀ r i, s.limiters.inFlight r i =
      s'.limiters.inFlight r i + if c.countsFor s.limiters r i then 1 else 0
  once : ∀ n, returns trace n ≤ 1
  /-- A call that is over has given its slot back, unless its worker was lost. -/
  ended : ∀ n c, s.calls[n]? = some c → c.isOver = true →
    returns trace n = if c.isLost then 0 else 1
  /-- A call whose start failed, or whose watch has the outcome, comes to giving its slot back
  without waiting for another. -/
  left : ∀ n c, s.calls[n]? = some c → ∀ alive report, stepsLeft c alive report ≠ [] →
    (∃ s', run ((stepsLeft c alive report).map (.act n)) s = some s') ∧
      returns (trace ++ (stepsLeft c alive report).map (.act n)) n = 1
  bounded : ∀ r i max,
    (∀ c ∈ s.calls, c.countsFor s.limiters r i = true → c.task.settings.limit = .atMost max) →
    s.limiters.inFlight r i ≤ max
  /-- A call that is refused changes no table, starts nothing, and tells the bound that it met. -/
  refusing : ∀ (task : Task) table, s.limiters.get? task.limiter = some table →
    task.settings.limit.admits (s.limiters.inFlight task.limiter task.identity) = false →
    ∃ max, task.settings.limit = .atMost max ∧
      max ≤ s.limiters.inFlight task.limiter task.identity ∧
      s.step (.call task) = some ⟨s.limiters,
        s.calls ++ [⟨task, .refused (.limitExceeded task.identity.name max)⟩]⟩ ∧
      ∀ start : Except TaskError (Option Nat), task.call start s.limiters =
        (.error (.limitExceeded task.identity.name max), s.limiters)
  refused : ∀ c ∈ s.calls, ∀ e, c.stage = .refused e →
    (∃ max, c.task.settings.limit = .atMost max ∧ e = .limitExceeded c.task.identity.name max) ∧
      ∀ ls action, c.act ls action = none
  /-- A call that is admitted and has no others in between returns what `Task.call` returns, and
  leaves the limiters that it leaves. -/
  called : ∀ (task : Task) table, s.limiters.get? task.limiter = some table →
    task.settings.limit.admits (s.limiters.inFlight task.limiter task.identity) = true →
    ∀ result, (task.call result s.limiters).1 = result ∧
      run (callAlone s.calls.length task result) s =
        some ⟨(task.call result s.limiters).2, s.calls ++ [⟨task, match result with
          | .ok pid => .watched .asking (.new task.identity pid) []
          | .error e => .abandoned e⟩]⟩
  /-- A watch that has no others in between does what `Watch.run` does, and ends as that ends. -/
  watched : ∀ n task handle effects table,
    s.calls[n]? = some ⟨task, .watched .asking handle effects⟩ →
    s.limiters.get? task.limiter = some table →
    ∀ nothings answer, answer ≠ .ok none → ∀ panics alive report,
      let last := Watch.run panics task.settings { alive, report }
        (List.replicate nothings (.answers (.ok none)) ++ [.answers answer])
        ⟨handle, table, effects⟩
      run ((Watch.watchAlone nothings answer alive report).map (.act n)) s =
        some ⟨s.limiters.set task.limiter last.2.limiter,
          s.calls.set n ⟨task, .watched (.ended last.1) last.2.handle last.2.effects⟩⟩

/-- Whatever the order of the steps of calls that share limiters, slots are conserved. -/
theorem accounted_of_run {limiters : Limiters} (quiet : ∀ r i, limiters.inFlight r i = 0)
    (h : run trace ⟨limiters, []⟩ = some s) : Accounted trace s := by
  have hs := Conserved.of_run quiet h
  have honce : ∀ n, returns trace n ≤ 1 := fun n ↦ by
    rcases hc : s.calls[n]? with - | c
    · rw [hs.unborn n (List.getElem?_eq_none_iff.1 hc)]
      exact Nat.zero_le 1
    · rw [hs.returned n c hc]
      split <;> omega
  refine ⟨fun r i ↦ (hs.openCalls_eq r i).symm, fun n c hc hl more s' hrun ↦ ?_,
    fun move s' hstep n hb ↦ hs.inFlight_of_givesBack hstep hb, honce, fun n c hc hover ↦ ?_,
    fun n c hc alive report hne ↦ ⟨run_stepsLeft hc alive report, ?_⟩,
    fun r i max hmax ↦ inFlight_le_of_run quiet h hmax, fun task table hk hl ↦ ?_,
    fun c hc e he ↦ ⟨?_, fun ls action ↦ Flight.act_of_refused he ls action⟩,
    fun task table hk hl result ↦ run_callAlone hk hl result,
    fun n task handle effects table hc hk nothings answer ha panics alive report ↦ ?_⟩
  · -- nothing was given back before the worker was lost, since the slot is held
    obtain ⟨hret, hcall⟩ := lost_of_run hc hl hrun
    refine ⟨?_, hcall⟩
    rw [returns_append, hs.returned n c hc, hret, Flight.holdsSlot_of_isLost hl]
    simp
  · rw [hs.returned n c hc]
    exact Flight.returned_of_isOver (hs.sound c (List.mem_of_getElem? hc)) hover
  · rw [returns_append, hs.returned n c hc, returns_stepsLeft, holdsSlot_of_stepsLeft hne]
    simp [hne]
  · obtain ⟨max, hlimit, hle, hrefusal⟩ := Task.refusal_of_not_admits hl
    have hslot := Task.takeSlot_of_not_admits hk hl
    refine ⟨max, hlimit, hle, ?_, fun start ↦ ?_⟩
    · simp [step, hk, hslot, hrefusal]
    · simp [Task.call, hslot, hrefusal]
  · have hsound := hs.sound c hc
    simpa only [Flight.Sound, he] using hsound
  · -- a watch that asks has an incomplete handle
    have hsound := hs.sound _ (List.mem_of_getElem? hc)
    exact run_watchAlone hc hk hsound.1 nothings ha panics alive report

/-- A call that is started and watched to its end, one whose worker is lost, and one that is
refused. -/
theorem accounted_of_run_single :
    let task : Task := ⟨.thread, .keyed "job", { limit := .atMost 2 }, 0⟩
    let trace : List (Move Nat String) :=
      [.call task, .call task, .act 1 (.start (.ok none)), .call task, .act 0 (.start (.ok none)),
        .act 1 (.receive (.error .disconnected)), .act 0 (.receive (.ok (some (.success 7)))),
        .act 0 (.stop false none), .act 1 .reap, .act 0 .fire, .act 0 .release, .act 0 .reap]
    (∀ r i, Limiters.single.inFlight r i = 0) ∧
      ∃ s, run trace ⟨.single, []⟩ = some s ∧ Accounted trace s := by
  intro task trace
  have quiet : ∀ r i, Limiters.single.inFlight r i = 0 := fun r i ↦ by
    rcases r with - | r <;> rfl
  exact ⟨quiet, _, rfl, accounted_of_run quiet rfl⟩

end Traffic

end Offload
