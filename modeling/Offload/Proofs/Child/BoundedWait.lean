import Offload.Child.Machine
import Offload.Proofs.Child.Calls
import Mathlib.Algebra.GroupWithZero.Nat

/-!
# The bounded wait

A bounded wait goes in rounds: a look at the worker, a look at the clock, a sleep of a tick or of
what is left until the deadline. Its measure is the clock, and the clock is the system's. So the
rounds are listed as they happen (`Rounds`), each sleep with the time that had passed before it, and
what is said of a wait is read off the list. A sleep that is shorter than a tick ends at the
deadline, and the look behind it is the last; this is why there are no more looks than whole ticks,
one for the rest, and one at the end.

What a wait answers is as true as what its looks tell. A look takes time, and it tells of an instant
before it is over, `lag` before at most (`Truthful`). The wait misses no worker that has ended that
much before the deadline, and where looks tell of the instant at which they are over, it misses none
that has ended by the deadline.

The clock may jump. A sleep lasts at least as long as was asked for, but nothing bounds it from
above, and a look takes time too. So neither the number of rounds nor their length is fixed by the
time that is waited for; what is fixed is the rule by which the next sleep is chosen from the clock
(`Rounds.nanos_eq`). The bounds follow from it and from the law that sleeps are not too short
(`Rounds.bounds`).
-/

namespace Offload.Child

variable {σ : Type}

/-! ### Rounds

A wait is unfolded once, into the list of its rounds. The recursion of the program is on the clock,
and the induction from here on is on that list, which is finite and has all that a bound needs: when
a sleep began and how long it was to be.
-/

/-- A sleep of a bounded wait. -/
structure Nap where
  /-- The time since the wait began. -/
  elapsed : Nat
  /-- The time that is asked for. -/
  nanos : Nat

/-- The ticks that a time takes, the last of which may be cut short. -/
def ticksIn (nanos : Nat) : Nat :=
  (nanos + (tick - 1)) / tick

theorem ticksIn_add_tick (nanos : Nat) : ticksIn (nanos + tick) = ticksIn nanos + 1 := by
  rw [ticksIn, Nat.add_right_comm, Nat.add_div_right _ (show 0 < tick by decide), ticksIn]

/-- A sleep takes a tick off the time that is left, if there is any. -/
theorem ticksIn_sub_lt {left : Nat} (h : 0 < left) :
    ticksIn (left - min tick left) < ticksIn left := by
  rcases Nat.le_total tick left with hle | hle
  · obtain ⟨rest, rfl⟩ := Nat.exists_eq_add_of_le' hle
    rw [Nat.min_eq_left hle, Nat.add_sub_cancel, ticksIn_add_tick]
    exact Nat.lt_succ_self _
  · have hzero : ticksIn 0 = 0 := by decide
    have hround : tick ≤ left + (tick - 1) := by simp only [tick]; omega
    rw [Nat.min_eq_right hle, Nat.sub_self, hzero]
    exact Nat.div_pos hround (by decide)

/-- More time takes at least as many ticks. -/
theorem ticksIn_mono {nanos nanos' : Nat} (h : nanos ≤ nanos') : ticksIn nanos ≤ ticksIn nanos' :=
  Nat.div_le_div_right (Nat.add_le_add_right h _)

/-- The rounds of a bounded wait that began at `start`: the sleeps in them, the answer, and the
supervisor then. Each begins with one look, and all but the last end with a sleep. -/
inductive Rounds (k : Kernel σ) (start timeout : Nat) :
    Supervisor σ → List Nap → Except IoKind Bool → Supervisor σ → Prop
  | answered {w w' : Supervisor σ} {result : Except IoKind Bool} :
    w.collect k = (result, w') → result ≠ .ok false → Rounds k start timeout w [] result w'
  | elapsed {w w' : Supervisor σ} :
    w.collect k = (.ok false, w') → timeout ≤ k.now w'.system - start →
    Rounds k start timeout w [] (.ok false) w'
  | again {w w' w'' : Supervisor σ} {elapsed nanos : Nat} {naps : List Nap}
      {result : Except IoKind Bool} :
    w.collect k = (.ok false, w') → elapsed = k.now w'.system - start → elapsed < timeout →
    nanos = min tick (timeout - elapsed) →
    Rounds k start timeout { w' with system := k.sleep nanos w'.system } naps result w'' →
    Rounds k start timeout w (⟨elapsed, nanos⟩ :: naps) result w''

namespace Supervisor

variable {k : Kernel σ} {w w' : Supervisor σ}

/-- A look that finds the worker running was made before it was known to be gone. -/
theorem not_reaped_of_collect (h : w.collect k = (.ok false, w')) : w.reaped = false := by
  refine eq_false_of_ne_true fun hr ↦ ?_
  rw [collect_of_reaped hr] at h
  cases h

/-- A wait that ends at a deadline is a wait for the time until then, in rounds. -/
theorem exists_rounds (k : Kernel σ) (timeout : Nat) {start : Nat} (w : Supervisor σ)
    (hstart : start ≤ k.now w.system) :
    ∃ naps, Rounds k start timeout w naps (w.waitUntil k (start + timeout)).1
      (w.waitUntil k (start + timeout)).2 := by
  generalize hd : start + timeout = deadline
  fun_induction waitUntil k deadline w
  case case1 w kind w' h => exact ⟨[], .answered h fun hfalse ↦ by cases hfalse⟩
  case case2 w w' h => exact ⟨[], .answered h fun hfalse ↦ by cases hfalse⟩
  case case3 w w' h now hlt ih =>
    have hnow : k.now w.system ≤ now := now_le_of_collect h
    have hlasts := k.sleep_lasts (min tick (deadline - now)) w'.system
    obtain ⟨naps, hnaps⟩ := ih (Nat.le_trans (Nat.le_trans hstart hnow)
      (Nat.le_trans (Nat.le_add_right _ _) hlasts))
    have hleft : deadline - now = timeout - (now - start) := by omega
    rw [hleft] at hnaps ⊢
    exact ⟨_, .again h rfl (show now - start < timeout by omega) rfl hnaps⟩
  case case4 w w' h now hlt =>
    have hover : timeout ≤ k.now w'.system - start := by omega
    exact ⟨[], .elapsed h hover⟩

end Supervisor

namespace Rounds

variable {k : Kernel σ} {start timeout : Nat} {w w' : Supervisor σ} {naps : List Nap}
  {result : Except IoKind Bool}

/-- Whenever the time that is left is taken, it is positive. -/
theorem nanos_eq (h : Rounds k start timeout w naps result w') :
    ∀ nap ∈ naps, nap.elapsed < timeout ∧ nap.nanos = min tick (timeout - nap.elapsed) := by
  induction h with
  | answered | elapsed => exact nofun
  | again _ _ helapsed hnanos _ ih =>
    exact List.forall_mem_cons.2 ⟨⟨helapsed, hnanos⟩, ih⟩

/-- What is left of the time when a round begins bounds the sleeps from there on, their number and
their sum. -/
theorem bounds (h : Rounds k start timeout w naps result w') (hstart : start ≤ k.now w.system) :
    naps.length ≤ ticksIn (timeout - (k.now w.system - start)) ∧
      (naps.map Nap.nanos).sum ≤ timeout - (k.now w.system - start) := by
  induction h with
  | answered | elapsed => exact ⟨Nat.zero_le _, Nat.zero_le _⟩
  | @again w w' w'' elapsed nanos naps result hcollect helapsed hlt hnanos _ ih =>
    have hnow := Supervisor.now_le_of_collect hcollect
    have hlasts := k.sleep_lasts nanos w'.system
    have hstart' : start ≤ k.now (k.sleep nanos w'.system) := by omega
    obtain ⟨hlength, hsum⟩ :
        naps.length ≤ ticksIn (timeout - (k.now (k.sleep nanos w'.system) - start)) ∧
          (naps.map Nap.nanos).sum ≤ timeout - (k.now (k.sleep nanos w'.system) - start) :=
      ih hstart'
    -- a sleep that is shorter than it was asked for would leave more
    have hleft :
        timeout - (k.now (k.sleep nanos w'.system) - start) ≤ timeout - elapsed - nanos := by
      omega
    have hbefore : timeout - elapsed ≤ timeout - (k.now w.system - start) := by
      rw [helapsed]
      exact Nat.sub_le_sub_left (Nat.sub_le_sub_right hnow start) timeout
    have hpos : 0 < timeout - elapsed := Nat.sub_pos_of_lt hlt
    constructor
    · calc naps.length + 1 ≤ ticksIn (timeout - elapsed - nanos) + 1 :=
          Nat.succ_le_succ (Nat.le_trans hlength (ticksIn_mono hleft))
        _ ≤ ticksIn (timeout - elapsed) := hnanos ▸ ticksIn_sub_lt hpos
        _ ≤ ticksIn (timeout - (k.now w.system - start)) := ticksIn_mono hbefore
    · have hle : nanos ≤ timeout - elapsed := hnanos ▸ Nat.min_le_right ..
      rw [List.map_cons, List.sum_cons]
      calc nanos + (naps.map Nap.nanos).sum ≤ nanos + (timeout - elapsed - nanos) :=
          Nat.add_le_add_left (Nat.le_trans hsum hleft) nanos
        _ = timeout - elapsed := Nat.add_sub_of_le hle
        _ ≤ timeout - (k.now w.system - start) := hbefore

end Rounds

/-! ### The calls of the rounds

The rounds are about what the program does; the record is about what the system sees. They have the
same sleeps and as many looks as there are rounds, unless the worker was known to be gone from the
start.
-/

namespace Call

/-- Whether a call is a look at the worker. -/
def isLook : Call → Bool
  | .polled _ => true
  | _ => false

/-- The time that a call sleeps, if it is a sleep. -/
def sleep? : Call → Option Nat
  | .slept nanos => some nanos
  | _ => none

end Call

namespace Rounds

variable {k : Kernel σ} {start timeout : Nat} {w w' : Supervisor (Recorded σ)} {naps : List Nap}
  {result : Except IoKind Bool}

theorem forget (h : Rounds k.recording start timeout w naps result w') :
    Rounds k start timeout w.forget naps result w'.forget := by
  induction h with
  | answered hcollect hne => exact .answered (Supervisor.forget_of_collect k hcollect) hne
  | elapsed hcollect hle => exact .elapsed (Supervisor.forget_of_collect k hcollect) hle
  | again hcollect helapsed hlt hnanos _ ih =>
    exact .again (Supervisor.forget_of_collect k hcollect) helapsed hlt hnanos ih

/-- A look at a worker that is not known to be gone is one call of the system. -/
theorem exists_look_of_collect (h : w.collect k.recording = (result, w')) (hr : w.reaped = false) :
    ∃ answer, w'.calls = w.calls ++ [.polled answer] := by
  obtain ⟨added, hfollows, -, ⟨hreaped, -⟩ | ⟨-, answer, rfl, -⟩⟩ :=
    Supervisor.follows_of_collect k h
  · exact absurd (hr.symm.trans hreaped) Bool.false_ne_true
  · exact ⟨answer, hfollows.calls⟩

/-- Of a worker that is not known to be gone, each round asks the system, and the sleeps are those
of the rounds. -/
theorem calls_eq (h : Rounds k.recording start timeout w naps result w')
    (hr : w.reaped = false) :
    w'.calls.countP Call.isLook = w.calls.countP Call.isLook + (naps.length + 1) ∧
      w'.calls.filterMap Call.sleep? = w.calls.filterMap Call.sleep? ++ naps.map Nap.nanos := by
  induction h with
  | answered hcollect _ | elapsed hcollect _ =>
    obtain ⟨answer, hcalls⟩ := exists_look_of_collect hcollect hr
    rw [hcalls]
    simp [Call.isLook, Call.sleep?]
  | @again w w' w'' elapsed nanos naps result hcollect _ _ _ _ ih =>
    obtain ⟨-, -, htells, -⟩ := Supervisor.follows_of_collect k hcollect
    obtain ⟨answer, hcalls⟩ := exists_look_of_collect hcollect hr
    have hslept : Supervisor.calls { w' with system := k.recording.sleep nanos w'.system } =
        w.calls ++ [.polled answer] ++ [.slept nanos] := congrArg (· ++ [Call.slept nanos]) hcalls
    obtain ⟨hcount, hsleeps⟩ := ih htells
    rw [hslept] at hcount hsleeps
    rw [hcount, hsleeps]
    simp only [List.countP_append, List.filterMap_append, List.append_assoc, List.map_cons]
    have hlook : [Call.polled answer].countP Call.isLook = 1 := rfl
    have hsleep : [Call.slept nanos].countP Call.isLook = 0 := rfl
    refine ⟨?_, rfl⟩
    rw [hlook, hsleep, List.length_cons]
    omega

end Rounds

/-! ### What the answer is worth

Nothing is assumed of the system but that a look does not lie about the recent past. `reachable` is
there because a system may have states that it never comes to, and of these nothing need hold.
-/

/-- Whether a worker that ends at a time, if it ends, has ended by another. -/
def hasEnded (exit? : Option Nat) (time : Nat) : Bool :=
  exit?.any fun exit ↦ decide (exit ≤ time)

/-- On the states that the system can come to, a look at the worker tells whether it has ended, at
an instant that is no more than `lag` before the look is over. -/
structure Truthful (k : Kernel σ) (exit? : Option Nat) (lag : Nat) (reachable : σ → Prop) :
    Prop where
  sleep : ∀ nanos s, reachable s → reachable (k.sleep nanos s)
  poll : ∀ s, reachable s → reachable (k.poll s).2
  answers : ∀ s, reachable s → ∃ time ≤ k.now (k.poll s).2, k.now (k.poll s).2 ≤ time + lag ∧
    (k.poll s).1.result = .ok (hasEnded exit? time)

section Truthful

variable {k : Kernel σ} {exit? : Option Nat} {lag : Nat} {reachable : σ → Prop}
  {w w' : Supervisor σ} {result : Except IoKind Bool}

/-- A worker has ended by a time if it ends at that time or before. -/
theorem hasEnded_iff {time : Nat} :
    hasEnded exit? time = true ↔ ∃ exit, exit? = some exit ∧ exit ≤ time := by
  cases exit? <;> simp [hasEnded]

/-- One look, of a worker that is not known to be gone. -/
theorem Truthful.collect (ht : Truthful k exit? lag reachable) (hs : reachable w.system)
    (hr : w.reaped = false) (h : w.collect k = (result, w')) :
    reachable w'.system ∧ ∃ time ≤ k.now w'.system, k.now w'.system ≤ time + lag ∧
      result = .ok (hasEnded exit? time) ∧ w'.reaped = hasEnded exit? time := by
  rw [Supervisor.collect_of_poll hr rfl] at h
  obtain ⟨rfl, rfl⟩ := Prod.mk.inj h
  obtain ⟨time, hle, hlag, hanswer⟩ := ht.answers w.system hs
  have hsystem : (w.heard (k.poll w.system).2 (k.poll w.system).1.ending?).system =
      (k.poll w.system).2 := by
    rcases (k.poll w.system).1.ending? with - | status <;> rfl
  have hreaped : (w.heard (k.poll w.system).2 (k.poll w.system).1.ending?).reaped =
      hasEnded exit? time := by
    -- an answer tells of an end just if its result is that the worker is gone
    rcases hpoll : (k.poll w.system).1 with - | status | - | - | kind <;> rw [hpoll] at hanswer
    · exact hr.trans (Except.ok.inj hanswer)
    · exact Except.ok.inj hanswer
    · exact hr.trans (Except.ok.inj hanswer)
    · exact Except.ok.inj hanswer
    · cases hanswer
  rw [hsystem]
  exact ⟨ht.poll _ hs, time, hle, hlag, hanswer, hreaped⟩

/-- What a wait in rounds answers, and what that tells of the end of the worker. -/
theorem Truthful.rounds (ht : Truthful k exit? lag reachable) {start timeout : Nat}
    {naps : List Nap} (h : Rounds k start timeout w naps result w') (hs : reachable w.system)
    (hstart : start ≤ k.now w.system) :
    result = .ok true ∧ (w.reaped = true ∨ hasEnded exit? (k.now w'.system) = true) ∨
      result = .ok false ∧ ∀ exit, exit? = some exit → start + timeout < exit + lag := by
  induction h with
  | @answered w w' result hcollect hne =>
    rcases hr : w.reaped with - | -
    · obtain ⟨-, time, hle, -, rfl, -⟩ := ht.collect hs hr hcollect
      rcases hended : hasEnded exit? time with - | -
      · exact absurd (congrArg Except.ok hended) hne
      · obtain ⟨exit, hexit, hbefore⟩ := hasEnded_iff.1 hended
        exact .inl ⟨rfl, .inr (hasEnded_iff.2 ⟨exit, hexit, Nat.le_trans hbefore hle⟩)⟩
    · rw [Supervisor.collect_of_reaped hr] at hcollect
      exact .inl ⟨(Prod.mk.inj hcollect).1.symm, .inl rfl⟩
  | @elapsed w w' hcollect hover =>
    have hr := Supervisor.not_reaped_of_collect hcollect
    obtain ⟨-, time, -, hlag, hended, -⟩ := ht.collect hs hr hcollect
    refine .inr ⟨rfl, fun exit hexit ↦ ?_⟩
    have hnow := Supervisor.now_le_of_collect hcollect
    -- the look has found it running, so it ends behind the instant that the look tells of
    have hlater : time < exit := by
      refine Nat.lt_of_not_le fun hle ↦ ?_
      rw [hasEnded_iff.2 ⟨exit, hexit, hle⟩] at hended
      cases hended
    omega
  | @again w w' w'' elapsed nanos naps result hcollect _ _ _ _ ih =>
    have hr := Supervisor.not_reaped_of_collect hcollect
    obtain ⟨hs', time, -, -, hended, hreaped⟩ := ht.collect hs hr hcollect
    have hnow := Supervisor.now_le_of_collect hcollect
    have hlasts := k.sleep_lasts nanos w'.system
    have hr' : w'.reaped = false := hreaped.trans (Except.ok.inj hended).symm
    have hstart' : start ≤ k.now (k.sleep nanos w'.system) := by omega
    rcases ih (ht.sleep nanos _ hs') hstart' with ⟨hok, hgone⟩ | hfalse
    · refine .inl ⟨hok, .inr (hgone.resolve_left ?_)⟩
      exact fun h ↦ absurd (hr'.symm.trans h) Bool.false_ne_true
    · exact .inr hfalse

end Truthful

namespace Machine

/-- A child that ends at a time by itself, or never, as it is before and after. -/
def EndsAt (exit? : Option Nat) (m : Machine) : Prop :=
  match m.phase with
  | .hanging => exit? = none
  | .lingering until? _ => until? = exit? ∧ hasEnded exit? m.clock = false
  | .ended _ | .gone => hasEnded exit? m.clock = true
  | .waiting _ | .sending .. => False

/-- Time passes for the child as well, and by its end the machine has ended it. -/
theorem endsAt_sleep {exit? : Option Nat} {m : Machine} (h : EndsAt exit? m) (nanos : Nat) :
    EndsAt exit? (m.sleep nanos) := by
  have hlater : hasEnded exit? m.clock = true → hasEnded exit? (m.clock + nanos) = true := by
    simp only [hasEnded_iff]
    exact fun ⟨exit, hexit, hle⟩ ↦ ⟨exit, hexit, Nat.le_add_right_of_le hle⟩
  obtain ⟨clock, phase, ignoresStop, pipe⟩ := m
  cases phase with
  | waiting | sending => exact h.elim
  | hanging => exact h
  | ended status => exact hlater h
  | gone => exact hlater h
  | lingering until? code =>
    obtain ⟨rfl, hbefore⟩ := h
    rcases until? with - | time
    · exact ⟨rfl, rfl⟩
    · -- the child ends with the sleep that passes its time
      rcases Nat.lt_or_ge (clock + nanos) time with hlt | hge
      · have hsleep : sleep nanos ⟨clock, .lingering (some time) code, ignoresStop, pipe⟩ =
            ⟨clock + nanos, .lingering (some time) code, ignoresStop, pipe⟩ :=
          if_neg (Nat.not_le_of_lt hlt)
        rw [hsleep]
        exact ⟨rfl, decide_eq_false (Nat.not_le_of_lt hlt)⟩
      · have hsleep : sleep nanos ⟨clock, .lingering (some time) code, ignoresStop, pipe⟩ =
            finish ⟨clock + nanos, .lingering (some time) code, ignoresStop, pipe⟩ (.code code) :=
          if_pos hge
        rw [hsleep]
        exact decide_eq_true hge

/-- A look at the machine tells whether the child has ended by then. -/
theorem endsAt_poll {exit? : Option Nat} {m : Machine} (h : EndsAt exit? m) :
    EndsAt exit? m.poll.2 ∧ m.poll.1.result = .ok (hasEnded exit? m.clock) := by
  obtain ⟨clock, phase, ignoresStop, pipe⟩ := m
  cases phase with
  | waiting | sending => exact h.elim
  | hanging =>
    obtain rfl : exit? = none := h
    exact ⟨rfl, rfl⟩
  | lingering until? code => exact ⟨h, congrArg Except.ok h.2.symm⟩
  | ended status => exact ⟨h, congrArg Except.ok (Eq.symm h)⟩
  | gone => exact ⟨h, congrArg Except.ok (Eq.symm h)⟩

/-- A look at the child of a machine takes no time, and tells of the instant at which it is made. -/
theorem truthful (exit? : Option Nat) : Truthful kernel exit? 0 (EndsAt exit?) where
  sleep nanos _ h := endsAt_sleep h nanos
  poll _ h := (endsAt_poll h).1
  answers m h := ⟨m.clock, Nat.le_of_eq m.clock_poll.symm, Nat.le_of_eq m.clock_poll,
    (endsAt_poll h).2⟩

end Machine

namespace Supervisor

/-- A wait for a time ends after no more looks than the time has ticks, rounded up, and one more at
the end; there is one at least. Each sleep is asked for while there is time left, and is a tick or
that time; all of them together are no longer than the time. If looks tell the truth, the wait
answers, and that the worker is gone if it has ended by the deadline, less the time between what a
look tells of and its end; otherwise the worker had not ended by then. -/
theorem waitFor_course (k : Kernel σ) (timeout : Duration) (w : Supervisor σ) :
    ∃ naps, Rounds k (k.now w.system) timeout.nanos w naps (w.waitFor k timeout).1
        (w.waitFor k timeout).2 ∧
      naps.length + 1 ≤ ticksIn timeout.nanos + 1 ∧
      (∀ nap ∈ naps, nap.elapsed < timeout.nanos ∧
        nap.nanos = min tick (timeout.nanos - nap.elapsed)) ∧
      (naps.map Nap.nanos).sum ≤ timeout.nanos ∧
      (w.reaped = false →
        (w.recorded.waitFor k.recording timeout).2.calls.countP Call.isLook = naps.length + 1 ∧
        (w.recorded.waitFor k.recording timeout).2.calls.filterMap Call.sleep? =
          naps.map Nap.nanos) ∧
      ∀ (exit? : Option Nat) (lag : Nat) (reachable : σ → Prop),
        Truthful k exit? lag reachable → reachable w.system →
        (∃ gone, (w.waitFor k timeout).1 = .ok gone) ∧
        (∀ exit, exit? = some exit → exit + lag ≤ k.now w.system + timeout.nanos →
          (w.waitFor k timeout).1 = .ok true) ∧
        ((w.waitFor k timeout).1 = .ok false →
          ∀ exit, exit? = some exit → k.now w.system + timeout.nanos < exit + lag) ∧
        ((w.waitFor k timeout).1 = .ok true → w.reaped = true ∨
          hasEnded exit? (k.now (w.waitFor k timeout).2.system) = true) := by
  obtain ⟨naps, hrecorded⟩ := exists_rounds k.recording timeout.nanos w.recorded (Nat.le_refl _)
  -- the rounds are found with a record, and are the same without it
  have hrounds : Rounds k (k.now w.system) timeout.nanos w naps (w.waitFor k timeout).1
      (w.waitFor k timeout).2 := by
    have hforget := forget_waitFor k timeout w.recorded
    have hw : w.recorded.forget = w := rfl
    rw [hw] at hforget
    rw [hforget]
    exact hrecorded.forget
  obtain ⟨hlength, hsum⟩ := hrounds.bounds (Nat.le_refl _)
  rw [Nat.sub_self, Nat.sub_zero] at hlength hsum
  refine ⟨naps, hrounds, Nat.succ_le_succ hlength, hrounds.nanos_eq, hsum, fun hr ↦ ?_,
    fun exit? lag reachable ht hs ↦ ?_⟩
  · obtain ⟨hcount, hsleeps⟩ := hrecorded.calls_eq hr
    exact ⟨hcount.trans (Nat.zero_add _), hsleeps⟩
  · rcases ht.rounds hrounds hs (Nat.le_refl _) with ⟨hok, hgone⟩ | ⟨hok, hlater⟩
    · exact ⟨⟨true, hok⟩, fun _ _ _ ↦ hok, fun hfalse ↦ (by cases hok.symm.trans hfalse),
        fun _ ↦ hgone⟩
    · exact ⟨⟨false, hok⟩, fun exit hexit hle ↦ absurd hle (Nat.not_le_of_lt (hlater exit hexit)),
        fun _ ↦ hlater, fun htrue ↦ by cases hok.symm.trans htrue⟩

/-- A child that ends at the very instant at which the wait for it does, half a tick after the last
whole one. -/
theorem waitFor_course_last_instant :
    let m : Machine := { phase := .lingering (some 25000000) 0 }
    let w : Supervisor Machine := { pid := 1, name := "late", system := m }
    Truthful Machine.kernel (some 25000000) 0 (Machine.EndsAt (some 25000000)) ∧
      Machine.EndsAt (some 25000000) m ∧
      (w.waitFor Machine.kernel (.ofMillis 25)).1 = .ok true := by
  intro m w
  have htruthful := Machine.truthful (some 25000000)
  have hends : Machine.EndsAt (some 25000000) m := ⟨rfl, by decide⟩
  obtain ⟨naps, -, -, -, -, -, hworth⟩ := waitFor_course Machine.kernel (.ofMillis 25) w
  exact ⟨htruthful, hends, (hworth _ 0 _ htruthful hends).2.1 _ rfl (by decide)⟩

end Supervisor

end Offload.Child
