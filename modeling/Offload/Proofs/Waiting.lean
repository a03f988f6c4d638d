import Offload.Duration
import Offload.Proofs.Cell
import Mathlib.Data.List.Induction
import Mathlib.Logic.Function.Basic

/-!
# Waiting for an outcome

Threads wait on a handle, for as long as it takes or up to a deadline, while other threads publish.
A wait looks at the handle under its lock. Where it finds no outcome, it gives the lock up and joins
the wait set in one step, and sleeps. A sleeper is woken by a publisher, or for no reason, and looks
again; or its time is up, and then it leaves with what its last look finds. A publisher installs the
outcome under the lock, gives the lock up, and wakes the sleepers only after that, so in between a
thread may sleep although the outcome is known.

A run is a list of such moves in any order. A wait looks with `Handle.wait?`, and with
`Handle.value?` once its time is up; publishing is `Handle.publish`. What each move does is listed
once, in `Made`.

No wake-up is lost (`Kept.awake`), for two reasons. A thread falls asleep only in a look that finds
no outcome, so nobody does once there is one. And the thread that installed the outcome has the
sleepers still to wake as long as it did not (`Lawful.duty`): a second publish finds the outcome of
the first one and neither replaces it nor wakes anyone.

The lock is held across two moves in one case only, while an outcome is installed. All other
critical sections are one move each. That is as much as is needed for the interleavings that matter:
a look can come before a publication, between it and the wake-up, or after that, and each of the
three has its clause in `Kept`.

A deadline is a time of the clock, and a clock has a last time that it can show. A wait whose
deadline would lie behind it waits for as long as it takes. This is a choice that the statements
keep visible, as a parameter of every move.
-/

namespace Offload

/-- How long a wait goes on. -/
inductive Waiting.Patience
  | endless
  /-- Up to a time of the clock. -/
  | upTo (deadline : Nat)

/-- The patience of a wait that begins at the time `now`. A deadline behind the last time that the
clock can show is none. -/
def Waiting.Patience.ofTimeout (lastTime now : Nat) : Option Duration → Waiting.Patience
  | none => endless
  | some timeout =>
    if now + timeout.nanos ≤ lastTime then upTo (now + timeout.nanos) else endless

/-- What a thread is at. -/
inductive Waiting.Stage (α : Type) where
  | free
  /-- It waits, and looks at the handle when it gets the lock. Its time may be up. -/
  | looks (patience : Waiting.Patience) (timeIsUp : Bool)
  /-- It is in the wait set. -/
  | sleeps (patience : Waiting.Patience)
  /-- It has installed the outcome, and holds the lock. -/
  | publishes
  /-- It has given the lock up, and wakes the sleepers next. -/
  | wakes
  /-- Its wait is over. -/
  | returned (patience : Waiting.Patience) (value : Option α)

/-- A handle that threads wait on. -/
structure Waiting (α κ : Type) where
  handle : Handle α κ
  clock : Nat := 0
  /-- The thread that holds the lock between two of its moves. -/
  lock : Option Nat := none
  stage : Nat → Waiting.Stage α := fun _ ↦ .free

namespace Waiting

variable {α κ : Type}

namespace Stage

/-- Whether a thread can begin something new. -/
def isIdle : Stage α → Bool
  | free | returned .. => true
  | _ => false

/-- Whether a thread has installed the outcome and has still to wake the sleepers. -/
def isOnDuty : Stage α → Bool
  | publishes | wakes => true
  | _ => false

/-- A thread out of the wait set. -/
def woken : Stage α → Stage α
  | sleeps patience => looks patience false
  | stage => stage

end Stage

/-- A move of a thread, or of the clock. -/
inductive Move (α κ : Type) where
  /-- A thread begins to wait, for as long as it takes or for a timeout. -/
  | wait (thread : Nat) (timeout : Option Duration)
  /-- A thread that waits looks at the handle. -/
  | look (thread : Nat)
  /-- A sleeper is woken for no reason. -/
  | stir (thread : Nat)
  /-- The time of a sleeper is up. -/
  | expire (thread : Nat)
  /-- A thread publishes an outcome under the lock. The first one does not give the lock up yet. -/
  | publish (thread : Nat) (outcome : Outcome α)
  | unlock (thread : Nat)
  /-- The publisher wakes all sleepers. -/
  | wakeAll (thread : Nat)
  /-- Another operation on the handle, by whatever thread. -/
  | operate (op : Handle.Operation α κ)
  /-- Time passes. -/
  | elapse (nanos : Nat)

/-- The thread and the outcome of a publish. -/
def Move.publish? : Move α κ → Option (Nat × Outcome α)
  | publish thread outcome => some (thread, outcome)
  | _ => none

/-- The publish that comes first, which is the one that installs its outcome. -/
def firstPublish? (moves : List (Move α κ)) : Option (Nat × Outcome α) :=
  moves.findSome? Move.publish?

/-- Replace what a thread is at. -/
def setStage (s : Waiting α κ) (thread : Nat) (stage : Stage α) : Waiting α κ :=
  { s with stage := Function.update s.stage thread stage }

theorem setStage_stage (s : Waiting α κ) (thread : Nat) (stage : Stage α) (thread' : Nat) :
    (s.setStage thread stage).stage thread' =
      if thread' = thread then stage else s.stage thread' :=
  Function.update_apply ..

/-- A thread that is at another stage than the one that was set was there before. -/
theorem stage_of_setStage {s : Waiting α κ} {thread thread' : Nat} {stage stage' : Stage α}
    (h : (s.setStage thread stage).stage thread' = stage') (hne : stage ≠ stage') :
    s.stage thread' = stage' := by
  rw [setStage_stage] at h
  split at h
  · exact absurd h hne
  · exact h

/-- What a look at the handle makes of a wait. -/
def afterLook (h : Handle α κ) (patience : Patience) (timeIsUp : Bool) : Stage α :=
  if timeIsUp then .returned patience h.value?
  else match h.wait? with
    | some value => .returned patience value
    | none => .sleeps patience

/-- One move. `lastTime` is the last time that the clock can show. -/
def step (lastTime : Nat) (s : Waiting α κ) : Move α κ → Option (Waiting α κ)
  | .wait thread timeout =>
    if (s.stage thread).isIdle then
      some (s.setStage thread (.looks (.ofTimeout lastTime s.clock timeout) false))
    else none
  | .look thread =>
    match s.lock, s.stage thread with
    | none, .looks patience timeIsUp =>
      some (s.setStage thread (afterLook s.handle patience timeIsUp))
    | _, _ => none
  | .stir thread =>
    match s.stage thread with
    | .sleeps patience => some (s.setStage thread (.looks patience false))
    | _ => none
  | .expire thread =>
    match s.stage thread with
    | .sleeps (.upTo deadline) =>
      if deadline ≤ s.clock then some (s.setStage thread (.looks (.upTo deadline) true)) else none
    | _ => none
  | .publish thread outcome =>
    if s.lock = none ∧ (s.stage thread).isIdle = true then
      match s.handle.publish outcome with
      | (none, _) => some s
      | (some _, handle) => some ({ s with handle, lock := some thread }.setStage thread .publishes)
    else none
  | .unlock thread =>
    match s.stage thread with
    | .publishes => some ({ s with lock := none }.setStage thread .wakes)
    | _ => none
  | .wakeAll thread =>
    match s.stage thread with
    | .wakes => some ({ s with stage := fun t ↦ (s.stage t).woken }.setStage thread .free)
    | _ => none
  | .operate op =>
    if s.lock = none ∧ op.outcome? = none then some { s with handle := (s.handle.apply op).2 }
    else none
  | .elapse nanos => some { s with clock := s.clock + nanos }

/-- The moves of a list in turn. -/
def run (lastTime : Nat) (moves : List (Move α κ)) (s : Waiting α κ) : Option (Waiting α κ) :=
  moves.foldlM (step lastTime) s

/-- A handle that nobody has used. -/
def fresh (identity : Identity) (pid : Option Nat) : Waiting α κ :=
  { handle := .new identity pid }

variable {lastTime : Nat} {moves : List (Move α κ)} {move : Move α κ} {s t : Waiting α κ}
  {thread : Nat}

/-- A longer run ends with a move. -/
theorem run_concat_eq_some_iff {s₀ : Waiting α κ} :
    run lastTime (moves ++ [move]) s₀ = some t ↔
      ∃ s, run lastTime moves s₀ = some s ∧ s.step lastTime move = some t := by
  simp [run, List.foldlM_append, Option.bind_eq_some_iff]

theorem firstPublish?_concat (moves : List (Move α κ)) (move : Move α κ) :
    firstPublish? (moves ++ [move]) = (firstPublish? moves).or move.publish? := by
  rw [firstPublish?, List.findSome?_append, ← firstPublish?]
  cases h : move.publish? <;> simp [h]

/-- A move that publishes nothing changes nothing about it. -/
theorem firstPublish?_of_publish?_eq_none (h : move.publish? = none) :
    firstPublish? (moves ++ [move]) = firstPublish? moves := by
  rw [firstPublish?_concat, h, Option.or_none]

/-- What a move makes of a state, in the states in which it can be made. -/
inductive Made (lastTime : Nat) (s : Waiting α κ) : Move α κ → Waiting α κ → Prop
  | wait {thread : Nat} (timeout : Option Duration) (hidle : (s.stage thread).isIdle = true) :
    Made lastTime s (.wait thread timeout)
      (s.setStage thread (.looks (.ofTimeout lastTime s.clock timeout) false))
  | look {thread : Nat} {patience : Patience} {timeIsUp : Bool} (hlock : s.lock = none)
    (hstage : s.stage thread = .looks patience timeIsUp) :
    Made lastTime s (.look thread) (s.setStage thread (afterLook s.handle patience timeIsUp))
  | stir {thread : Nat} {patience : Patience} (hstage : s.stage thread = .sleeps patience) :
    Made lastTime s (.stir thread) (s.setStage thread (.looks patience false))
  | expire {thread deadline : Nat} (hstage : s.stage thread = .sleeps (.upTo deadline))
    (hdeadline : deadline ≤ s.clock) :
    Made lastTime s (.expire thread) (s.setStage thread (.looks (.upTo deadline) true))
  | publish {thread : Nat} (outcome : Outcome α) (hlock : s.lock = none)
    (hidle : (s.stage thread).isIdle = true) (hsettled : s.handle.settled = none) :
    Made lastTime s (.publish thread outcome)
      ({ s with handle := (s.handle.publish outcome).2, lock := some thread }.setStage thread
        .publishes)
  | publishLate {thread : Nat} {first : Outcome α} (outcome : Outcome α) (hlock : s.lock = none)
    (hidle : (s.stage thread).isIdle = true) (hsettled : s.handle.settled = some first) :
    Made lastTime s (.publish thread outcome) s
  | unlock {thread : Nat} (hstage : s.stage thread = .publishes) :
    Made lastTime s (.unlock thread) ({ s with lock := none }.setStage thread .wakes)
  | wakeAll {thread : Nat} (hstage : s.stage thread = .wakes) :
    Made lastTime s (.wakeAll thread)
      ({ s with stage := fun t ↦ (s.stage t).woken }.setStage thread .free)
  | operate {op : Handle.Operation α κ} (hlock : s.lock = none) (hop : op.outcome? = none) :
    Made lastTime s (.operate op) { s with handle := (s.handle.apply op).2 }
  | elapse (nanos : Nat) : Made lastTime s (.elapse nanos) { s with clock := s.clock + nanos }

/-- What a step does is one of the listed moves, with what it requires. -/
theorem made_of_step (h : s.step lastTime move = some t) : Made lastTime s move t := by
  cases move <;> simp only [step] at h
  case wait thread timeout =>
    split at h
    · next hidle => exact Option.some.inj h ▸ .wait timeout hidle
    · cases h
  case look thread =>
    split at h
    · next hlock hstage => exact Option.some.inj h ▸ .look hlock hstage
    · cases h
  case stir thread =>
    split at h
    · next hstage => exact Option.some.inj h ▸ .stir hstage
    · cases h
  case expire thread =>
    split at h
    · next hstage =>
      split at h
      · next hdeadline => exact Option.some.inj h ▸ .expire hstage hdeadline
      · cases h
    · cases h
  case publish thread outcome =>
    split at h
    · next hfree =>
      rcases hsettled : s.handle.settled with - | first
      · have hmade : Made lastTime s (.publish thread outcome) _ :=
          .publish outcome hfree.1 hfree.2 hsettled
        rw [Handle.publish_of_incomplete hsettled] at h hmade
        exact Option.some.inj h ▸ hmade
      · rw [Handle.publish_of_settled hsettled] at h
        exact Option.some.inj h ▸ .publishLate outcome hfree.1 hfree.2 hsettled
    · cases h
  case unlock thread =>
    split at h
    · next hstage => exact Option.some.inj h ▸ .unlock hstage
    · cases h
  case wakeAll thread =>
    split at h
    · next hstage => exact Option.some.inj h ▸ .wakeAll hstage
    · cases h
  case operate op =>
    split at h
    · next hop => exact Option.some.inj h ▸ .operate hop.1 hop.2
    · cases h
  case elapse nanos => exact Option.some.inj h ▸ .elapse nanos

/-- A look ends the wait, or the thread falls asleep for there is no outcome. -/
theorem afterLook_cases (h : Handle α κ) (patience : Patience) (timeIsUp : Bool) :
    (∃ value, afterLook h patience timeIsUp = .returned patience value) ∨
      afterLook h patience timeIsUp = .sleeps patience ∧ h.settled = none := by
  rw [afterLook]
  split
  · exact .inl ⟨_, rfl⟩
  · split
    · exact .inl ⟨_, rfl⟩
    · next hnone => exact .inr ⟨rfl, Option.map_eq_none_iff.1 hnone⟩

namespace Stage

variable {stage : Stage α} {patience : Patience}

theorem isOnDuty_of_isIdle (h : stage.isIdle = true) : stage.isOnDuty = false := by
  cases stage <;> first | rfl | cases h

/-- A thread that has nobody to wake does not hold the lock of a publication. -/
theorem ne_publishes_of_not_isOnDuty (h : stage.isOnDuty = false) : stage ≠ .publishes := by
  rintro rfl
  cases h

/-- Being woken does not change whom a thread has to wake. -/
theorem isOnDuty_woken (stage : Stage α) : stage.woken.isOnDuty = stage.isOnDuty := by
  cases stage <;> rfl

/-- Being woken does not bring a thread into a publication, or out of it. -/
theorem woken_eq_publishes_iff : stage.woken = .publishes ↔ stage = .publishes := by
  cases stage <;> simp [woken]

theorem woken_ne_sleeps : stage.woken ≠ .sleeps patience := by
  cases stage <;> simp [woken]

/-- A thread that has returned is not concerned. -/
theorem woken_of_returned {value : Option α} (h : stage.woken = .returned patience value) :
    stage.woken = stage := by
  cases stage <;> simp_all [woken]

theorem looks_of_woken (h : stage.woken = .looks patience true) : stage = .looks patience true := by
  cases stage <;> simp_all [woken]

end Stage

/-! ### The invariant

`Lawful` speaks of the moves that were made and not of threads that might still come. That is what
makes it short: who has the sleepers to wake is the thread of the first publish, as long as the list
of moves does not have its wake-up, and the stages of all other threads are free.
-/

/-- How a state stands to the moves that led to it. -/
structure Lawful (moves : List (Move α κ)) (s : Waiting α κ) : Prop where
  settled : s.handle.settled = (firstPublish? moves).map Prod.snd
  /-- Who installed the outcome has the sleepers to wake, until they were woken. -/
  duty : ∀ p, (s.stage p).isOnDuty = true ↔
    (∃ outcome, firstPublish? moves = some (p, outcome)) ∧ Move.wakeAll p ∉ moves
  lock : ∀ p, s.lock = some p ↔ s.stage p = .publishes
  awake : ∀ p, Move.wakeAll p ∈ moves → (∃ outcome, firstPublish? moves = some (p, outcome)) ∧
    ∀ thread patience, s.stage thread ≠ .sleeps patience
  late : ∀ thread patience, s.stage thread = .looks patience true →
    ∃ deadline, patience = .upTo deadline ∧ deadline ≤ s.clock

namespace Lawful

theorem fresh (identity : Identity) (pid : Option Nat) :
    Lawful [] (fresh identity pid : Waiting α κ) := by
  constructor <;> simp [Waiting.fresh, Handle.new, firstPublish?, Stage.isOnDuty]

/-- A move that installs no outcome and wakes nobody. Nobody falls asleep in it who knows the
outcome. -/
theorem congr (hs : Lawful moves s)
    (hfirst : firstPublish? (moves ++ [move]) = firstPublish? moves)
    (hwakeAll : ∀ p, move ≠ .wakeAll p) (hsettled : t.handle.settled = s.handle.settled)
    (hduty : ∀ p, (t.stage p).isOnDuty = (s.stage p).isOnDuty)
    (hlock : ∀ p, t.lock = some p ↔ t.stage p = .publishes)
    (hsleeps : ∀ thread patience, t.stage thread = .sleeps patience →
      s.stage thread = .sleeps patience ∨ s.handle.settled = none)
    (hlate : ∀ thread patience, t.stage thread = .looks patience true →
      ∃ deadline, patience = .upTo deadline ∧ deadline ≤ t.clock) :
    Lawful (moves ++ [move]) t := by
  have hmem (p : Nat) : Move.wakeAll p ∈ moves ++ [move] ↔ Move.wakeAll p ∈ moves := by
    simp [(hwakeAll p).symm]
  refine ⟨hfirst ▸ hsettled ▸ hs.settled, fun p ↦ ?_, hlock, fun p hp ↦ ?_, hlate⟩
  · rw [hfirst, hmem, hduty, hs.duty]
  · obtain ⟨⟨outcome, hpublished⟩, hawake⟩ := hs.awake p ((hmem p).1 hp)
    refine ⟨⟨outcome, hfirst ▸ hpublished⟩, fun thread patience hsleeping ↦ ?_⟩
    rcases hsleeps thread patience hsleeping with hslept | hnone
    · exact hawake thread patience hslept
    · simp [hs.settled, hpublished] at hnone

/-- A thread that has nothing to do with publishing goes on. It falls asleep only without an
outcome, and its time is up only at its deadline. -/
theorem setStage (hs : Lawful moves s) (hpublish : move.publish? = none)
    (hwakeAll : ∀ p, move ≠ .wakeAll p) {stage : Stage α}
    (hold : (s.stage thread).isOnDuty = false) (hnew : stage.isOnDuty = false)
    (hsleeps : ∀ patience, stage = .sleeps patience → s.handle.settled = none)
    (hlate : ∀ patience, stage = .looks patience true →
      ∃ deadline, patience = .upTo deadline ∧ deadline ≤ s.clock) :
    Lawful (moves ++ [move]) (s.setStage thread stage) := by
  refine hs.congr (firstPublish?_of_publish?_eq_none hpublish) hwakeAll rfl (fun p ↦ ?_)
    (fun p ↦ ?_) (fun thread' patience h ↦ ?_) fun thread' patience h ↦ ?_
  · rw [setStage_stage]
    split
    · next h => rw [h, hold, hnew]
    · rfl
  · rw [setStage_stage]
    refine (hs.lock p).trans ?_
    split
    · next h =>
      -- neither before nor after does the thread hold the lock
      subst h
      exact iff_of_false (Stage.ne_publishes_of_not_isOnDuty hold)
        (Stage.ne_publishes_of_not_isOnDuty hnew)
    · exact Iff.rfl
  · rw [setStage_stage] at h
    split at h
    · exact .inr (hsleeps patience h)
    · exact .inl h
  · rw [setStage_stage] at h
    split at h
    · exact hlate patience h
    · exact hs.late thread' patience h

theorem wait (hs : Lawful moves s) (timeout : Option Duration)
    (hidle : (s.stage thread).isIdle = true) :
    Lawful (moves ++ [.wait thread timeout])
      (s.setStage thread (.looks (.ofTimeout lastTime s.clock timeout) false)) :=
  hs.setStage rfl (by nofun) (Stage.isOnDuty_of_isIdle hidle) rfl (fun _ ↦ nofun) fun _ ↦ nofun

theorem look (hs : Lawful moves s) {patience : Patience} {timeIsUp : Bool}
    (hstage : s.stage thread = .looks patience timeIsUp) :
    Lawful (moves ++ [.look thread])
      (s.setStage thread (afterLook s.handle patience timeIsUp)) := by
  obtain ⟨value, hafter⟩ | ⟨hafter, hnone⟩ := afterLook_cases s.handle patience timeIsUp
  · rw [hafter]
    exact hs.setStage rfl (by nofun) (by rw [hstage]; rfl) rfl (fun _ ↦ nofun) fun _ ↦ nofun
  · rw [hafter]
    exact hs.setStage rfl (by nofun) (by rw [hstage]; rfl) rfl (fun _ _ ↦ hnone) fun _ ↦ nofun

theorem stir (hs : Lawful moves s) {patience : Patience}
    (hstage : s.stage thread = .sleeps patience) :
    Lawful (moves ++ [.stir thread]) (s.setStage thread (.looks patience false)) :=
  hs.setStage rfl (by nofun) (by rw [hstage]; rfl) rfl (fun _ ↦ nofun) fun _ ↦ nofun

theorem expire (hs : Lawful moves s) {deadline : Nat}
    (hstage : s.stage thread = .sleeps (.upTo deadline)) (hdeadline : deadline ≤ s.clock) :
    Lawful (moves ++ [.expire thread]) (s.setStage thread (.looks (.upTo deadline) true)) := by
  refine hs.setStage rfl (by nofun) (by rw [hstage]; rfl) rfl (fun _ ↦ nofun)
    fun patience hlooks ↦ ?_
  obtain ⟨rfl, -⟩ := Stage.looks.inj hlooks
  exact ⟨deadline, rfl, hdeadline⟩

/-- The thread on duty is the one that published first. -/
theorem eq_of_isOnDuty (hs : Lawful moves s) {p q : Nat} {outcome : Outcome α}
    (hfirst : firstPublish? moves = some (p, outcome)) (hduty : (s.stage q).isOnDuty = true) :
    q = p := by
  obtain ⟨⟨outcome', hfirst'⟩, -⟩ := (hs.duty q).1 hduty
  exact (Prod.mk.inj (Option.some.inj (hfirst'.symm.trans hfirst))).1

/-- The first publish installs its outcome and has the sleepers to wake from then on. -/
theorem publish (hs : Lawful moves s) (outcome : Outcome α) (hsettled : s.handle.settled = none) :
    Lawful (moves ++ [.publish thread outcome])
      ({ s with handle := (s.handle.publish outcome).2, lock := some thread }.setStage thread
        .publishes) := by
  have hfirst : firstPublish? moves = none := by
    simpa [hsettled] using hs.settled.symm
  have hfirst' : firstPublish? (moves ++ [.publish thread outcome]) = some (thread, outcome) := by
    rw [firstPublish?_concat, hfirst]
    rfl
  -- nobody was woken before, as nothing was published
  have hnever (p : Nat) : Move.wakeAll p ∉ moves := fun hp ↦ by
    obtain ⟨⟨_, hpublished⟩, -⟩ := hs.awake p hp
    simp [hfirst] at hpublished
  have hoff (p : Nat) : (s.stage p).isOnDuty = false := by
    rw [← Bool.not_eq_true, hs.duty, hfirst]
    simp
  rw [Handle.publish_of_incomplete hsettled]
  refine ⟨by rw [hfirst']; rfl, fun p ↦ ?_, fun p ↦ ?_, fun p hp ↦ ?_,
    fun thread' patience hlooks ↦ ?_⟩
  · rw [hfirst', setStage_stage]
    split
    · next hp => simp [hp, hnever, Stage.isOnDuty]
    · next hp => simp [hoff, Ne.symm hp]
  · rw [setStage_stage]
    split
    · next hp => simp [hp, Waiting.setStage]
    · next hp =>
      exact iff_of_false (fun hlock ↦ hp (Option.some.inj hlock).symm)
        (Stage.ne_publishes_of_not_isOnDuty (hoff p))
  · simp [hnever] at hp
  · exact hs.late thread' patience (stage_of_setStage hlooks nofun)

/-- A later publish leaves everything as it is. -/
theorem publishLate (hs : Lawful moves s) {first : Outcome α} (outcome : Outcome α)
    (hsettled : s.handle.settled = some first) :
    Lawful (moves ++ [.publish thread outcome]) s := by
  refine hs.congr ?_ nofun rfl (fun _ ↦ rfl) hs.lock (fun _ _ ↦ .inl) hs.late
  obtain ⟨published, hfirst, -⟩ := Option.map_eq_some_iff.1 (hs.settled.symm.trans hsettled)
  rw [firstPublish?_concat, hfirst, Option.some_or]

theorem unlock (hs : Lawful moves s) (hstage : s.stage thread = .publishes) :
    Lawful (moves ++ [.unlock thread]) ({ s with lock := none }.setStage thread .wakes) := by
  have hlock := (hs.lock thread).2 hstage
  refine hs.congr (firstPublish?_of_publish?_eq_none rfl) nofun rfl (fun p ↦ ?_) (fun p ↦ ?_)
    (fun thread' patience h ↦ ?_) fun thread' patience h ↦ ?_
  · rw [setStage_stage]
    split
    · next hp => rw [hp, hstage]; rfl
    · rfl
  · rw [setStage_stage]
    refine iff_of_false nofun ?_
    split
    · exact nofun
    · next hp =>
      -- one thread held the lock, and that one is about to wake the sleepers now
      exact fun hstage' ↦ hp (Option.some.inj (((hs.lock p).2 hstage').symm.trans hlock))
  · exact .inl (stage_of_setStage h nofun)
  · exact hs.late thread' patience (stage_of_setStage h nofun)

/-- Everyone who sleeps is woken, and the duty is done. -/
theorem wakeAll (hs : Lawful moves s) (hstage : s.stage thread = .wakes) :
    Lawful (moves ++ [.wakeAll thread])
      ({ s with stage := fun t ↦ (s.stage t).woken }.setStage thread .free) := by
  have hfirst : firstPublish? (moves ++ [.wakeAll thread]) = firstPublish? moves :=
    firstPublish?_of_publish?_eq_none rfl
  obtain ⟨⟨outcome, hpublished⟩, -⟩ := (hs.duty thread).1 (by rw [hstage]; rfl)
  -- the thread that wakes them is the one that published first, so nobody else is on duty
  have honly {p : Nat} {outcome' : Outcome α}
      (hp : firstPublish? moves = some (p, outcome')) : p = thread :=
    (hs.eq_of_isOnDuty hp (by rw [hstage]; rfl)).symm
  refine ⟨hfirst ▸ hs.settled, fun p ↦ ?_, fun p ↦ ?_, fun p hp ↦ ?_,
    fun thread' patience hlooks ↦ ?_⟩
  · rw [setStage_stage, hfirst]
    split
    · next hp => simp [hp, Stage.isOnDuty]
    · next hp =>
      refine iff_of_false (fun hduty ↦ ?_) fun hduty ↦ ?_
      · exact hp (hs.eq_of_isOnDuty hpublished (Stage.isOnDuty_woken _ ▸ hduty))
      · obtain ⟨⟨_, hpublished'⟩, -⟩ := hduty
        exact hp (honly hpublished')
  · rw [setStage_stage]
    refine (hs.lock p).trans ?_
    split
    · next hp => simp [hp, hstage]
    · exact Stage.woken_eq_publishes_iff.symm
  · refine ⟨⟨outcome, ?_⟩, fun thread' patience hsleeping ↦ ?_⟩
    · rw [hfirst, hpublished]
      rcases List.mem_append.1 hp with hp | hp
      · obtain ⟨⟨_, hpublished'⟩, -⟩ := hs.awake p hp
        rw [honly hpublished']
      · rw [Move.wakeAll.inj (List.mem_singleton.1 hp)]
    · exact Stage.woken_ne_sleeps (stage_of_setStage hsleeping nofun)
  · exact hs.late thread' patience (Stage.looks_of_woken (stage_of_setStage hlooks nofun))

theorem operate (hs : Lawful moves s) {op : Handle.Operation α κ} (hop : op.outcome? = none) :
    Lawful (moves ++ [.operate op]) { s with handle := (s.handle.apply op).2 } := by
  refine hs.congr (firstPublish?_of_publish?_eq_none rfl) nofun ?_ (fun _ ↦ rfl) hs.lock
    (fun _ _ ↦ .inl) hs.late
  rw [Handle.settled_apply, hop, Option.or_none]

theorem elapse (hs : Lawful moves s) (nanos : Nat) :
    Lawful (moves ++ [.elapse nanos]) { s with clock := s.clock + nanos } := by
  refine hs.congr (firstPublish?_of_publish?_eq_none rfl) nofun rfl (fun _ ↦ rfl) hs.lock
    (fun _ _ ↦ .inl) fun thread patience hlooks ↦ ?_
  obtain ⟨deadline, rfl, hdeadline⟩ := hs.late thread patience hlooks
  exact ⟨deadline, rfl, Nat.le_add_right_of_le hdeadline⟩

/-- Each move keeps what is lawful. There is one lemma for each, and the cases of `Made` put them
together. -/
theorem made (hs : Lawful moves s) (h : Made lastTime s move t) : Lawful (moves ++ [move]) t := by
  cases h with
  | wait timeout hidle => exact hs.wait timeout hidle
  | look hlock hstage => exact hs.look hstage
  | stir hstage => exact hs.stir hstage
  | expire hstage hdeadline => exact hs.expire hstage hdeadline
  | publish outcome hlock hidle hsettled => exact hs.publish outcome hsettled
  | publishLate outcome hlock hidle hsettled => exact hs.publishLate outcome hsettled
  | unlock hstage => exact hs.unlock hstage
  | wakeAll hstage => exact hs.wakeAll hstage
  | operate hlock hop => exact hs.operate hop
  | elapse nanos => exact hs.elapse nanos

theorem of_run (identity : Identity) (pid : Option Nat)
    (h : run lastTime moves (Waiting.fresh identity pid) = some s) : Lawful moves s := by
  induction moves using List.reverseRecOn generalizing s with
  | nil =>
    obtain rfl := Option.some.inj h
    exact fresh identity pid
  | append_singleton moves move ih =>
    obtain ⟨s', hrun, hstep⟩ := run_concat_eq_some_iff.1 h
    exact (ih hrun).made (made_of_step hstep)

end Lawful

/-! ### What waits come to

A wait promises little about time. It returns an outcome if there is one at its last look, and
without one only behind its deadline. How long a thread that could look is kept from it is up to the
schedule, so what is said is that its next look ends the wait, and not when that comes.
-/

/-- What a wait may return, with the handle and the clock as they are at its last look. -/
structure Answers (h : Handle α κ) (now : Nat) (patience : Patience) (value : Option α) :
    Prop where
  settled : patience = .endless → h.settled.isSome = true
  some_iff : ∀ v, value = some v ↔ h.settled = some (.success v)
  /-- Without a value there is a failure, or no outcome and no time left. -/
  none_cases : value = none → (∃ failure, h.settled = some (.failure failure)) ∨
    h.settled = none ∧ ∃ deadline, patience = .upTo deadline ∧ deadline ≤ now

/-- How waits and publishes stand to the moves that were made. -/
structure Kept (lastTime : Nat) (moves : List (Move α κ)) (s : Waiting α κ) : Prop where
  /-- The outcome is the one that was published first. -/
  settled : s.handle.settled = (firstPublish? moves).map Prod.snd
  /-- Nobody is in the wait set once the publisher of the outcome has woken the sleepers. -/
  awake : ∀ p outcome, firstPublish? moves = some (p, outcome) → .wakeAll p ∈ moves →
    ∀ thread patience, s.stage thread ≠ .sleeps patience
  /-- Until then the publisher has only to give the lock up and to wake them. -/
  owed : ∀ p outcome, firstPublish? moves = some (p, outcome) → .wakeAll p ∉ moves →
    (s.stage p = .publishes ∧ (s.step lastTime (.unlock p)).isSome = true) ∨
      s.stage p = .wakes ∧ (s.step lastTime (.wakeAll p)).isSome = true
  /-- From then on a wait is over with its next look, and has the value of the outcome. -/
  ends : ∀ p outcome, firstPublish? moves = some (p, outcome) → .wakeAll p ∈ moves →
    ∀ thread patience timeIsUp, s.stage thread = .looks patience timeIsUp →
      ∃ t, s.step lastTime (.look thread) = some t ∧
        t.stage thread = .returned patience outcome.value?
  /-- A wait is over in a look of its own, and returns what it finds there. -/
  returns : ∀ move t, s.step lastTime move = some t → ∀ thread patience value,
    t.stage thread = .returned patience value → s.stage thread ≠ t.stage thread →
      move = .look thread ∧ Answers s.handle s.clock patience value

/-- A wait that ends has the answer that the handle has at that moment. -/
theorem answers_of_afterLook {h : Handle α κ} {now : Nat} {patience patience' : Patience}
    {timeIsUp : Bool} {value : Option α}
    (hlate : timeIsUp = true → ∃ deadline, patience = .upTo deadline ∧ deadline ≤ now)
    (hlook : afterLook h patience timeIsUp = .returned patience' value) :
    Answers h now patience' value := by
  -- in time or late, the wait returns the value that the handle has
  obtain ⟨rfl, rfl, hfound⟩ : patience = patience' ∧ h.value? = value ∧
      (h.settled = none → timeIsUp = true) := by
    rw [afterLook] at hlook
    split at hlook
    · next hup =>
      obtain ⟨hpatience, hvalue⟩ := Stage.returned.inj hlook
      exact ⟨hpatience, hvalue, fun _ ↦ hup⟩
    · split at hlook
      · next found hwait =>
        obtain ⟨hpatience, rfl⟩ := Stage.returned.inj hlook
        obtain ⟨outcome, hsettled, rfl⟩ := Option.map_eq_some_iff.1 hwait
        refine ⟨hpatience, by rw [Handle.value?, hsettled]; rfl, fun hnone ↦ ?_⟩
        cases hsettled.symm.trans hnone
      · cases hlook
  refine ⟨fun hendless ↦ Option.isSome_iff_ne_none.2 fun hnone ↦ ?_,
    fun v ↦ Handle.value?_eq_some_iff, fun hvalue ↦ ?_⟩
  · obtain ⟨deadline, hupTo, -⟩ := hlate (hfound hnone)
    cases hendless.symm.trans hupTo
  · rcases hsettled : h.settled with - | v | failure
    · exact .inr ⟨rfl, hlate (hfound hsettled)⟩
    · cases hvalue.symm.trans (Handle.value?_eq_some_iff.2 hsettled)
    · exact .inl ⟨failure, rfl⟩

/-- Only a look ends a wait. -/
theorem looks_of_returned (h : Made lastTime s move t) {patience : Patience} {value : Option α}
    (hreturned : t.stage thread = .returned patience value)
    (hnew : s.stage thread ≠ t.stage thread) :
    move = .look thread ∧ ∃ patience' timeIsUp, s.stage thread = .looks patience' timeIsUp ∧
      afterLook s.handle patience' timeIsUp = .returned patience value := by
  -- a thread that got here in this move is the one that moved
  have hmoved {s' : Waiting α κ} {thread' : Nat} {stage : Stage α}
      (ht : t = s'.setStage thread' stage) (hs' : s'.stage = s.stage) :
      thread = thread' ∧ stage = .returned patience value := by
    rw [ht, setStage_stage] at hreturned hnew
    split at hreturned
    · next hthread => exact ⟨hthread, hreturned⟩
    · next hthread => simp [hthread, hs'] at hnew
  cases h with
  | look hlock hstage =>
    obtain ⟨rfl, hafter⟩ := hmoved rfl rfl
    exact ⟨rfl, _, _, hstage, hafter⟩
  | wait | stir | expire | publish | unlock => nomatch (hmoved rfl rfl).2
  | wakeAll hstage =>
    rw [setStage_stage] at hreturned hnew
    split at hreturned
    · cases hreturned
    · next hthread =>
      rw [if_neg hthread] at hnew
      exact absurd (Stage.woken_of_returned hreturned) hnew.symm
  | publishLate | operate | elapse => exact absurd rfl hnew

/-- A look at a handle that knows its outcome ends a wait. -/
theorem afterLook_of_settled {h : Handle α κ} {outcome : Outcome α}
    (hsettled : h.settled = some outcome) (patience : Patience) (timeIsUp : Bool) :
    afterLook h patience timeIsUp = .returned patience outcome.value? := by
  simp [afterLook, Handle.value?, Handle.wait?, hsettled]

/-- No wake-up is lost, and a wait returns what the publish that came first lets it return. -/
theorem kept_of_moves (lastTime : Nat) (identity : Identity) (pid : Option Nat)
    (h : run lastTime moves (fresh identity pid) = some s) : Kept lastTime moves s := by
  have hs := Lawful.of_run identity pid h
  refine ⟨hs.settled, fun p outcome _ hwoken ↦ (hs.awake p hwoken).2,
    fun p outcome hfirst hwoken ↦ ?_,
    fun p outcome hfirst hwoken thread patience timeIsUp hlooks ↦ ?_,
    fun move t hstep thread patience value hreturned hnew ↦ ?_⟩
  · have hduty := (hs.duty p).2 ⟨⟨outcome, hfirst⟩, hwoken⟩
    cases hstage : s.stage p with
    | publishes => exact .inl ⟨rfl, by simp [step, hstage]⟩
    | wakes => exact .inr ⟨rfl, by simp [step, hstage]⟩
    | free | looks | sleeps | returned => simp [hstage, Stage.isOnDuty] at hduty
  · have hsettled : s.handle.settled = some outcome := by rw [hs.settled, hfirst]; rfl
    -- only whoever is on duty holds the lock, and nobody is any more
    have hlock : s.lock = none := by
      refine Option.eq_none_iff_forall_ne_some.2 fun q hq ↦ ?_
      have hduty : (s.stage q).isOnDuty = true := by rw [(hs.lock q).1 hq]; rfl
      obtain rfl := hs.eq_of_isOnDuty hfirst hduty
      exact ((hs.duty q).1 hduty).2 hwoken
    refine ⟨s.setStage thread (.returned patience outcome.value?), ?_, ?_⟩
    · simp only [step, hlock, hlooks, afterLook_of_settled hsettled]
    · rw [setStage_stage, if_pos rfl]
  · obtain ⟨hmove, patience', timeIsUp, hlooks, hafter⟩ :=
      looks_of_returned (made_of_step hstep) hreturned hnew
    refine ⟨hmove, answers_of_afterLook (fun hup ↦ ?_) hafter⟩
    exact hs.late thread patience' (hup ▸ hlooks)

/-- Two publishes and three waits. The time of one wait is up before anything is published, another
wait is woken for no reason before the publisher wakes the sleepers. -/
theorem kept_of_moves_two_publishers :
    ∃ (moves : List (Move Nat Unit)) (s : Waiting Nat Unit),
      run 100 moves (fresh (.keyed "f") none) = some s ∧
      firstPublish? moves = some (4, .success 7) ∧ .wakeAll 4 ∈ moves ∧
      s.stage 0 = .returned .endless (some 7) ∧ s.stage 1 = .returned (.upTo 5) none ∧
      s.stage 2 = .returned .endless (some 7) ∧ Kept 100 moves s :=
  ⟨[.wait 0 none, .wait 1 (some ⟨5, by decide⟩), .wait 2 none, .look 0, .look 1, .look 2,
      .elapse 6, .expire 1, .look 1, .publish 4 (.success 7), .unlock 4, .publish 3 (.success 9),
      .stir 0, .look 0, .wakeAll 4, .look 2],
    _, rfl, rfl, by simp, rfl, rfl, rfl, kept_of_moves 100 _ none rfl⟩

end Waiting

end Offload
