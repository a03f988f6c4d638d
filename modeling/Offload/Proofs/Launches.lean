import Offload.Channel.Pipe
import Mathlib.Data.List.Induction

/-!
# Launches of worker processes

A worker process is a fork of the process that launches it, so it starts with a copy of all that is
open there. A launch makes a pipe, forks, and closes its own write end of the pipe. It does so under
a lock, which each process has for itself, so the launches of one process never overlap. Whether the
fork comes off or not, the write end is closed before the lock is given up.

A run is a list of moves of processes in any order. What a process has open is known at every moment
(`Kept.holds_iff`): the write end of its own pipe until it has sent, that of the launch that it is
inside of, and those of its *forebears*. These are the workers that it descends from and that had
not sent when they launched.

So the lock keeps the workers of one process apart, and a process keeps no end of the workers that
it launched (`Kept.launching`). The lock does not keep a worker apart from those that are launched
inside it. They have its write end open, and until they are gone, its receiver does not see the end
of its stream. If workers launch others only when they have sent, no end is shared
(`Kept.exclusive`).

A process is described by what it has open and by four facts about its history: its own pipe,
whether it has sent, the launch that it is inside of, and its forebears. `Sound` says that the first
is told by the others. It is kept by each action for its own sake, without a look at other
processes, because a fork copies both sides of the equation.

Who shares an end with whom is then a question about forebears only (`Apart`), and the lock of a
launch appears as the fact that a process is inside one launch at most.
-/

namespace Offload

/-- How far a launch is. -/
inductive Launches.Stage where
  /-- It has the lock and no pipe. -/
  | entered
  | piped (pipe : Nat)
  /-- It has forked, or could not, and still has the write end. -/
  | forked (pipe : Nat)
  /-- It has closed the write end, or has had no pipe, and still has the lock. -/
  | closed
  deriving DecidableEq

/-- The pipe of which a launch has the write end. -/
def Launches.Stage.pipe? : Launches.Stage → Option Nat
  | piped pipe | forked pipe => some pipe
  | entered | closed => none

/-- A process. Pipes are numbered in the order in which they are made. -/
structure Launches.Process where
  /-- The process that launched it, if it is a worker. -/
  parent : Option Nat := none
  /-- The pipe that it reports through, if it is a worker. -/
  own : Option Nat := none
  /-- Whether it has let go of its own write end. -/
  hasSent : Bool := false
  /-- The pipes of the workers that it descends from and that had not sent when they launched. -/
  forebears : List Nat := []
  /-- The pipes of which it has the write end open. -/
  ends : List Nat := []
  /-- The thread that has the lock, and how far its launch is. -/
  launch : Option (Nat × Launches.Stage) := none
  isGone : Bool := false

/-- Processes that launch workers, in the order in which they began. -/
structure Launches where
  processes : List Launches.Process := []
  /-- The number of pipes that were made. -/
  pipes : Nat := 0

namespace Launches

/-- What a thread of a process does. -/
inductive Action where
  /-- It enters a launch. -/
  | enter (thread : Nat)
  /-- It makes the pipe, or cannot. -/
  | makePipe (thread : Nat) (made : Bool)
  /-- It forks, or cannot. -/
  | fork (thread : Nat) (forked : Bool)
  | closeEnd (thread : Nat)
  /-- It gives the lock up. -/
  | leave (thread : Nat)
  /-- A worker sends its outcome and lets go of its own write end, whether the sending succeeds or
  not. -/
  | send
  /-- The process ends, for whatever reason. -/
  | exit

/-- A move of one process. -/
inductive Move where
  /-- A process begins that is no worker. -/
  | start
  | act (process : Nat) (action : Action)

namespace Process

/-- The pipe that it has still to report through. -/
def reporting (proc : Process) : Option Nat :=
  if proc.hasSent then none else proc.own

/-- The pipe of the launch that it is inside of. -/
def making (proc : Process) : Option Nat :=
  proc.launch.bind fun launch ↦ launch.2.pipe?

/-- The process without the write end of a pipe. -/
def without (proc : Process) (pipe : Nat) : Process :=
  { proc with ends := proc.ends.filter (· ≠ pipe) }

/-- What a fork makes of a process that launches a worker. -/
def child (proc : Process) (p pipe : Nat) : Process where
  parent := some p
  own := some pipe
  forebears := proc.reporting.toList ++ proc.forebears
  ends := proc.ends

/-- One action of the process `p`, where `next` is the next pipe to be made. It may leave a child.
-/
def act (next p : Nat) (proc : Process) : Action → Option (Process × Option Process)
  | .enter thread =>
    if proc.launch = none then some ({ proc with launch := some (thread, .entered) }, none)
    else none
  | .makePipe thread made =>
    if proc.launch = some (thread, .entered) then
      if made then
        some ({ proc with ends := next :: proc.ends, launch := some (thread, .piped next) }, none)
      else some ({ proc with launch := some (thread, .closed) }, none)
    else none
  | .fork thread forked =>
    match proc.launch with
    | some (holder, .piped pipe) =>
      if holder = thread then
        some ({ proc with launch := some (thread, .forked pipe) },
          if forked then some (proc.child p pipe) else none)
      else none
    | _ => none
  | .closeEnd thread =>
    match proc.launch with
    | some (holder, .forked pipe) =>
      if holder = thread then
        some ({ proc.without pipe with launch := some (thread, .closed) }, none)
      else none
    | _ => none
  | .leave thread =>
    if proc.launch = some (thread, .closed) then some ({ proc with launch := none }, none)
    else none
  | .send =>
    match proc.own with
    | some pipe =>
      if proc.hasSent then none else some ({ proc.without pipe with hasSent := true }, none)
    | none => none
  | .exit => some ({ proc with ends := [], launch := none, isGone := true }, none)

end Process

/-- The number of pipes that an action makes. -/
def Action.pipes : Action → Nat
  | makePipe _ true => 1
  | _ => 0

/-- One move. A process that is gone makes none. -/
def step (s : Launches) : Move → Option Launches
  | .start => some { s with processes := s.processes ++ [{}] }
  | .act p action =>
    match s.processes[p]? with
    | some proc =>
      if proc.isGone then none
      else (proc.act s.pipes p action).map fun (proc, child) ↦
        ⟨s.processes.set p proc ++ child.toList, s.pipes + action.pipes⟩
    | none => none

/-- The moves of a list in turn. -/
def run (moves : List Move) (s : Launches) : Option Launches :=
  moves.foldlM step s

/-- A pipe that nothing was written to, as its receiver finds it. -/
def pipe (s : Launches) (pipe : Nat) : Channel.Pipe where
  senderHeld := s.processes.any fun proc ↦ proc.ends.contains pipe

/-! ### One process

Six facts describe what a process has open, and an action changes a few of them. The one that
matters is a fork: what the child has is what its parent had, the end of its own pipe included, and
so an end that the parent has not closed is one that the child has for as long as it lives.
-/

namespace Process

/-- What a process has open, and that the pipes by which it has it are different ones. -/
structure Sound (next : Nat) (proc : Process) : Prop where
  mem_ends_iff : ∀ e, e ∈ proc.ends ↔ proc.isGone = false ∧
    (proc.reporting = some e ∨ proc.making = some e ∨ e ∈ proc.forebears)
  own_lt : ∀ e, proc.own = some e → e < next
  making_lt : ∀ e, proc.making = some e → e < next
  forebears_lt : ∀ e ∈ proc.forebears, e < next
  own_notMem : ∀ e, proc.own = some e → e ∉ proc.forebears
  making_ne : ∀ e, proc.making = some e → proc.own ≠ some e ∧ e ∉ proc.forebears

variable {next p : Nat} {proc : Process}

/-- A worker that has yet to report has a pipe of its own. -/
theorem own_of_reporting {e : Nat} (h : proc.reporting = some e) : proc.own = some e := by
  rw [reporting] at h
  split at h
  · cases h
  · exact h

/-- What an action makes of a process, with the states in which it can be taken. -/
inductive Acts (next p : Nat) (proc : Process) : Action → Process → Option Process → Prop
  | enter {thread : Nat} (hfree : proc.launch = none) :
    Acts next p proc (.enter thread) { proc with launch := some (thread, .entered) } none
  | makePipe {thread : Nat} (hlaunch : proc.launch = some (thread, .entered)) :
    Acts next p proc (.makePipe thread true)
      { proc with ends := next :: proc.ends, launch := some (thread, .piped next) } none
  | makeNone {thread : Nat} (hlaunch : proc.launch = some (thread, .entered)) :
    Acts next p proc (.makePipe thread false) { proc with launch := some (thread, .closed) } none
  | fork {thread pipe : Nat} (hlaunch : proc.launch = some (thread, .piped pipe)) :
    Acts next p proc (.fork thread true) { proc with launch := some (thread, .forked pipe) }
      (some (proc.child p pipe))
  | forkNone {thread pipe : Nat} (hlaunch : proc.launch = some (thread, .piped pipe)) :
    Acts next p proc (.fork thread false) { proc with launch := some (thread, .forked pipe) } none
  | closeEnd {thread pipe : Nat} (hlaunch : proc.launch = some (thread, .forked pipe)) :
    Acts next p proc (.closeEnd thread)
      { proc.without pipe with launch := some (thread, .closed) } none
  | leave {thread : Nat} (hlaunch : proc.launch = some (thread, .closed)) :
    Acts next p proc (.leave thread) { proc with launch := none } none
  | send {pipe : Nat} (hown : proc.own = some pipe) (hsent : proc.hasSent = false) :
    Acts next p proc .send { proc.without pipe with hasSent := true } none
  | exit : Acts next p proc .exit { proc with ends := [], launch := none, isGone := true } none

/-- An action that can be made is one of those that `Acts` lists, with what it needs. -/
theorem acts_of_act {action : Action} {after : Process} {child : Option Process}
    (h : proc.act next p action = some (after, child)) : Acts next p proc action after child := by
  cases action <;> simp only [act] at h
  case enter thread =>
    split at h
    · next hfree =>
      obtain ⟨rfl, rfl⟩ := Prod.mk.inj (Option.some.inj h)
      exact .enter hfree
    · cases h
  case makePipe thread made =>
    split at h
    · next hlaunch =>
      split at h
      · next hmade =>
        obtain ⟨rfl, rfl⟩ := Prod.mk.inj (Option.some.inj h)
        exact hmade ▸ .makePipe hlaunch
      · next hnone =>
        obtain ⟨rfl, rfl⟩ := Prod.mk.inj (Option.some.inj h)
        exact eq_false_of_ne_true hnone ▸ .makeNone hlaunch
    · cases h
  case fork thread forked =>
    split at h
    · next holder pipe hlaunch =>
      split at h
      · next hholder =>
        obtain ⟨rfl, rfl⟩ := Prod.mk.inj (Option.some.inj h)
        cases forked with
        | true => exact .fork (hholder ▸ hlaunch)
        | false => exact .forkNone (hholder ▸ hlaunch)
      · cases h
    · cases h
  case closeEnd thread =>
    split at h
    · next holder pipe hlaunch =>
      split at h
      · next hholder =>
        obtain ⟨rfl, rfl⟩ := Prod.mk.inj (Option.some.inj h)
        exact .closeEnd (hholder ▸ hlaunch)
      · cases h
    · cases h
  case leave thread =>
    split at h
    · next hlaunch =>
      obtain ⟨rfl, rfl⟩ := Prod.mk.inj (Option.some.inj h)
      exact .leave hlaunch
    · cases h
  case send =>
    split at h
    · next pipe hown =>
      split at h
      · cases h
      · next hsent =>
        obtain ⟨rfl, rfl⟩ := Prod.mk.inj (Option.some.inj h)
        exact .send hown (eq_false_of_ne_true hsent)
    · cases h
  case exit =>
    obtain ⟨rfl, rfl⟩ := Prod.mk.inj (Option.some.inj h)
    exact .exit

theorem Acts.frame {action : Action} {after : Process} {child : Option Process}
    (h : Acts next p proc action after child) :
    after.parent = proc.parent ∧ after.own = proc.own ∧ after.forebears = proc.forebears := by
  cases h <;> exact ⟨rfl, rfl, rfl⟩

/-- A child is one of the launch that its parent is inside of. -/
theorem Acts.child {action : Action} {after c : Process}
    (h : Acts next p proc action after (some c)) :
    ∃ thread pipe, action = .fork thread true ∧ proc.making = some pipe ∧
      c = proc.child p pipe := by
  cases h with
  | @fork thread pipe hlaunch =>
    exact ⟨thread, pipe, rfl, by simp [making, hlaunch, Stage.pipe?], rfl⟩

namespace Sound

/-- Pipes that are made later change nothing for a process. -/
theorem mono (h : Sound next proc) {next' : Nat} (hle : next ≤ next') : Sound next' proc :=
  { h with
    own_lt := fun e he ↦ Nat.lt_of_lt_of_le (h.own_lt e he) hle
    making_lt := fun e he ↦ Nat.lt_of_lt_of_le (h.making_lt e he) hle
    forebears_lt := fun e he ↦ Nat.lt_of_lt_of_le (h.forebears_lt e he) hle }

/-- The first process has nothing open. -/
theorem start (next : Nat) : Sound next {} :=
  ⟨by simp [reporting, making], nofun, nofun, nofun, nofun, nofun⟩

/-- A launch that goes on and opens or closes nothing. -/
theorem withLaunch (h : Sound next proc) {launch : Option (Nat × Stage)}
    (hmaking : making { proc with launch } = proc.making) : Sound next { proc with launch } := by
  refine ⟨fun e ↦ ?_, h.own_lt, fun e he ↦ ?_, h.forebears_lt, h.own_notMem, fun e he ↦ ?_⟩
  · rw [hmaking]
    exact h.mem_ends_iff e
  · exact h.making_lt e (hmaking ▸ he)
  · exact h.making_ne e (hmaking ▸ he)

/-- A launch opens the write end of a pipe that nobody had. -/
theorem makePipe (h : Sound next proc) (hgone : proc.isGone = false) (hmaking : proc.making = none)
    (thread : Nat) : Sound (next + 1)
      { proc with ends := next :: proc.ends, launch := some (thread, .piped next) } := by
  have hnew : making { proc with launch := some (thread, .piped next) } = some next := rfl
  refine ⟨fun e ↦ ?_, fun e he ↦ Nat.lt_succ_of_lt (h.own_lt e he), fun e he ↦ ?_,
    fun e he ↦ Nat.lt_succ_of_lt (h.forebears_lt e he), h.own_notMem, fun e he ↦ ?_⟩
  · show e ∈ next :: proc.ends ↔
      proc.isGone = false ∧ (proc.reporting = some e ∨ some next = some e ∨ e ∈ proc.forebears)
    rw [List.mem_cons, h.mem_ends_iff, hmaking]
    simp only [hgone, Option.some.injEq, eq_comm (a := next)]
    tauto
  · obtain rfl := Option.some.inj (hnew.symm.trans he)
    exact Nat.lt_succ_self next
  · obtain rfl := Option.some.inj (hnew.symm.trans he)
    -- the number of the pipe was not given before
    exact ⟨fun hown ↦ Nat.lt_irrefl _ (h.own_lt _ hown),
      fun hmem ↦ Nat.lt_irrefl _ (h.forebears_lt _ hmem)⟩

/-- A child has what its parent has. One end is its own, and all others are of forebears. -/
theorem child (h : Sound next proc) {pipe : Nat} (hgone : proc.isGone = false)
    (hmaking : proc.making = some pipe) : Sound next (proc.child p pipe) := by
  have hforebears (e : Nat) : e ∈ (proc.child p pipe).forebears ↔
      proc.reporting = some e ∨ e ∈ proc.forebears := by
    simp [Process.child, eq_comm]
  have hown : (proc.child p pipe).own = some pipe := rfl
  have hnotMem : pipe ∉ (proc.child p pipe).forebears := fun hmem ↦ by
    obtain ⟨hne, hnotMem⟩ := h.making_ne pipe hmaking
    exact ((hforebears pipe).1 hmem).elim (fun hr ↦ hne (own_of_reporting hr)) hnotMem
  refine ⟨fun e ↦ ?_, fun e he ↦ ?_, nofun, fun e he ↦ ?_, fun e he ↦ ?_, nofun⟩
  · show e ∈ proc.ends ↔ false = false ∧ (some pipe = some e ∨ none = some e ∨ _)
    rw [h.mem_ends_iff, hmaking, hgone, hforebears]
    simp only [reduceCtorEq, false_or]
    tauto
  · obtain rfl := Option.some.inj (hown.symm.trans he)
    exact h.making_lt _ hmaking
  · exact ((hforebears e).1 he).elim (fun hr ↦ h.own_lt e (own_of_reporting hr))
      (h.forebears_lt e)
  · obtain rfl := Option.some.inj (hown.symm.trans he)
    exact hnotMem

/-- At its end the launch has closed it again. -/
theorem closeEnd (h : Sound next proc) {pipe : Nat} (hmaking : proc.making = some pipe)
    (thread : Nat) : Sound next { proc.without pipe with launch := some (thread, .closed) } := by
  obtain ⟨hne, hnotMem⟩ := h.making_ne pipe hmaking
  refine ⟨fun e ↦ ?_, h.own_lt, nofun, h.forebears_lt, h.own_notMem, nofun⟩
  show e ∈ proc.ends.filter (· ≠ pipe) ↔
    proc.isGone = false ∧ (proc.reporting = some e ∨ none = some e ∨ e ∈ proc.forebears)
  rw [List.mem_filter, h.mem_ends_iff, hmaking]
  by_cases he : e = pipe
  · subst he
    have hreporting : proc.reporting ≠ some e := fun hr ↦ hne (own_of_reporting hr)
    simp [hreporting, hnotMem]
  · simp [he, Ne.symm he]

/-- A worker that sends closes its own write end. -/
theorem send (h : Sound next proc) {pipe : Nat} (hown : proc.own = some pipe)
    (hsent : proc.hasSent = false) : Sound next { proc.without pipe with hasSent := true } := by
  have hreporting : proc.reporting = some pipe := by rw [reporting, hsent, hown]; rfl
  refine ⟨fun e ↦ ?_, h.own_lt, h.making_lt, h.forebears_lt, h.own_notMem, h.making_ne⟩
  show e ∈ proc.ends.filter (· ≠ pipe) ↔
    proc.isGone = false ∧ (none = some e ∨ proc.making = some e ∨ e ∈ proc.forebears)
  rw [List.mem_filter, h.mem_ends_iff, hreporting]
  by_cases he : e = pipe
  · subst he
    have hmaking : proc.making ≠ some e := fun hm ↦ (h.making_ne e hm).1 hown
    simp [hmaking, h.own_notMem e hown]
  · simp [he, Ne.symm he]

/-- A process that is gone has nothing open. -/
theorem exit (h : Sound next proc) :
    Sound next { proc with ends := [], launch := none, isGone := true } :=
  ⟨by simp, h.own_lt, nofun, h.forebears_lt, h.own_notMem, nofun⟩

/-- Every action keeps a process sound, and so is the child that it forks. -/
theorem acts (h : Sound next proc) (hgone : proc.isGone = false) {action : Action}
    {after : Process} {child : Option Process} (hacts : Acts next p proc action after child) :
    Sound (next + action.pipes) after ∧ ∀ c ∈ child, Sound (next + action.pipes) c := by
  cases hacts with
  | enter hfree => exact ⟨h.withLaunch (by simp [making, hfree, Stage.pipe?]), nofun⟩
  | makePipe hlaunch =>
    exact ⟨h.makePipe hgone (by simp [making, hlaunch, Stage.pipe?]) _, nofun⟩
  | makeNone hlaunch => exact ⟨h.withLaunch (by simp [making, hlaunch, Stage.pipe?]), nofun⟩
  | fork hlaunch =>
    refine ⟨h.withLaunch (by simp [making, hlaunch, Stage.pipe?]), fun c hc ↦ ?_⟩
    obtain rfl := Option.mem_some.1 hc
    exact h.child hgone (by simp [making, hlaunch, Stage.pipe?])
  | forkNone hlaunch => exact ⟨h.withLaunch (by simp [making, hlaunch, Stage.pipe?]), nofun⟩
  | closeEnd hlaunch =>
    exact ⟨h.closeEnd (by simp [making, hlaunch, Stage.pipe?]) _, nofun⟩
  | leave hlaunch => exact ⟨h.withLaunch (by simp [making, hlaunch, Stage.pipe?]), nofun⟩
  | send hown hsent => exact ⟨h.send hown hsent, nofun⟩
  | exit => exact ⟨h.exit, nofun⟩

end Sound

end Process

/-! ### Runs

A run adds nothing to a process but what its own actions do. The lemmas here carry the facts about
single processes through a list of moves, where the number of processes grows and their positions
stay.
-/

variable {s t : Launches} {moves : List Move} {move : Move}

theorem run_concat_eq_some_iff {s₀ : Launches} :
    run (moves ++ [move]) s₀ = some t ↔ ∃ s, run moves s₀ = some s ∧ s.step move = some t := by
  simp [run, List.foldlM_append, Option.bind_eq_some_iff]

/-- A move is the start of a process, or an action of one that is not gone. -/
theorem step_cases (h : s.step move = some t) :
    move = .start ∧ t = { s with processes := s.processes ++ [{}] } ∨
      ∃ p action proc after child, move = .act p action ∧ s.processes[p]? = some proc ∧
        proc.isGone = false ∧ Process.Acts s.pipes p proc action after child ∧
        t = ⟨s.processes.set p after ++ child.toList, s.pipes + action.pipes⟩ := by
  cases move with
  | start => exact .inl ⟨rfl, (Option.some.inj h).symm⟩
  | act p action =>
    simp only [step] at h
    split at h
    · next proc hproc =>
      split at h
      · cases h
      · next hgone =>
        obtain ⟨⟨after, child⟩, hact, rfl⟩ := Option.map_eq_some_iff.1 h
        exact .inr ⟨p, action, proc, after, child, rfl, hproc, eq_false_of_ne_true hgone,
          Process.acts_of_act hact, rfl⟩
    · cases h

/-- Whoever is there after an action was there before, or has acted, or is a child. -/
theorem mem_set_append {processes : List Process} {p : Nat} {after proc : Process}
    {child : Option Process} (h : proc ∈ processes.set p after ++ child.toList) :
    proc ∈ processes ∨ proc = after ∨ child = some proc := by
  rcases List.mem_append.1 h with h | h
  · exact (List.mem_or_eq_of_mem_set h).imp_right .inl
  · exact .inr (.inr (Option.mem_toList.1 h))

/-- Every process of a run is sound. -/
theorem sound_of_run (h : run moves {} = some s) : ∀ proc ∈ s.processes, proc.Sound s.pipes := by
  induction moves using List.reverseRecOn generalizing s with
  | nil =>
    obtain rfl := Option.some.inj h
    nofun
  | append_singleton moves move ih =>
    obtain ⟨s', hrun, hstep⟩ := run_concat_eq_some_iff.1 h
    have hs := ih hrun
    rcases step_cases hstep with ⟨-, rfl⟩ |
      ⟨p, action, proc, after, child, -, hproc, hgone, hacts, rfl⟩
    · intro proc hmem
      rcases List.mem_append.1 hmem with hmem | hmem
      · exact hs proc hmem
      · obtain rfl := List.mem_singleton.1 hmem
        exact .start _
    · intro proc' hmem
      obtain ⟨hafter, hchild⟩ := (hs proc (List.mem_of_getElem? hproc)).acts hgone hacts
      rcases mem_set_append hmem with hold | rfl | hnew
      · exact (hs proc' hold).mono (Nat.le_add_right _ _)
      · exact hafter
      · exact hchild proc' hnew

/-- A pipe that the process at a position neither reports through nor has of a forebear. -/
structure Apart (processes : List Process) (p e : Nat) : Prop where
  lt_length : p < processes.length
  ne_own : ∀ proc, processes[p]? = some proc → proc.own ≠ some e ∧ e ∉ proc.forebears

namespace Apart

variable {processes : List Process} {p q e : Nat} {proc after : Process}

theorem append (h : Apart processes p e) (more : List Process) : Apart (processes ++ more) p e := by
  refine ⟨?_, fun proc hproc ↦ h.ne_own proc ?_⟩
  · rw [List.length_append]
    exact Nat.lt_add_right _ h.lt_length
  · rwa [List.getElem?_append_left h.lt_length] at hproc

/-- A process that keeps its pipe and its forebears changes nothing, whatever else it does. -/
theorem set (h : Apart processes p e) (hproc : processes[q]? = some proc)
    (hown : after.own = proc.own) (hforebears : after.forebears = proc.forebears) :
    Apart (processes.set q after) p e := by
  refine ⟨by rw [List.length_set]; exact h.lt_length, fun proc' hproc' ↦ ?_⟩
  rw [List.getElem?_set] at hproc'
  split at hproc'
  · next hq =>
    subst hq
    rw [if_pos h.lt_length] at hproc'
    obtain rfl := Option.some.inj hproc'
    rw [hown, hforebears]
    exact h.ne_own proc hproc
  · exact h.ne_own proc' hproc'

end Apart

/-- A parent neither reports through the pipe of a worker that it launched nor is launched inside
it. -/
theorem apart_of_run (h : run moves {} = some s) : ∀ worker ∈ s.processes, ∀ p e,
    worker.parent = some p → worker.own = some e → Apart s.processes p e := by
  induction moves using List.reverseRecOn generalizing s with
  | nil =>
    obtain rfl := Option.some.inj h
    nofun
  | append_singleton moves move ih =>
    obtain ⟨s', hrun, hstep⟩ := run_concat_eq_some_iff.1 h
    have hs := ih hrun
    rcases step_cases hstep with ⟨-, rfl⟩ |
      ⟨q, action, proc, after, child, -, hproc, -, hacts, rfl⟩
    · intro worker hmem p e hparent howns
      rcases List.mem_append.1 hmem with hmem | hmem
      · exact (hs worker hmem p e hparent howns).append _
      · obtain rfl := List.mem_singleton.1 hmem
        cases hparent
    · intro worker hmem p e hparent howns
      have hmemProc := List.mem_of_getElem? hproc
      obtain ⟨hsame, hown, hforebears⟩ := hacts.frame
      -- the process that acts has changed, but its pipe and its forebears have not
      refine Apart.append (Apart.set ?_ hproc hown hforebears) _
      rcases mem_set_append hmem with hold | rfl | hchild
      · exact hs worker hold p e hparent howns
      · exact hs proc hmemProc p e (hsame ▸ hparent) (hown ▸ howns)
      · -- the child of this move, whose pipe its parent is still making
        obtain ⟨thread, pipe, -, hmaking, rfl⟩ := Process.Acts.child (hchild ▸ hacts)
        obtain rfl := Option.some.inj hparent
        obtain rfl := Option.some.inj howns
        refine ⟨(List.getElem?_eq_some_iff.1 hproc).1, fun proc' hproc' ↦ ?_⟩
        obtain rfl := Option.some.inj (hproc.symm.trans hproc')
        exact (sound_of_run hrun proc hmemProc).making_ne _ hmaking

/-- No worker launches another one before it has sent. -/
def Plain (moves : List Move) : Prop :=
  ∀ before p thread, before ++ [.act p (.fork thread true)] <+: moves →
    ∀ s proc, run before {} = some s → s.processes[p]? = some proc → proc.reporting = none

theorem Plain.of_append {more : List Move} (h : Plain (moves ++ more)) : Plain moves :=
  fun before p thread hbefore ↦ h before p thread (hbefore.trans (List.prefix_append ..))

/-- In a plain run nobody has forebears. -/
theorem forebears_of_plain (h : run moves {} = some s) (hplain : Plain moves) :
    ∀ proc ∈ s.processes, proc.forebears = [] := by
  induction moves using List.reverseRecOn generalizing s with
  | nil =>
    obtain rfl := Option.some.inj h
    nofun
  | append_singleton moves move ih =>
    obtain ⟨s', hrun, hstep⟩ := run_concat_eq_some_iff.1 h
    have hs := ih hrun hplain.of_append
    rcases step_cases hstep with ⟨-, rfl⟩ |
      ⟨p, action, proc, after, child, rfl, hproc, hgone, hacts, rfl⟩
    · intro proc hmem
      rcases List.mem_append.1 hmem with hmem | hmem
      · exact hs proc hmem
      · exact List.mem_singleton.1 hmem ▸ rfl
    · intro proc' hmem
      have hproc' := hs proc (List.mem_of_getElem? hproc)
      rcases mem_set_append hmem with hold | rfl | hchild
      · exact hs proc' hold
      · rw [hacts.frame.2.2, hproc']
      · obtain ⟨thread, pipe, rfl, -, rfl⟩ := Process.Acts.child (hchild ▸ hacts)
        have hreporting := hplain moves p thread List.prefix_rfl s' proc hrun hproc
        show proc.reporting.toList ++ proc.forebears = []
        rw [hreporting, hproc']
        rfl

/-! ### What is open

The two negative facts belong together. A receiver sees the end of its stream only when every
process has let go of the write end; and a worker that launches others before it has sent leaves
that end with them. So a worker that dies in between is not noticed before those are gone, and
`not_exclusive_nested` is a run in which this happens.
-/

/-- The receiver of an empty pipe sees its end exactly if no process has the write end open. -/
theorem readable_pipe_iff (s : Launches) (e : Nat) :
    (s.pipe e).readable = true ↔ ∀ proc ∈ s.processes, e ∉ proc.ends := by
  simp [pipe, Channel.Pipe.readable]

/-- What is open in processes that launch workers. -/
structure Kept (moves : List Move) (s : Launches) : Prop where
  /-- A process has open its own write end until it has sent, that of the launch that it is inside
  of, and those of its forebears. -/
  holds_iff : ∀ proc ∈ s.processes, ∀ e, e ∈ proc.ends ↔ proc.isGone = false ∧
    (proc.reporting = some e ∨ proc.making = some e ∨ e ∈ proc.forebears)
  /-- Of a worker that it launched, a process has the write end only inside that launch. -/
  launching : ∀ worker ∈ s.processes, ∀ p e, worker.parent = some p → worker.own = some e →
    ∀ proc, s.processes[p]? = some proc → e ∈ proc.ends → proc.making = some e
  /-- The receiver of an empty pipe sees the end of the stream once they have all let go of it. -/
  readable_iff : ∀ e, (s.pipe e).readable = true ↔ ∀ proc ∈ s.processes, proc.isGone = false →
    proc.reporting ≠ some e ∧ proc.making ≠ some e ∧ e ∉ proc.forebears
  /-- If workers launch others only when they have sent, a process shares no end. -/
  exclusive : Plain moves → ∀ proc ∈ s.processes, ∀ e ∈ proc.ends,
    proc.own = some e ∨ proc.making = some e
  /-- Then the end is seen as soon as the worker is gone, once the launch has returned. -/
  closes : Plain moves → ∀ e, (∀ proc ∈ s.processes, proc.own = some e → proc.isGone = true) →
    (∀ proc ∈ s.processes, proc.making ≠ some e) → (s.pipe e).readable = true

/-- Every run of processes that launch workers, and workers that launch workers, keeps to this. -/
theorem kept_of_launches (h : run moves {} = some s) : Kept moves s := by
  have hs := sound_of_run h
  have hexclusive (hplain : Plain moves) (proc : Process) (hproc : proc ∈ s.processes) (e : Nat)
      (he : e ∈ proc.ends) : proc.own = some e ∨ proc.making = some e := by
    obtain ⟨-, hr | hm | hf⟩ := ((hs proc hproc).mem_ends_iff e).1 he
    · exact .inl (Process.own_of_reporting hr)
    · exact .inr hm
    · rw [forebears_of_plain h hplain proc hproc] at hf
      cases hf
  refine ⟨fun proc hproc ↦ (hs proc hproc).mem_ends_iff,
    fun worker hworker p e hparent hown proc hproc he ↦ ?_, fun e ↦ ?_, hexclusive,
    fun hplain e hgone hmaking ↦ ?_⟩
  · obtain ⟨hne, hnotMem⟩ := (apart_of_run h worker hworker p e hparent hown).ne_own proc hproc
    obtain ⟨-, hr | hm | hf⟩ := ((hs proc (List.mem_of_getElem? hproc)).mem_ends_iff e).1 he
    · exact absurd (Process.own_of_reporting hr) hne
    · exact hm
    · exact absurd hf hnotMem
  · rw [readable_pipe_iff]
    refine forall₂_congr fun proc hproc ↦ ?_
    rw [(hs proc hproc).mem_ends_iff]
    tauto
  · refine (readable_pipe_iff s e).2 fun proc hproc he ↦ ?_
    rcases hexclusive hplain proc hproc e he with hown | hm
    · have hnot := (((hs proc hproc).mem_ends_iff e).1 he).1
      rw [hgone proc hproc hown] at hnot
      cases hnot
    · exact hmaking proc hproc hm

/-- A launch by a thread of a process, from the entry to the return. -/
def launchBy (process thread : Nat) (forked : Bool) : List Move :=
  [.act process (.enter thread), .act process (.makePipe thread true),
    .act process (.fork thread forked), .act process (.closeEnd thread),
    .act process (.leave thread)]

/-- Two launches by two threads of a process, the second of which cannot fork, and then a launch by
the worker inside the first one. -/
theorem kept_of_launches_nested :
    let moves := .start :: (launchBy 0 0 true ++ launchBy 0 1 false ++ launchBy 1 0 true)
    ∃ s, run moves {} = some s ∧
      s.processes.map (fun proc ↦ (proc.own, proc.ends)) =
        [(none, []), (some 0, [0]), (some 2, [2, 0])] ∧ Kept moves s :=
  ⟨_, rfl, by decide, kept_of_launches rfl⟩

/-- A worker launches another one and is gone before it has sent. The other one has the write end of
the first one open, so the receiver of the first one does not see the end of its stream. -/
theorem not_exclusive_nested :
    ∃ s, run (.start :: (launchBy 0 0 true ++ launchBy 1 0 true ++ [.act 1 .exit])) {} = some s ∧
      (∃ worker ∈ s.processes, worker.isGone = false ∧ worker.own = some 1 ∧ 0 ∈ worker.ends) ∧
      (∀ proc ∈ s.processes, proc.own = some 0 → proc.isGone = true) ∧
      (∀ proc ∈ s.processes, proc.making ≠ some 0) ∧ (s.pipe 0).readable = false :=
  ⟨_, rfl, by decide, by decide, by decide, by decide⟩

end Launches

end Offload
