import Offload.Termination
import Offload.Proofs.Child.Calls

/-!
# What a termination comes to

A termination asks the system for little, and in one order: a look, the request to stop, a wait, the
forced kill, a second wait. It ends at the first point at which the worker is known to be gone.
`Course` lists the ways in which it can go, each with the calls that are made and what is reported
of them; `course_stop` says that there are no others, for any system and so for any worker: one that
is gone, goes late or never goes, with looks that are interrupted or fail and with signals that
cannot be sent.

All else is read off the course: which signals are sent, when it escalates, how long it sleeps. Only
how long a wait lasts cannot be told from its calls, since the clock is the system's. A wait sleeps
no longer than it may, and it is not cut short either: a worker that is not gone is given up when
the time has passed, or when a look at it fails (`Outlasts`).
-/

namespace Offload.Termination

open Child (Call Kernel Poll Recorded Signal Supervisor signals sleptIn tellEnd)
open Child.Supervisor (Follows Tells Waits)

variable {σ : Type}

/-- The calls of a wait: looks, and sleeps that fit into the time given. -/
structure Bounded (limit : Duration) (calls : List Call) : Prop where
  isWait : ∀ c ∈ calls, c.isWait = true
  sleptIn_le : sleptIn calls ≤ limit.nanos

/-- The ways in which the termination of a worker can go: whether it was known to be gone before,
the calls that are made, the stage that is reached, and whether the forced kill was needed. -/
inductive Course (policy : TerminationPolicy) : Bool → List Call → Stage → Bool → Prop
  /-- The worker was known to be gone, so nothing is asked. -/
  | known : Course policy true [] .dead false
  /-- The first look finds it gone. -/
  | foundGone {look : Poll} : look.ending? ≠ none →
      Course policy false [.polled look] .dead false
  /-- It is asked to stop, and goes within the grace period. -/
  | stopped {look : Poll} {result : Except IoKind Unit} {grace : List Call} :
      look.ending? = none → Bounded policy.gracePeriod grace → tellEnd grace →
      Course policy false (.polled look :: .signalled .stop result :: grace) .dead false
  /-- It does not go within the grace period, is killed, and is waited for once more. -/
  | killed {look : Poll} {result result' : Except IoKind Unit} {grace last : List Call}
      {stage : Stage} :
      look.ending? = none → Bounded policy.gracePeriod grace → ¬ tellEnd grace →
      Bounded policy.killWait last →
      stage = .dead ∧ tellEnd last ∨ stage = .unresponsive ∧ ¬ tellEnd last →
      Course policy false
        (.polled look :: .signalled .stop result :: (grace ++ .signalled .kill result' :: last))
        stage true

/-- Whether the first look finds the worker gone. None is needed if it was known to be. -/
def FoundGone (known : Bool) (calls : List Call) : Prop :=
  known = true ∨ ∃ look, calls.head? = some (.polled look) ∧ look.ending? ≠ none

/-- The calls of the grace period, behind the first look and the request to stop. -/
def inGrace (calls : List Call) : List Call :=
  (calls.drop 2).takeWhile Call.isWait

/-! ### What the course tells

A course is a finite tree with few leaves, so what is said of all terminations is said by its cases.
None of them opens a definition of the supervisor.
-/

theorem Bounded.signals_eq {limit : Duration} {calls : List Call} (h : Bounded limit calls) :
    signals calls = [] := by
  rw [signals, List.filterMap_eq_nil_iff]
  intro c hc
  have hwait := h.isWait c hc
  rcases c with answer | answer | ⟨signal, result⟩ | nanos
  · rfl
  · rfl
  · exact Bool.noConfusion hwait
  · rfl

/-- The grace period ends where something else than a look or a sleep is asked for. -/
theorem Bounded.inGrace_append {limit : Duration} {grace : List Call} (h : Bounded limit grace)
    (look request : Call) (rest : List Call) (hrest : rest.takeWhile Call.isWait = []) :
    inGrace (look :: request :: (grace ++ rest)) = grace := by
  show (grace ++ rest).takeWhile Call.isWait = grace
  rw [List.takeWhile_append_of_pos h.isWait, hrest, List.append_nil]

namespace Course

variable {policy : TerminationPolicy} {known : Bool} {calls : List Call} {stage : Stage}
  {escalated : Bool}

/-- Nothing is sent to a worker that was gone. -/
theorem of_foundGone (h : Course policy known calls stage escalated) (hs : FoundGone known calls) :
    signals calls = [] ∧ stage = .dead ∧ escalated = false := by
  cases h with
  | known => exact ⟨rfl, rfl, rfl⟩
  | foundGone hgone => exact ⟨rfl, rfl, rfl⟩
  | stopped hlook | killed hlook =>
    obtain hk | ⟨look, hhead, hgone⟩ := hs
    · exact Bool.noConfusion hk
    · obtain rfl : _ = look := by simpa using hhead
      exact absurd hlook hgone

/-- Any other is asked to stop, once and before all else, and is killed once if it comes to that. -/
theorem signals_of_not_foundGone (h : Course policy known calls stage escalated)
    (hs : ¬ FoundGone known calls) :
    signals calls = .stop :: if escalated then [.kill] else [] := by
  cases h with
  | known => exact absurd (.inl rfl) hs
  | foundGone hgone => exact absurd (.inr ⟨_, rfl, hgone⟩) hs
  | stopped hlook hgrace => simp [hgrace.signals_eq, Call.signal?]
  | killed hlook hgrace hstays hlast => simp [hgrace.signals_eq, hlast.signals_eq, Call.signal?]

/-- The forced kill is among the signals just if the termination escalated. -/
theorem kill_mem_iff (h : Course policy known calls stage escalated) :
    .kill ∈ signals calls ↔ escalated = true := by
  by_cases hs : FoundGone known calls
  · obtain ⟨hsignals, -, rfl⟩ := h.of_foundGone hs
    simp [hsignals]
  · rw [h.signals_of_not_foundGone hs]
    rcases escalated with - | - <;> simp

/-- It comes to the forced kill if no look of the grace period finds the worker gone. -/
theorem escalated_iff (h : Course policy known calls stage escalated)
    (hs : ¬ FoundGone known calls) : escalated = true ↔ ¬ tellEnd (inGrace calls) := by
  cases h with
  | known => exact absurd (.inl rfl) hs
  | foundGone hgone => exact absurd (.inr ⟨_, rfl, hgone⟩) hs
  | @stopped look result grace hlook hgrace hgone =>
    have heq := hgrace.inGrace_append (.polled look) (.signalled .stop result) [] rfl
    rw [List.append_nil] at heq
    simp [heq, hgone]
  | @killed look result result' grace last _ hlook hgrace hstays =>
    rw [hgrace.inGrace_append (.polled look) (.signalled .stop result) _ rfl]
    simp [hstays]

/-- A worker is left dead, or unresponsive after an escalation. -/
theorem stage_cases (h : Course policy known calls stage escalated) :
    stage = .dead ∨ stage = .unresponsive ∧ escalated = true := by
  cases h with
  | known | foundGone | stopped => exact .inl rfl
  | killed _ _ _ _ hstage => exact hstage.imp And.left fun hstage ↦ ⟨hstage.1, rfl⟩

/-- There is no third stage. -/
theorem unresponsive_iff (h : Course policy known calls stage escalated) :
    stage = .unresponsive ↔ stage ≠ .dead := by
  obtain rfl | ⟨rfl, -⟩ := h.stage_cases <;> simp

/-- The worker is reported dead if it was known to be gone, or a call has told so. -/
theorem dead_iff (h : Course policy known calls stage escalated) :
    stage = .dead ↔ known = true ∨ tellEnd calls := by
  cases h with
  | known => simp
  | foundGone hgone => simpa [Child.tellEnd_singleton, Call.ending?] using hgone
  | stopped _ _ hgone => simp [Child.tellEnd_cons, hgone]
  | killed hlook _ hstays _ hstage =>
    obtain ⟨rfl, hgone⟩ | ⟨rfl, hstays'⟩ := hstage
    · simp [Child.tellEnd_cons, Child.tellEnd_append, hgone]
    · simp [Child.tellEnd_cons, Child.tellEnd_append, hlook, hstays, hstays', Call.ending?]

/-- A termination sleeps no longer than the grace period and the wait after the kill together. -/
theorem sleptIn_le (h : Course policy known calls stage escalated) :
    sleptIn calls ≤ policy.gracePeriod.nanos + policy.killWait.nanos := by
  cases h with
  | known => simp
  | foundGone => simp [Call.nanos]
  | stopped _ hgrace =>
    have hle := hgrace.sleptIn_le
    simp only [Child.sleptIn_cons, Call.nanos]
    omega
  | killed _ hgrace _ hlast =>
    have hle := hgrace.sleptIn_le
    have hle' := hlast.sleptIn_le
    simp only [Child.sleptIn_cons, Child.sleptIn_append, Call.nanos]
    omega

end Course

/-! ### The course that is taken

Here the definition of a termination is followed step by step, once. At each step the worker is
known to be gone or not, and where it is, nothing more is asked of the system. Patience goes along
the same way; it needs the clock, and so it is a statement of its own.
-/

variable (k : Kernel σ)

/-- A wait makes calls that are bounded by its limit, and tells what is known at its end. -/
theorem follows_goneWithin (timeout : Duration) (w : Supervisor (Recorded σ)) :
    ∃ added, Follows w (goneWithin k.recording timeout w).2 added ∧ Bounded timeout added ∧
      (goneWithin k.recording timeout w).2.reaped = (goneWithin k.recording timeout w).1 := by
  obtain ⟨added, hwaits⟩ := Child.Supervisor.waits_waitFor k timeout w
  rw [goneWithin]
  generalize w.waitFor k.recording timeout = answer at hwaits
  obtain ⟨kind | gone, w'⟩ := answer
  · exact ⟨added, hwaits.follows, ⟨hwaits.isWait, hwaits.sleptIn_le⟩, hwaits.tells⟩
  · exact ⟨added, hwaits.follows, ⟨hwaits.isWait, hwaits.sleptIn_le⟩, hwaits.tells⟩

/-- From `w` to `w'` the time has passed, or the last look has failed. -/
def Outlasts (limit : Duration) (w w' : Supervisor (Recorded σ)) : Prop :=
  k.now w.system.system + limit.nanos ≤ k.now w'.system.system ∨
    ∃ kind, w'.calls.getLast? = some (.polled (.failed kind))

/-- A worker is not given up before its time is over. -/
theorem outlasts_goneWithin {timeout : Duration} {w w' : Supervisor (Recorded σ)}
    (h : goneWithin k.recording timeout w = (false, w')) : Outlasts k timeout w w' := by
  obtain ⟨added, hwaits⟩ := Child.Supervisor.waits_waitFor k timeout w
  rw [goneWithin] at h
  generalize w.waitFor k.recording timeout = answer at hwaits h
  obtain ⟨kind | gone, w''⟩ := answer <;> cases h
  · obtain ⟨before, rfl⟩ := hwaits.failed kind rfl
    refine .inr ⟨kind, ?_⟩
    rw [hwaits.follows.calls, ← List.append_assoc, List.getLast?_concat]
  · exact .inl (hwaits.lasts rfl)

/-- A signal to a worker that is not known to be gone. -/
theorem follows_signal (signal : Signal) {w : Supervisor (Recorded σ)} (hr : w.reaped = false) :
    ∃ result, Follows w (w.send k.recording signal).2 [.signalled signal result] ∧
      (w.send k.recording signal).2.reaped = false := by
  obtain ⟨added, hf, hr', ⟨hw, -⟩ | ⟨-, result, rfl⟩⟩ := Child.Supervisor.follows_send k signal w
  · exact absurd (hr.symm.trans hw) Bool.false_ne_true
  · exact ⟨result, hf, hr'.trans hr⟩

/-- A termination takes one of the courses. -/
theorem course_stop (policy : TerminationPolicy) (w : Supervisor (Recorded σ)) :
    ∃ added, Follows w (stop k.recording policy w).2 added ∧
      Course policy w.reaped added (stop k.recording policy w).1.1
        (stop k.recording policy w).1.2 := by
  -- each step is generalised once what it does is known, so that the cases are on its answer
  obtain ⟨look, hlook, hrun, hshape⟩ := Child.Supervisor.follows_isRunning k w
  rw [stop]
  generalize w.isRunning k.recording = first at hlook hrun
  obtain ⟨- | -, w₁⟩ := first
  · refine ⟨look, hlook, ?_⟩
    obtain ⟨hr, rfl⟩ | ⟨hr, answer, rfl⟩ := hshape
    · rw [hr]
      exact .known
    · rw [hr]
      exact .foundGone (Child.tellEnd_singleton.1 ((hlook.reaped_iff hr).1 hrun))
  -- the worker runs, so the look was a call of the system and has told nothing
  have hr₁ : w₁.reaped = false := hrun
  have hr := hlook.not_reaped hr₁
  obtain ⟨hr', -⟩ | ⟨-, answer, rfl⟩ := hshape
  · exact absurd (hr.symm.trans hr') Bool.false_ne_true
  have hanswer : answer.ending? = none := by
    have hno := (hlook.running hr₁).1
    rwa [Child.tellEnd_singleton, not_not] at hno
  rw [hr]
  dsimp only
  obtain ⟨result, hask, hr₂⟩ := follows_signal k .stop hr₁
  obtain ⟨grace, hgrace, hbounded, hgone⟩ :=
    follows_goneWithin k policy.gracePeriod (w₁.askToStop k.recording).2
  generalize goneWithin k.recording policy.gracePeriod _ = second at hgrace hgone
  obtain ⟨- | -, w₃⟩ := second
  · have hr₃ : w₃.reaped = false := hgone
    dsimp only
    obtain ⟨result', hkill, hr₄⟩ := follows_signal k .kill hr₃
    obtain ⟨last, hlast, hbounded', hgone'⟩ :=
      follows_goneWithin k policy.killWait (w₃.kill k.recording).2
    have hfollows := hlook.trans (hask.trans (hgrace.trans (hkill.trans hlast)))
    have hstays := (hgrace.running hr₃).1
    generalize goneWithin k.recording policy.killWait _ = third at hlast hgone' hfollows
    obtain ⟨- | -, w₅⟩ := third
    · exact ⟨_, hfollows, .killed hanswer hbounded hstays hbounded'
        (.inr ⟨rfl, (hlast.running hgone').1⟩)⟩
    · exact ⟨_, hfollows, .killed hanswer hbounded hstays hbounded'
        (.inl ⟨rfl, (hlast.reaped_iff hr₄).1 hgone'⟩)⟩
  · exact ⟨_, hlook.trans (hask.trans hgrace),
      .stopped hanswer hbounded ((hgrace.reaped_iff hr₂).1 hgone)⟩

/-- The supervisor once the worker was looked at and asked to stop. -/
def asked (k : Kernel σ) (w : Supervisor σ) : Supervisor σ :=
  ((w.isRunning k).2.askToStop k).2

/-- The supervisor once the worker had its grace period. -/
def graced (k : Kernel σ) (policy : TerminationPolicy) (w : Supervisor σ) : Supervisor σ :=
  (goneWithin k policy.gracePeriod (asked k w)).2

/-- The supervisor once the worker was killed. -/
def killed (k : Kernel σ) (policy : TerminationPolicy) (w : Supervisor σ) : Supervisor σ :=
  ((graced k policy w).kill k).2

/-- A termination of the worker of `w` that leaves `w'` does not cut its waits short. -/
structure Patient (policy : TerminationPolicy) (w : Supervisor (Recorded σ)) (stage : Stage)
    (escalated : Bool) (w' : Supervisor (Recorded σ)) : Prop where
  /-- The forced kill comes when the grace period is over. -/
  grace : escalated = true →
    Outlasts k policy.gracePeriod (asked k.recording w) (graced k.recording policy w) ∧
      ∃ result last,
        w'.calls = (graced k.recording policy w).calls ++ .signalled .kill result :: last
  /-- The worker is reported unresponsive when the time after the kill is over as well. -/
  killWait : stage = .unresponsive → Outlasts k policy.killWait (killed k.recording policy w) w'

/-- Every termination is patient: no wait of it is given up before its time. -/
theorem patient_stop (policy : TerminationPolicy) (w : Supervisor (Recorded σ)) :
    Patient k policy w (stop k.recording policy w).1.1 (stop k.recording policy w).1.2
      (stop k.recording policy w).2 := by
  rcases hfirst : w.isRunning k.recording with ⟨- | -, w₁⟩
  · rw [stop, hfirst]
    exact ⟨nofun, nofun⟩
  have hasked : asked k.recording w = (w₁.askToStop k.recording).2 := by rw [asked, hfirst]
  rcases hgrace : goneWithin k.recording policy.gracePeriod (w₁.askToStop k.recording).2 with
    ⟨- | -, w₃⟩
  · have hgraced : graced k.recording policy w = w₃ := by rw [graced, hasked, hgrace]
    have hkilled : killed k.recording policy w = (w₃.kill k.recording).2 := by rw [killed, hgraced]
    have hlasts : Outlasts k policy.gracePeriod (asked k.recording w) w₃ :=
      hasked ▸ outlasts_goneWithin k hgrace
    obtain ⟨-, hfollows, -, hgone⟩ := follows_goneWithin k policy.gracePeriod (asked k.recording w)
    rw [hasked, hgrace] at hgone
    obtain ⟨result, hkill, -⟩ := follows_signal k .kill hgone
    obtain ⟨last, hlast, -⟩ := follows_goneWithin k policy.killWait (w₃.kill k.recording).2
    have hcalls : (goneWithin k.recording policy.killWait (w₃.kill k.recording).2).2.calls =
        w₃.calls ++ .signalled .kill result :: last := by
      rw [hlast.calls, Supervisor.kill, hkill.calls, List.append_assoc, List.singleton_append]
    -- how the second wait ends has no part in when the kill has come
    have hover : Outlasts k policy.gracePeriod (asked k.recording w)
          (graced k.recording policy w) ∧ ∃ result last,
        (goneWithin k.recording policy.killWait (w₃.kill k.recording).2).2.calls =
          (graced k.recording policy w).calls ++ .signalled .kill result :: last := by
      rw [hgraced]
      exact ⟨hlasts, result, last, hcalls⟩
    rw [stop, hfirst]
    dsimp only
    rw [hgrace]
    dsimp only
    rcases hwait : goneWithin k.recording policy.killWait (w₃.kill k.recording).2 with ⟨- | -, w₅⟩
    · rw [hwait] at hover
      exact ⟨fun _ ↦ hover, fun _ ↦ hkilled.symm ▸ outlasts_goneWithin k hwait⟩
    · rw [hwait] at hover
      exact ⟨fun _ ↦ hover, nofun⟩
  · rw [stop, hfirst]
    dsimp only
    rw [hgrace]
    exact ⟨nofun, nofun⟩

/-- The stage that is reported tells whether the worker is known to be gone. -/
theorem dead_iff_reaped {policy : TerminationPolicy} {w w' : Supervisor (Recorded σ)}
    {added : List Call} {stage : Stage} {escalated : Bool} (hf : Follows w w' added)
    (hc : Course policy w.reaped added stage escalated) :
    stage = .dead ↔ w'.reaped = true := by
  rw [hc.dead_iff]
  rcases hr : w.reaped with - | -
  · rw [hf.reaped_iff hr]
    exact or_iff_right Bool.false_ne_true
  · exact iff_of_true (.inl rfl) (hf.reaped_mono hr)

/-! ### A worker that is known to be gone -/

theorem stop_of_reaped {k : Kernel σ} {w : Supervisor σ} (hr : w.reaped = true)
    (policy : TerminationPolicy) : stop k policy w = ((.dead, false), w) := by
  rw [stop, Supervisor.isRunning_of_collect (Supervisor.collect_of_reaped hr)]
  rfl

/-- It is reported as dead, without an escalation and without an error. -/
theorem run_of_reaped {k : Kernel σ} {w : Supervisor σ} (hr : w.reaped = true)
    (policy : TerminationPolicy) : run k policy w = ({ pid := w.pid, stage := .dead }, w) := by
  rw [run, stop_of_reaped hr]
  simp only [Nat.sub_self]
  rfl

/-! ### The same without the record -/

theorem forget_goneWithin (timeout : Duration) (w : Supervisor (Recorded σ)) :
    goneWithin k timeout w.forget =
      ((goneWithin k.recording timeout w).1, (goneWithin k.recording timeout w).2.forget) := by
  rw [goneWithin, Supervisor.forget_waitFor, goneWithin]
  rcases w.waitFor k.recording timeout with ⟨kind | gone, w'⟩ <;> rfl

theorem forget_stop (policy : TerminationPolicy) (w : Supervisor (Recorded σ)) :
    stop k policy w.forget =
      ((stop k.recording policy w).1, (stop k.recording policy w).2.forget) := by
  rw [stop, Supervisor.forget_isRunning, stop]
  rcases w.isRunning k.recording with ⟨- | -, w₁⟩
  · rfl
  have hask : (w₁.forget.askToStop k).2 = (w₁.askToStop k.recording).2.forget :=
    congrArg Prod.snd (Supervisor.forget_send k .stop w₁)
  dsimp only
  rw [hask, forget_goneWithin]
  rcases goneWithin k.recording policy.gracePeriod _ with ⟨- | -, w₃⟩
  · have hkill : (w₃.forget.kill k).2 = (w₃.kill k.recording).2.forget :=
      congrArg Prod.snd (Supervisor.forget_send k .kill w₃)
    dsimp only
    rw [hkill, forget_goneWithin]
    rcases goneWithin k.recording policy.killWait _ with ⟨- | -, w₅⟩ <;> rfl
  · rfl

/-- Recording the calls does not change the report of a termination. -/
theorem forget_run (policy : TerminationPolicy) (w : Supervisor (Recorded σ)) :
    run k policy w.forget =
      ((run k.recording policy w).1, (run k.recording policy w).2.forget) := by
  rw [run, forget_stop]
  rfl

/-! ### Terminations

What is reported is a function of the course, and the supervisor that is left knows what the report
says. Both are put together with the patience of the waits, and freed of the record that the proofs
have used.
-/

/-- What a termination of the worker of `w` comes to: the report, and the supervisor that it leaves
with the calls that were made. -/
structure Account (k : Kernel σ) (policy : TerminationPolicy) (w : Supervisor σ) (report : Report)
    (w' : Supervisor (Recorded σ)) : Prop where
  course : Course policy w.reaped w'.calls report.stage report.escalated
  /-- A worker that the first look finds gone is sent nothing. -/
  spared : FoundGone w.reaped w'.calls →
    signals w'.calls = [] ∧ report.stage = .dead ∧ report.escalated = false
  /-- Any other is asked to stop, once and first, and killed once if it comes to that. -/
  asked : ¬ FoundGone w.reaped w'.calls →
    signals w'.calls = .stop :: if report.escalated then [.kill] else []
  /-- It comes to that if the worker does not go within the grace period. -/
  killed_iff : ¬ FoundGone w.reaped w'.calls →
    (.kill ∈ signals w'.calls ↔ ¬ tellEnd (inGrace w'.calls))
  escalated_iff : report.escalated = true ↔ .kill ∈ signals w'.calls
  dead_iff : report.stage = .dead ↔ w'.reaped = true
  unresponsive_iff : report.stage = .unresponsive ↔ w'.reaped = false
  escalated_of_unresponsive : report.stage = .unresponsive → report.escalated = true
  sleptIn_le : sleptIn w'.calls ≤ policy.gracePeriod.nanos + policy.killWait.nanos
  /-- Neither wait is given up before its time is over, unless a look fails. -/
  patient : Patient k policy w.recorded report.stage report.escalated w'
  /-- A worker that is reported dead is not terminated twice. -/
  again : report.stage = .dead → ∀ later : TerminationPolicy,
    run k.recording later w' = ({ pid := w.pid, stage := .dead, escalated := false }, w')

/-- Every termination, of any worker in any system, comes to an account as above, and what is
recorded changes nothing of it. -/
theorem account_of_run (policy : TerminationPolicy) (w : Supervisor σ) :
    run k policy w = ((run k.recording policy w.recorded).1,
        (run k.recording policy w.recorded).2.forget) ∧
      Account k policy w (run k.recording policy w.recorded).1
        (run k.recording policy w.recorded).2 := by
  refine ⟨forget_run k policy w.recorded, ?_⟩
  obtain ⟨added, hf, hc⟩ := course_stop k policy w.recorded
  have hcalls : (stop k.recording policy w.recorded).2.calls = added := hf.calls
  have hdead := dead_iff_reaped hf hc
  rw [← hcalls] at hc
  have hunresponsive := hc.unresponsive_iff
  rw [ne_eq, hdead, Bool.not_eq_true] at hunresponsive
  exact
    { course := hc
      spared := hc.of_foundGone
      asked := hc.signals_of_not_foundGone
      killed_iff := fun hs ↦ hc.kill_mem_iff.trans (hc.escalated_iff hs)
      escalated_iff := hc.kill_mem_iff.symm
      dead_iff := hdead
      unresponsive_iff := hunresponsive
      escalated_of_unresponsive := fun hstage ↦ by
        obtain hd | ⟨-, he⟩ := hc.stage_cases
        · exact absurd hd (hc.unresponsive_iff.1 hstage)
        · exact he
      sleptIn_le := hc.sleptIn_le
      patient := patient_stop k policy w.recorded
      again := fun hstage later ↦ by
        have hrun := run_of_reaped (k := k.recording) (hdead.1 hstage) later
        rw [hf.pid] at hrun
        exact hrun }

end Offload.Termination
