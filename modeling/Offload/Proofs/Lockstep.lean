import Offload.Proofs.Pipe
import Offload.Proofs.Slots
import Mathlib.Logic.Function.Iterate

/-!
# Watches in lockstep

Two watches whose receivers give the same answer, though at different times, whose workers take
being stopped differently, and to whose handles the same callbacks are registered at the same
points. What a handle keeps of its own call, its identity, its pid and the report of a termination,
makes no difference to what a watch does (`Handle.essence`), and neither do the questions that get
nothing.

The two schedules are compared by their *shapes*, the steps without what the workers say
(`Traffic.Action.shape?`). Schedules of one shape are in `Lockstep`; a question that gets nothing is
a step of one of them that the other does not see (`advanceAll_vain`), and every other step is made
by both or by none, with the same essence after it and the same callback run by it
(`advance_congr`, `callsOf_congr`). So it is for all the steps together (`advanceAll_of_lockstep`).

`Lockstep` has a flag for the one place where the two sides need not move together: as long as both
watches ask, either may ask in vain any number of times. From the answer on every step of one side
has its partner. The induction is on `Lockstep`, so it follows the two schedules at once, and no
schedule is ever cut or padded.
-/

namespace Offload

variable {α κ : Type}

open Channel (Answer)
open Channel.Pipe (answersTo)
open Traffic (Action)

/-! ### What is compared

The essence is what two watches have to agree on for the rest of their way. It must be enough for
every later step, and it must not have anything in it that differs between a worker that is a thread
and one that is a process. Their pids and reports are left out, and how often the slot was given
back is in it.
-/

namespace Handle

/-- What a handle knows apart from whose it is and how its worker was stopped. -/
def essence (h : Handle α κ) : Handle α κ :=
  { h with identity := .keyed "", pid := none, termination := none }

/-- Publishing needs no more of a handle than its essence. -/
theorem publish_essence (h : Handle α κ) (outcome : Outcome α) :
    h.essence.publish outcome = ((h.publish outcome).1, (h.publish outcome).2.essence) := by
  cases hs : h.settled with
  | none =>
    have hs' : h.essence.settled = none := hs
    rw [publish_of_incomplete hs', publish_of_incomplete hs]
    cases outcome <;> rfl
  | some first =>
    have hs' : h.essence.settled = some first := hs
    rw [publish_of_settled hs', publish_of_settled hs]

/-- Registering needs no more of a handle than its essence. -/
theorem register_essence (h : Handle α κ) (kind : CallbackKind) (callback : κ) :
    h.essence.register kind callback =
      ((h.register kind callback).1, (h.register kind callback).2.essence) := by
  cases hs : h.settled with
  | none =>
    have hs' : h.essence.settled = none := hs
    rw [register_of_incomplete hs', register_of_incomplete hs]
    cases kind <;> rfl
  | some outcome =>
    have hs' : h.essence.settled = some outcome := hs
    rw [register_of_settled hs', register_of_settled hs]
    split <;> rfl

section

variable {h₁ h₂ : Handle α κ} (h : h₁.essence = h₂.essence)

include h

theorem publish_congr (outcome : Outcome α) :
    (h₁.publish outcome).1 = (h₂.publish outcome).1 ∧
      (h₁.publish outcome).2.essence = (h₂.publish outcome).2.essence := by
  rw [← Prod.mk.injEq, ← publish_essence, ← publish_essence, h]

theorem register_congr (kind : CallbackKind) (callback : κ) :
    (h₁.register kind callback).1 = (h₂.register kind callback).1 ∧
      (h₁.register kind callback).2.essence = (h₂.register kind callback).2.essence := by
  rw [← Prod.mk.injEq, ← register_essence, ← register_essence, h]

theorem callbackToFire?_congr (completion : Completion α κ) :
    h₁.callbackToFire? completion = h₂.callbackToFire? completion := by
  have hreplaced : h₁.essence.replaced = h₂.essence.replaced := congrArg _ h
  rw [callbackToFire?, callbackToFire?]
  exact congrArg (fun replaced ↦ if replaced then none else completion.callback) hreplaced

end

end Handle

namespace Traffic.Action

/-- The answer of the receiver, in a step in which it is asked. -/
def answer? : Action α κ → Option (Answer α)
  | .receive answer => some answer
  | _ => none

/-- A step without what the receiver and the worker say in it. A question that gets nothing is not
counted as a step. -/
def shape? : Action α κ → Option (Action α κ)
  | .receive (.ok none) => none
  | .receive _ => some (.receive (.error .disconnected))
  | .stop .. => some (.stop false none)
  | action => some action

/-- The one step without a shape is the question that gets nothing. -/
theorem shape?_eq_none_iff {action : Action α κ} :
    action.shape? = none ↔ action = .receive (.ok none) := by
  rcases action with _ | _ | ⟨_ | _ | _⟩ | _ | _ | _ | _ | _ <;> simp [shape?]

end Traffic.Action

namespace Watch

/-- Whether a watch asks its receiver. -/
def Phase.isAsking : Phase α κ → Bool
  | .asking => true
  | _ => false

/-- How far a watch is, what its handle knows, and how often it has given its slot back. -/
def essence (w : Phase α κ × State α κ) : Phase α κ × Handle α κ × Nat :=
  (w.1, w.2.handle.essence, releases w.2.effects)

/-- The callback that a step runs, and the outcome that it gets: the one that a watch fires, or one
that is registered when the outcome is known. -/
def callsOf (w : Phase α κ × State α κ) : Action α κ → List (κ × Outcome α)
  | .fire =>
    match w.1 with
    | .firing completion =>
      (w.2.handle.callbackToFire? completion).toList.map fun callback ↦
        (callback, completion.outcome)
    | _ => []
  | .register kind callback =>
    match (w.2.handle.register kind callback).1 with
    | .runs outcome => [(callback, outcome)]
    | _ => []
  | _ => []

/-- The callbacks that the steps of a list run, as long as the watch makes them. -/
def callsOfAll (settings : Settings) :
    List (Action α κ) → Phase α κ × State α κ → List (κ × Outcome α)
  | [], _ => []
  | action :: rest, w =>
    match advance settings w.1 action w.2 with
    | some w' => callsOf w action ++ callsOfAll settings rest w'
    | none => []

/-! ### One step

Each operation on a handle reads its essence only. From that it follows that two steps of one shape,
made in watches of one essence, leave one essence behind; an answer and a stop are the only steps
that are not literally the same on both sides.
-/

section

variable {settings : Settings} {w₁ w₂ w' : Phase α κ × State α κ} {a b : Action α κ}

/-- Steps of one shape are the same step, or the two watches get an answer or stop their workers. -/
theorem shape?_cases (h : a.shape? = b.shape?) :
    a = b ∨ (∃ answer answer', a = .receive answer ∧ b = .receive answer') ∨
      ∃ alive report alive' report', a = .stop alive report ∧ b = .stop alive' report' := by
  rcases a with _ | _ | ⟨_ | _ | _⟩ | ⟨_, _⟩ | _ | _ | _ | ⟨_, _⟩ <;>
    rcases b with _ | _ | ⟨_ | _ | _⟩ | ⟨_, _⟩ | _ | _ | _ | ⟨_, _⟩ <;>
      simp_all [Action.shape?]

@[simp]
theorem releases_emit (s : State α κ) (effect : Effect α κ) :
    releases (s.emit effect).effects = releases s.effects + releases [effect] :=
  releases_append ..

/-- The essence of a watch is that of its handle, its phase, and how often it has released. -/
theorem essence_congr (phase : Phase α κ) {s₁ s₂ : State α κ}
    (hhandle : s₁.handle.essence = s₂.handle.essence)
    (hreleases : releases s₁.effects = releases s₂.effects) :
    essence (phase, s₁) = essence (phase, s₂) :=
  Prod.ext rfl (Prod.ext hhandle hreleases)

/-- Steps of one shape are both answers or none of them is. -/
theorem isSome_answer?_of_shape (h : a.shape? = b.shape?) :
    a.answer?.isSome = b.answer?.isSome := by
  rcases shape?_cases h with rfl | ⟨answer, answer', rfl, rfl⟩ |
    ⟨alive, report, alive', report', rfl, rfl⟩ <;> rfl

section

variable {s₁ s₂ : State α κ} (hhandle : s₁.handle.essence = s₂.handle.essence)
  (hreleases : releases s₁.effects = releases s₂.effects)

include hhandle hreleases

/-- An answer takes watches of one essence to one essence. -/
theorem receive_congr (answer : Answer α) :
    (advance settings .asking (.receive answer) s₁).map essence =
      (advance settings .asking (.receive answer) s₂).map essence := by
  have hasked : releases (s₁.emit (.asked settings.pollInterval)).effects =
      releases (s₂.emit (.asked settings.pollInterval)).effects := by
    rw [releases_emit, releases_emit, hreleases]
  rcases answer with loss | _ | outcome
  · exact congrArg some (essence_congr (.reaping .lost) hhandle hasked)
  · exact congrArg some (essence_congr .asking hhandle hasked)
  · obtain ⟨hcompletion, hhandle'⟩ := Handle.publish_congr hhandle outcome
    simp only [advance, State.emit]
    rcases h₁ : s₁.handle.publish outcome with ⟨completion₁, handle₁⟩
    rcases h₂ : s₂.handle.publish outcome with ⟨completion₂, handle₂⟩
    rw [h₁, h₂] at hcompletion hhandle'
    obtain rfl : completion₁ = completion₂ := hcompletion
    cases completion₁ with
    | none => exact congrArg some (essence_congr (.ended .ignored) hhandle hasked)
    | some completion =>
      refine congrArg some (essence_congr (.stopping completion) hhandle' ?_)
      simp only [releases_append, hreleases]

/-- Stopping the worker keeps the lockstep, whether it is alive and whatever is reported. -/
theorem stop_congr (completion : Completion α κ) (alive alive' : Bool)
    (report report' : Option Report) :
    (advance settings (.stopping completion) (.stop alive report) s₁).map essence =
      (advance settings (.stopping completion) (.stop alive' report') s₂).map essence := by
  simp only [advance, stop_eq, Option.map_some]
  refine congrArg some (essence_congr (.firing completion) hhandle ?_)
  rw [releases_append, releases_append, releases_stopping, releases_stopping, hreleases]

/-- Firing the callback keeps the lockstep. -/
theorem fire_congr (completion : Completion α κ) :
    (advance settings (.firing completion) .fire s₁).map essence =
      (advance settings (.firing completion) .fire s₂).map essence := by
  simp only [advance, State.fire, Handle.callbackToFire?_congr hhandle, Option.map_some]
  cases s₂.handle.callbackToFire? completion with
  | none => exact congrArg some (essence_congr .releasing hhandle hreleases)
  | some callback =>
    refine congrArg some (essence_congr .releasing hhandle ?_)
    simp only [State.call, releases_emit, hreleases]
    rfl

theorem advance_same (phase : Phase α κ) (a : Action α κ) :
    (advance settings phase a s₁).map essence = (advance settings phase a s₂).map essence := by
  cases a with
  | start | giveBack => cases phase <;> rfl
  | register kind callback =>
    have hadvance : ∀ s : State α κ, advance settings phase (.register kind callback) s =
        some (phase, { s with handle := (s.handle.register kind callback).2 }) := fun s ↦ by
      cases phase <;> rfl
    have hregister := (Handle.register_congr hhandle kind callback).2
    rw [hadvance, hadvance]
    exact congrArg some (essence_congr phase hregister hreleases)
  | receive answer =>
    cases phase with
    | asking => exact receive_congr hhandle hreleases answer
    | _ => rfl
  | stop alive report =>
    cases phase with
    | stopping completion => exact stop_congr hhandle hreleases completion alive alive report report
    | _ => rfl
  | fire =>
    cases phase with
    | firing completion => exact fire_congr hhandle hreleases completion
    | _ => rfl
  | release =>
    cases phase with
    | releasing =>
      refine congrArg some (essence_congr (.reaping .finished) hhandle ?_)
      simp only [State.release, releases_emit, hreleases]
    | _ => rfl
  | reap =>
    cases phase with
    | reaping ending =>
      refine congrArg some (essence_congr (.ended ending) hhandle ?_)
      simp only [State.reap, releases_emit, hreleases]
      rfl
    | _ => rfl

end

/-- A step that both watches can make leaves them with the same essence. -/
theorem advance_congr (h : essence w₁ = essence w₂) (hshape : a.shape? = b.shape?)
    (hanswer : w₁.1.isAsking = true → a.answer? = b.answer?) :
    (advance settings w₁.1 a w₁.2).map essence = (advance settings w₂.1 b w₂.2).map essence := by
  obtain ⟨phase, s₁⟩ := w₁
  obtain ⟨phase', s₂⟩ := w₂
  rw [essence, essence, Prod.mk.injEq, Prod.mk.injEq] at h
  obtain ⟨rfl, hhandle, hreleases⟩ := h
  rcases shape?_cases hshape with rfl | ⟨answer, answer', rfl, rfl⟩ |
    ⟨alive, report, alive', report', rfl, rfl⟩
  · exact advance_same hhandle hreleases phase a
  · cases phase with
    | asking =>
      obtain rfl : answer = answer' := Option.some.inj (hanswer rfl)
      exact advance_same hhandle hreleases .asking (.receive answer)
    | _ => rfl
  · cases phase with
    | stopping completion =>
      exact stop_congr hhandle hreleases completion alive alive' report report'
    | _ => rfl

/-- A step runs the same callback with the same outcome in both watches. -/
theorem callsOf_congr (h : essence w₁ = essence w₂) (hshape : a.shape? = b.shape?) :
    callsOf w₁ a = callsOf w₂ b := by
  obtain ⟨phase, s₁⟩ := w₁
  obtain ⟨phase', s₂⟩ := w₂
  rw [essence, essence, Prod.mk.injEq, Prod.mk.injEq] at h
  obtain ⟨rfl, hhandle, -⟩ := h
  rcases shape?_cases hshape with rfl | ⟨answer, answer', rfl, rfl⟩ |
    ⟨alive, report, alive', report', rfl, rfl⟩
  · cases a with
    | fire =>
      cases phase with
      | firing completion => simp only [callsOf, Handle.callbackToFire?_congr hhandle]
      | _ => rfl
    | register kind callback =>
      simp only [callsOf, (Handle.register_congr hhandle kind callback).1]
    | _ => rfl
  · rfl
  · rfl

/-- A watch asks its receiver until it gets an answer, and not again. -/
theorem isAsking_advance (hshape : a.shape? ≠ none)
    (h : advance settings w₁.1 a w₁.2 = some w') :
    w'.1.isAsking = (w₁.1.isAsking && a.answer?.isNone) := by
  obtain ⟨phase, s⟩ := w₁
  simp only at h ⊢
  revert h
  fun_cases advance settings phase a s <;> intro h <;> cases h
  case case1 => exact absurd rfl hshape
  case case9 kind callback => exact (Bool.and_true _).symm
  all_goals rfl

end

/-! ### Any number of steps

Two schedules of one shape need not have their steps at the same places, as one of them may ask in
vain where the other does not. `lockstep_of_shapes` puts them side by side, and the induction that
follows has one case for each way to do it.
-/

/-- Schedules of one shape. Until an answer comes, each of them may ask in vain; the answer that
comes is the same in both. -/
inductive Lockstep : (asking : Bool) → List (Action α κ) → List (Action α κ) → Prop
  | done {asking : Bool} : Lockstep asking [] []
  | vainLeft {l r : List (Action α κ)} (h : Lockstep true l r) :
    Lockstep true (.receive (.ok none) :: l) r
  | vainRight {l r : List (Action α κ)} (h : Lockstep true l r) :
    Lockstep true l (.receive (.ok none) :: r)
  | step {asking : Bool} {a b : Action α κ} {l r : List (Action α κ)} (hshape : a.shape? = b.shape?)
    (hcounts : a.shape? ≠ none) (hanswer : asking = true → a.answer? = b.answer?)
    (h : Lockstep (asking && a.answer?.isNone) l r) : Lockstep asking (a :: l) (b :: r)

/-- The table that a watch works on is the one it began with, with a slot of its own identity given
back as often as it has given one back. -/
structure Balanced (i : Identity) (before : Limiter) (s : State α κ) : Prop where
  identity : s.handle.identity = i
  limiter : s.limiter = (fun l ↦ l.release i)^[releases s.effects] before

section

variable {i : Identity} {before : Limiter} {s s' : State α κ}

/-- A balance depends on the identity, the table and the releases. -/
theorem Balanced.congr (h : Balanced i before s)
    (hidentity : s'.handle.identity = s.handle.identity) (hlimiter : s'.limiter = s.limiter)
    (hreleases : releases s'.effects = releases s.effects) :
    Balanced i before s' :=
  ⟨hidentity.trans h.identity, by rw [hlimiter, hreleases, h.limiter]⟩

theorem Balanced.release (h : Balanced i before s) : Balanced i before s.release := by
  refine ⟨h.identity, ?_⟩
  have hcount : releases s.release.effects = releases s.effects + 1 := releases_emit _ _
  rw [hcount, Function.iterate_succ_apply', ← h.limiter, ← h.identity]
  rfl

/-- Every step keeps the balance. -/
theorem Balanced.advance {settings : Settings} {phase phase' : Phase α κ} {a : Action α κ}
    (h : Balanced i before s) (hadvance : advance settings phase a s = some (phase', s')) :
    Balanced i before s' := by
  revert hadvance
  fun_cases Watch.advance settings phase a s <;> intro hadvance
  case case10 => cases hadvance
  all_goals obtain ⟨rfl, rfl⟩ := Prod.mk.inj (Option.some.inj hadvance)
  case case1 | case2 | case4 | case8 => exact h.congr rfl rfl (releases_emit _ _)
  case case3 outcome completion handle s₁ hpublish =>
    have hidentity : handle.identity = s.handle.identity :=
      (congrArg (fun r ↦ r.2.identity) hpublish).symm.trans
        (Handle.identity_publish s.handle outcome)
    refine h.congr hidentity rfl ?_
    rw [releases_emit]
    exact releases_emit _ _
  case case5 completion alive report =>
    rw [stop_eq]
    refine h.congr rfl rfl ?_
    rw [releases_append, releases_stopping]
    rfl
  case case6 completion =>
    rw [State.fire]
    split
    · exact h.congr rfl rfl (releases_emit _ _)
    · exact h
  case case7 => exact h.release
  case case9 kind callback => exact h.congr (s.handle.settled_register kind callback).2 rfl rfl

/-- Steps in turn keep the balance. -/
theorem Balanced.advanceAll {settings : Settings} {actions : List (Action α κ)}
    {w w' : Phase α κ × State α κ} (h : Balanced i before w.2)
    (hall : advanceAll settings actions w = some w') : Balanced i before w'.2 := by
  induction actions generalizing w with
  | nil =>
    cases hall
    exact h
  | cons a actions ih =>
    rw [Watch.advanceAll, Option.bind_eq_some_iff] at hall
    obtain ⟨w₁, hadvance, hall⟩ := hall
    exact ih (h.advance hadvance) hall

end

/-- The answers among the steps. -/
def answersIn (actions : List (Action α κ)) : List (Answer α) :=
  actions.filterMap Action.answer?

section

variable {first : Answer α} {polls : List Bool} {a : Action α κ} {l r idle : List (Action α κ)}

/-- Behind the one answer there are no questions in vain, so the steps go together one by one. -/
theorem lockstep_behind (hshapes : l.filterMap Action.shape? = r.filterMap Action.shape?)
    (hl : ∀ a ∈ l, a.shape? ≠ none) (hr : ∀ b ∈ r, b.shape? ≠ none) : Lockstep false l r := by
  induction l generalizing r with
  | nil =>
    cases r with
    | nil => exact .done
    | cons b r =>
      obtain ⟨shape, hb⟩ := Option.ne_none_iff_exists'.1 (hr b List.mem_cons_self)
      rw [List.filterMap_cons_some hb] at hshapes
      cases hshapes
  | cons a l ih =>
    obtain ⟨shape, ha⟩ := Option.ne_none_iff_exists'.1 (hl a List.mem_cons_self)
    cases r with
    | nil =>
      rw [List.filterMap_cons_some ha] at hshapes
      cases hshapes
    | cons b r =>
      obtain ⟨shape', hb⟩ := Option.ne_none_iff_exists'.1 (hr b List.mem_cons_self)
      rw [List.filterMap_cons_some ha, List.filterMap_cons_some hb, List.cons_eq_cons] at hshapes
      obtain ⟨rfl, hshapes⟩ := hshapes
      exact .step (ha.trans hb.symm) (hl a List.mem_cons_self) nofun
        (ih hshapes (fun c hc ↦ hl c (List.mem_cons_of_mem a hc))
          fun c hc ↦ hr c (List.mem_cons_of_mem b hc))

theorem lockstep_vainRight (hidle : ∀ b ∈ idle, b.shape? = none) (h : Lockstep true l r) :
    Lockstep true l (idle ++ r) := by
  induction idle with
  | nil => exact h
  | cons b idle ih =>
    obtain rfl := Action.shape?_eq_none_iff.1 (hidle b List.mem_cons_self)
    exact .vainRight (ih fun c hc ↦ hidle c (List.mem_cons_of_mem _ hc))

/-- Questions in vain come before the one answer, so their polls found nothing. -/
theorem answersIn_behind_idle (hidle : ∀ b ∈ idle, b.shape? = none) (hne : first ≠ .ok none)
    (h : answersIn (idle ++ r) = answersTo first polls) :
    ∃ polls', answersIn r = answersTo first polls' := by
  induction idle generalizing polls with
  | nil => exact ⟨polls, h⟩
  | cons b idle ih =>
    obtain rfl := Action.shape?_eq_none_iff.1 (hidle b List.mem_cons_self)
    have hcons : .ok none :: answersIn (idle ++ r) = answersTo first polls := h
    match polls with
    | true :: polls => exact absurd (List.cons_eq_cons.1 hcons).1.symm hne
    | false :: polls =>
      exact ih (fun c hc ↦ hidle c (List.mem_cons_of_mem _ hc)) (List.cons_eq_cons.1 hcons).2

/-- A step that counts is no question, or gets the one answer; behind that none is in vain. -/
theorem answer?_of_answersIn (ha : a.shape? ≠ none)
    (h : answersIn (a :: l) = answersTo first polls) :
    a.answer? = none ∧ answersIn l = answersTo first polls ∨
      a.answer? = some first ∧ ∀ b ∈ l, b.shape? ≠ none := by
  rw [answersIn] at h
  cases hanswer : a.answer? with
  | none =>
    rw [List.filterMap_cons_none hanswer] at h
    exact .inl ⟨rfl, h⟩
  | some answer =>
    rw [List.filterMap_cons_some hanswer] at h
    match polls with
    | true :: polls =>
      obtain ⟨rfl, hrest⟩ := List.cons_eq_cons.1 h
      refine .inr ⟨rfl, fun b hb hvain ↦ ?_⟩
      obtain rfl := Action.shape?_eq_none_iff.1 hvain
      have hmem : .ok none ∈ l.filterMap Action.answer? := List.mem_filterMap.2 ⟨_, hb, rfl⟩
      rw [hrest] at hmem
      simp at hmem
    | false :: polls =>
      obtain ⟨rfl, -⟩ := List.cons_eq_cons.1 h
      refine absurd (Action.shape?_eq_none_iff.2 ?_) ha
      cases a <;> cases hanswer
      rfl

end

/-- Schedules of one shape whose receivers give one answer are in lockstep. -/
theorem lockstep_of_shapes {first : Answer α} (hne : first ≠ .ok none) {l r : List (Action α κ)}
    {polls polls' : List Bool} (hl : answersIn l = answersTo first polls)
    (hr : answersIn r = answersTo first polls')
    (hshapes : l.filterMap Action.shape? = r.filterMap Action.shape?) : Lockstep true l r := by
  induction l generalizing r polls polls' with
  | nil =>
    have hidle : ∀ b ∈ r, b.shape? = none := List.filterMap_eq_nil_iff.1 hshapes.symm
    rw [← List.append_nil r]
    exact lockstep_vainRight hidle .done
  | cons a l ih =>
    by_cases ha : a.shape? = none
    · -- the left one asks in vain, and the right one waits for it
      obtain rfl := Action.shape?_eq_none_iff.1 ha
      have hidle : ∀ b ∈ [(.receive (.ok none) : Action α κ)], b.shape? = none := fun b hb ↦ by
        rw [List.mem_singleton.1 hb]
        rfl
      obtain ⟨polls₁, hl'⟩ := answersIn_behind_idle hidle hne hl
      rw [List.filterMap_cons_none ha] at hshapes
      exact .vainLeft (ih hl' hr hshapes)
    · obtain ⟨shape, hshape⟩ := Option.ne_none_iff_exists'.1 ha
      rw [List.filterMap_cons_some hshape, eq_comm, List.filterMap_eq_cons_iff] at hshapes
      obtain ⟨idle, b, r', rfl, hidle, hb, hshapes⟩ := hshapes
      obtain ⟨polls₂, hr'⟩ := answersIn_behind_idle hidle hne hr
      refine lockstep_vainRight hidle ?_
      have hb' : b.shape? ≠ none := by
        rw [hb]
        exact nofun
      -- either both steps get the one answer, or neither of them gets any
      have hsome := isSome_answer?_of_shape (hshape.trans hb.symm)
      rcases answer?_of_answersIn ha hl with ⟨hnone, hl'⟩ | ⟨hanswer, hl'⟩
      · rcases answer?_of_answersIn hb' hr' with ⟨hnone', hr''⟩ | ⟨hanswer', -⟩
        · refine .step (hshape.trans hb.symm) ha (fun _ ↦ hnone.trans hnone'.symm) ?_
          rw [hnone]
          exact ih hl' hr'' hshapes.symm
        · rw [hnone, hanswer'] at hsome
          cases hsome
      · rcases answer?_of_answersIn hb' hr' with ⟨hnone', -⟩ | ⟨hanswer', hr''⟩
        · rw [hanswer, hnone'] at hsome
          cases hsome
        · refine .step (hshape.trans hb.symm) ha (fun _ ↦ hanswer.trans hanswer'.symm) ?_
          rw [hanswer]
          exact lockstep_behind hshapes.symm hl' hr''

/-- A watch that asks in vain is where it was. -/
theorem advanceAll_vain (settings : Settings) (l : List (Action α κ)) {w : Phase α κ × State α κ}
    (h : w.1.isAsking = true) :
    ∃ w', advanceAll settings (.receive (.ok none) :: l) w = advanceAll settings l w' ∧
      callsOfAll settings (.receive (.ok none) :: l) w = callsOfAll settings l w' ∧
      essence w' = essence w ∧ w'.1.isAsking = true := by
  obtain ⟨phase, s⟩ := w
  cases phase with
  | asking =>
    refine ⟨(.asking, s.emit (.asked settings.pollInterval)), rfl, rfl, ?_, rfl⟩
    refine essence_congr .asking rfl ?_
    rw [releases_emit]
    rfl
  | _ => cases h

/-- Whether a watch asks is told by its essence. -/
theorem isAsking_eq {w₁ w₂ : Phase α κ × State α κ} (h : essence w₁ = essence w₂) :
    w₁.1.isAsking = w₂.1.isAsking :=
  congrArg (fun e : Phase α κ × Handle α κ × Nat ↦ e.1.isAsking) h

/-- Watches in lockstep come to the same essence, or neither of them can make all its steps; and on
the way they run the same callbacks. -/
theorem advanceAll_of_lockstep {settings : Settings} {asking : Bool} {l r : List (Action α κ)}
    (hl : Lockstep asking l r) {w₁ w₂ : Phase α κ × State α κ} (h : essence w₁ = essence w₂)
    (hasking : w₁.1.isAsking = asking) :
    (advanceAll settings l w₁).map essence = (advanceAll settings r w₂).map essence ∧
      callsOfAll settings l w₁ = callsOfAll settings r w₂ := by
  induction hl generalizing w₁ w₂ with
  | done => exact ⟨congrArg some h, rfl⟩
  | vainLeft hl ih =>
    obtain ⟨w', hall, hcalls, hessence, hasking'⟩ := advanceAll_vain settings _ hasking
    rw [hall, hcalls]
    exact ih (hessence.trans h) hasking'
  | vainRight hl ih =>
    have hasking₂ := (isAsking_eq h).symm.trans hasking
    obtain ⟨w', hall, hcalls, hessence, -⟩ := advanceAll_vain settings _ hasking₂
    rw [hall, hcalls]
    exact ih (h.trans hessence.symm) hasking
  | @step asking a b l r hshape hcounts hanswer hl ih =>
    have hadvance : (advance settings w₁.1 a w₁.2).map essence =
        (advance settings w₂.1 b w₂.2).map essence :=
      advance_congr h hshape fun ha ↦ hanswer (hasking.symm.trans ha)
    have hcallsOf := callsOf_congr h hshape
    -- both make the step, or both are at their end
    simp only [advanceAll, callsOfAll]
    cases h₁ : advance settings w₁.1 a w₁.2 with
    | none =>
      rw [h₁, Option.map_none, eq_comm, Option.map_eq_none_iff] at hadvance
      rw [hadvance]
      exact ⟨rfl, rfl⟩
    | some w₁' =>
      rw [h₁, Option.map_some, eq_comm, Option.map_eq_some_iff] at hadvance
      obtain ⟨w₂', h₂, hessence⟩ := hadvance
      have hasking' : w₁'.1.isAsking = (asking && a.answer?.isNone) := by
        rw [isAsking_advance hcounts h₁, hasking]
      obtain ⟨hall, hcalls⟩ := ih hessence.symm hasking'
      rw [h₂, hcallsOf]
      exact ⟨hall, congrArg _ hcalls⟩

end Watch

end Offload
