import Offload.Proofs.Counters

/-!
# Admissions to one counter

Callers try to be admitted under limits of their own, and give back, through any references to one
table and in any order, while others use the limiters for other identities. What becomes of one
identity in one table is what becomes of a counter that takes the steps meant for it
(`inFlight_afterFrom`, `answersOn_eq`): each operation checks and counts in one step.

So what is left is a counter. Of tries under one limit the first ones are admitted, as many as there
is room for (`Counter.answers_replicate`). Under different limits the counter never passes the
largest of them, unless it stood higher before (`Counter.countFrom_le`). It never passes the range
of a machine word either, so a counter in a word counts the same (`Counter.toNat_foldl_wordStep`).

Each operation is atomic here, as it is behind the lock of a table. A race of callers is then the
order in which they come to the lock, and that order is the list of operations. It is quantified
over, so nothing is assumed about who comes first.

A word of 64 bits wraps around where a number does not. `wordStep` is written with the wrapping sum
on purpose; that it never wraps around is a theorem about the check in front of the sum
(`Counter.toNat_wordStep`).
-/

namespace Offload

namespace Counter

variable {n most : Nat} {steps : List Step}

/-- What a counter comes to that stands at `n`. -/
def countFrom (n : Nat) (steps : List Step) : Nat :=
  steps.foldl step n

/-- The answers to the tries among the steps of a counter that stands at `n`. -/
def answers : (n : Nat) → List Step → List Bool
  | _, [] => []
  | n, .enter limit :: rest => goesUp n limit :: answers (step n (.enter limit)) rest
  | n, .release :: rest => answers (step n .release) rest

/-- Steps in two parts are taken in turn. -/
theorem countFrom_append (n : Nat) (steps more : List Step) :
    countFrom n (steps ++ more) = countFrom (countFrom n steps) more :=
  List.foldl_append

/-- The second part is answered from where the first one led. -/
theorem answers_append (n : Nat) (steps more : List Step) :
    answers n (steps ++ more) = answers n steps ++ answers (countFrom n steps) more := by
  induction steps generalizing n with
  | nil => rfl
  | cons step rest ih => cases step <;> simp [answers, ih, countFrom]

/-- A try under a bound adds one below it and nothing from there on. -/
theorem step_atMost (n bound : Nat) :
    step n (.enter (.atMost bound)) = if n < bound then n + 1 else n := by
  simp only [step, goesUp, decide_eq_true_eq]

/-! ### One limit

Tries under one limit are a closed form: as many are admitted as there was room for, and these are
the first ones. Nothing is said about fairness between callers, as the order of the tries is the
order of the list.
-/

/-- Tries under one bound fill the counter up to it, or change nothing if it stood there before. -/
theorem countFrom_replicate (n bound tries : Nat) :
    countFrom n (List.replicate tries (.enter (.atMost bound))) =
      max n (min bound (n + tries)) := by
  induction tries generalizing n with
  | zero =>
    show n = _
    omega
  | succ tries ih =>
    show countFrom (step n (.enter (.atMost bound))) (List.replicate tries _) = _
    rw [ih, step_atMost]
    split <;> omega

/-- Tries are admitted until there is no room left. -/
theorem answers_replicate (n bound tries : Nat) :
    answers n (List.replicate tries (.enter (.atMost bound))) =
      List.replicate (min tries (bound - n)) true ++
        List.replicate (tries - min tries (bound - n)) false := by
  induction tries generalizing n with
  | zero => simp [answers]
  | succ tries ih =>
    rw [List.replicate_succ, answers, ih, step_atMost]
    by_cases hroom : n < bound
    · have hmore : min (tries + 1) (bound - n) = min tries (bound - (n + 1)) + 1 := by omega
      rw [if_pos hroom, hmore, Nat.add_sub_add_right, List.replicate_succ, List.cons_append]
      simp [goesUp, hroom]
    · have hnone : bound - n = 0 := by omega
      simp [goesUp, hroom, hnone, List.replicate_succ]

/-! ### Any limits

Callers of one key may have limits of their own, and one with a high limit may fill a counter beyond
the limit of another. What holds then is less: the largest limit bounds the count, and a try is
judged by its own.
-/

/-- Whether a step is a try under a limit of at most `most`, or gives back. -/
def Step.KeepsTo (most : Nat) : Step → Prop
  | .enter limit => ∃ bound, limit = .atMost bound ∧ bound ≤ most
  | .release => True

/-- One step passes neither its own bound nor where the counter stood. -/
theorem step_le {step : Step} (h : step.KeepsTo most) (n : Nat) :
    Counter.step n step ≤ max n most := by
  cases step with
  | enter limit =>
    obtain ⟨bound, rfl, hbound⟩ := h
    rw [step_atMost]
    split <;> omega
  | release => exact Nat.le_trans (Nat.sub_le n 1) (Nat.le_max_left n most)

/-- No run of steps passes the largest of their bounds, unless the counter stood higher at the
start. -/
theorem countFrom_le (h : ∀ step ∈ steps, step.KeepsTo most) (n : Nat) :
    countFrom n steps ≤ max n most := by
  induction steps generalizing n with
  | nil => exact Nat.le_max_left n most
  | cons step rest ih =>
    calc countFrom (Counter.step n step) rest
      _ ≤ max (Counter.step n step) most := ih (fun s hs ↦ h s (List.mem_cons_of_mem _ hs)) _
      _ ≤ max n most := by
        have hstep := step_le (h step List.mem_cons_self) n
        omega

/-! ### Machine words

The bound that a word needs is not assumed. A sum is only made below a limit, and a limit is a word
itself.
-/

/-- A step of a counter in a machine word, whose limits are words. -/
inductive WordStep where
  | enter (bound : UInt64)
  | release

/-- The step that a step in a machine word stands for. -/
def WordStep.toStep : WordStep → Step
  | .enter bound => .enter (.atMost bound.toNat)
  | .release => .release

/-- One step in a machine word. Its sum wraps around. -/
def wordStep (n : UInt64) : WordStep → UInt64
  | .enter bound => if n < bound then n + 1 else n
  | .release => if 0 < n then n - 1 else n

/-- The sum stays below a bound that is a word itself. -/
theorem toNat_wordStep (n : UInt64) (step : WordStep) :
    (wordStep n step).toNat = Counter.step n.toNat step.toStep := by
  cases step with
  | enter bound =>
    rw [wordStep, WordStep.toStep, step_atMost]
    by_cases hroom : n < bound
    · have hword : n.toNat + 1 < 2 ^ 64 :=
        Nat.lt_of_le_of_lt (UInt64.lt_iff_toNat_lt.1 hroom) bound.toNat_lt
      rw [if_pos hroom, if_pos (UInt64.lt_iff_toNat_lt.1 hroom), UInt64.toNat_add]
      exact Nat.mod_eq_of_lt hword
    · rw [if_neg hroom, if_neg fun h ↦ hroom (UInt64.lt_iff_toNat_lt.2 h)]
  | release =>
    show (if 0 < n then n - 1 else n).toNat = n.toNat - 1
    by_cases hpos : 0 < n
    · rw [if_pos hpos]
      exact UInt64.toNat_sub_of_le n 1 (UInt64.le_iff_toNat_le.2 (UInt64.lt_iff_toNat_lt.1 hpos))
    · have hzero : ¬ 0 < n.toNat := fun h ↦ hpos (UInt64.lt_iff_toNat_lt.2 h)
      rw [if_neg hpos]
      omega

/-- The last count that a word holds is reached, and not passed. -/
example : [.enter 18446744073709551615, .enter 18446744073709551615].foldl wordStep
    18446744073709551614 = 18446744073709551615 := by decide

/-- Counting in a word never wraps around. -/
theorem toNat_foldl_wordStep (n : UInt64) (steps : List WordStep) :
    (steps.foldl wordStep n).toNat = countFrom n.toNat (steps.map WordStep.toStep) := by
  induction steps generalizing n with
  | nil => rfl
  | cons step rest ih =>
    rw [List.foldl_cons, ih, toNat_wordStep]
    rfl

end Counter

namespace Limiters

open Counter (countFrom)

variable {ls : Limiters} {r p : Nat} {key : Identity.Key}

/-- The family that operations make of another one. -/
def afterFrom (ls : Limiters) (ops : List Operation) : Limiters :=
  ops.foldl (fun ls op ↦ (ls.perform op).2) ls

/-- The answer to a try. -/
def Reply.admitted? : Reply → Option Bool
  | admitted b => some b
  | _ => none

/-- The steps that operations take on the counter of a key in the table at the position `p`. -/
def stepsOn (p : Nat) (key : Identity.Key) : Limiters → List Operation → List Counter.Step
  | _, [] => []
  | ls, op :: rest => op.steps ls.references p key ++ stepsOn p key (ls.perform op).2 rest

/-- What one operation answers, if it is a try on that counter. -/
def answerOn (p : Nat) (key : Identity.Key) (ls : Limiters) (op : Operation) : List Bool :=
  if (op.steps ls.references p key).isEmpty then [] else (ls.perform op).1.admitted?.toList

/-- The answers to the tries on that counter. -/
def answersOn (p : Nat) (key : Identity.Key) : Limiters → List Operation → List Bool
  | _, [] => []
  | ls, op :: rest => answerOn p key ls op ++ answersOn p key (ls.perform op).2 rest

/-- A reference that stands for the table at a position. -/
structure Stands (ls : Limiters) (r p : Nat) : Prop where
  position? : ls.position? r = some p
  lt_length : p < ls.tables.length

namespace Stands

/-- A reference that stands for a position has the table there. -/
theorem exists_get? (h : Stands ls r p) : ∃ table, ls.get? r = some table := by
  have hlt := h.lt_length
  exact ⟨ls.tables[p], by rw [get?, h.position?, Option.bind_some, List.getElem?_eq_getElem hlt]⟩

/-- Tables change, and references stand where they stood. -/
theorem set (h : Stands ls r p) (r' : Nat) (table : Limiter) : Stands (ls.set r' table) r p := by
  refine ⟨by rw [position?_set, h.position?], ?_⟩
  rw [Limiters.set]
  split
  · rw [List.length_set]
    exact h.lt_length
  · exact h.lt_length

/-- More references and more tables behind the others change nothing for those that are there. -/
theorem append (h : Stands ls r p) (tables : List Limiter) (references : List Nat) :
    Stands ⟨ls.tables ++ tables, ls.references ++ references⟩ r p ∧
      Limiters.get? ⟨ls.tables ++ tables, ls.references ++ references⟩ r = ls.get? r := by
  have hr : r < ls.references.length := (List.getElem?_eq_some_iff.1 h.position?).1
  have hposition : Limiters.position? ⟨ls.tables ++ tables, ls.references ++ references⟩ r =
      some p := by
    rw [Limiters.position?, List.getElem?_append_left hr]
    exact h.position?
  refine ⟨⟨hposition, ?_⟩, ?_⟩
  · rw [List.length_append]
    exact Nat.lt_add_right _ h.lt_length
  · rw [get?, hposition, get?, h.position?, Option.bind_some, Option.bind_some,
      List.getElem?_append_left h.lt_length]

/-- A new reference changes nothing for those that are there. -/
theorem clone (h : Stands ls r p) (r' : Nat) :
    Stands (ls.clone r').2 r p ∧ (ls.clone r').2.get? r = ls.get? r := by
  have happend := h.append [] [(ls.position? r').getD ls.tables.length]
  rwa [List.append_nil] at happend

theorem perform (h : Stands ls r p) (op : Operation) : Stands (ls.perform op).2 r p := by
  cases op with
  | new => exact (h.append _ _).1
  | clone r' => exact (h.clone r').1
  | enter r' i limit =>
    show Stands (ls.enter r' i limit).2 r p
    rw [Limiters.enter]
    split
    · exact h.set r' _
    · exact h
  | release r' i =>
    show Stands (ls.release r' i) r p
    rw [Limiters.release]
    split
    · exact h.set r' _
    · exact h
  | inFlight r' i => exact h

theorem afterFrom (h : Stands ls r p) (ops : List Operation) : Stands (ls.afterFrom ops) r p := by
  induction ops generalizing ls with
  | nil => exact h
  | cons op rest ih => exact ih (h.perform op)

/-- An admission is a step of the counter if it is in the same table for the same key, and else it
is none. -/
theorem inFlight_enter (h : Stands ls r p) (i : Identity) (r' : Nat) (j : Identity)
    (limit : Limit) :
    (ls.enter r' j limit).2.inFlight r i =
      if ls.position? r' = some p ∧ j.key = i.key then
        Counter.step (ls.inFlight r i) (.enter limit)
      else ls.inFlight r i := by
  by_cases hon : ls.position? r' = some p ∧ j.key = i.key
  · obtain ⟨table, hget⟩ := exists_get? ⟨hon.1, h.lt_length⟩
    rw [if_pos hon, Limiters.inFlight_enter hget,
      inFlight_congr (hon.1.trans h.position?.symm) hon.2]
    simp [Counter.step, ← Counter.admits_eq_goesUp, hon, h.position?]
  · rw [if_neg hon]
    rcases hget : ls.get? r' with - | table
    · rw [Limiters.enter, hget]
    · rw [Limiters.inFlight_enter hget, if_neg]
      rintro ⟨-, hr, hkey⟩
      exact hon ⟨hr.symm.trans h.position?, hkey.symm⟩

/-- A release is one step of the count of its identity, in its own table. -/
theorem inFlight_release (h : Stands ls r p) (i : Identity) (r' : Nat) (j : Identity) :
    (ls.release r' j).inFlight r i =
      if ls.position? r' = some p ∧ j.key = i.key then
        Counter.step (ls.inFlight r i) .release
      else ls.inFlight r i := by
  by_cases hon : ls.position? r' = some p ∧ j.key = i.key
  · obtain ⟨table, hget⟩ := exists_get? ⟨hon.1, h.lt_length⟩
    rw [if_pos hon, Limiters.inFlight_release hget]
    simp [Counter.step, hon, h.position?]
  · rw [if_neg hon]
    rcases hget : ls.get? r' with - | table
    · rw [Limiters.release, hget]
    · rw [Limiters.inFlight_release hget, if_neg]
      rintro ⟨hr, hkey⟩
      exact hon ⟨hr.symm.trans h.position?, hkey.symm⟩

/-- One operation is the step that it takes on the counter. -/
theorem inFlight_perform (h : Stands ls r p) (i : Identity) (op : Operation) :
    (ls.perform op).2.inFlight r i =
      countFrom (ls.inFlight r i) (op.steps ls.references p i.key) := by
  cases op with
  | new =>
    have hget : (ls.perform .new).2.get? r = ls.get? r := (h.append _ _).2
    rw [inFlight, hget]
    rfl
  | clone r' =>
    have hget : (ls.perform (.clone r')).2.get? r = ls.get? r := (h.clone r').2
    rw [inFlight, hget]
    rfl
  | enter r' j limit =>
    show (ls.enter r' j limit).2.inFlight r i =
      countFrom _ (if ls.position? r' = some p ∧ j.key = i.key then [.enter limit] else [])
    rw [h.inFlight_enter]
    split <;> rfl
  | release r' j =>
    show (ls.release r' j).inFlight r i =
      countFrom _ (if ls.position? r' = some p ∧ j.key = i.key then [.release] else [])
    rw [h.inFlight_release]
    split <;> rfl
  | inFlight r' j => rfl

/-- A try is answered as the counter answers it. -/
theorem answerOn_eq (h : Stands ls r p) (i : Identity) (op : Operation) :
    answerOn p i.key ls op =
      Counter.answers (ls.inFlight r i) (op.steps ls.references p i.key) := by
  cases op with
  | enter r' j limit =>
    have hsteps : (Operation.enter r' j limit).steps ls.references p i.key =
      if ls.position? r' = some p ∧ j.key = i.key then [.enter limit] else [] := rfl
    rw [answerOn, hsteps]
    split
    · next hon =>
      obtain ⟨table, hget⟩ := exists_get? ⟨hon.1, h.lt_length⟩
      have hsame : ls.inFlight r' j = ls.inFlight r i :=
        inFlight_congr (hon.1.trans h.position?.symm) hon.2
      show [(ls.enter r' j limit).1] = _
      rw [enter_fst hget, hsame, Counter.admits_eq_goesUp]
      rfl
    · rfl
  | release r' j =>
    have hsteps : (Operation.release r' j).steps ls.references p i.key =
      if ls.position? r' = some p ∧ j.key = i.key then [.release] else [] := rfl
    rw [answerOn, hsteps]
    split <;> rfl
  | new | clone | inFlight => rfl

end Stands

/-! ### Runs

The steps of all other references and identities are filtered out, and what is left is a list of
steps of one counter. The theorems about counters apply to that list as it is.
-/

/-- A count after a run is what the counter comes to with the steps meant for it. -/
theorem inFlight_afterFrom (h : Stands ls r p) (i : Identity) (ops : List Operation) :
    (ls.afterFrom ops).inFlight r i = countFrom (ls.inFlight r i) (stepsOn p i.key ls ops) := by
  induction ops generalizing ls with
  | nil => rfl
  | cons op rest ih =>
    show ((ls.perform op).2.afterFrom rest).inFlight r i = _
    rw [ih (h.perform op), h.inFlight_perform, stepsOn, Counter.countFrom_append]

/-- The answers to the tries are those that the counter gives. -/
theorem answersOn_eq (h : Stands ls r p) (i : Identity) (ops : List Operation) :
    answersOn p i.key ls ops =
      Counter.answers (ls.inFlight r i) (stepsOn p i.key ls ops) := by
  induction ops generalizing ls with
  | nil => rfl
  | cons op rest ih =>
    rw [answersOn, stepsOn, Counter.answers_append, h.answerOn_eq, ih (h.perform op),
      h.inFlight_perform]

/-- The steps of a part of a run are a part of its steps. -/
theorem stepsOn_append (ls : Limiters) (before rest : List Operation) :
    stepsOn p key ls (before ++ rest) =
      stepsOn p key ls before ++ stepsOn p key (ls.afterFrom before) rest := by
  induction before generalizing ls with
  | nil => rfl
  | cons op before ih => simp only [List.cons_append, stepsOn, ih, List.append_assoc]; rfl

/-- What a run of operations does to the count of an identity in the table of a reference. -/
structure Admissions (ls : Limiters) (r p : Nat) (i : Identity) (ops : List Operation) : Prop where
  /-- Of tries under one limit, the first ones are admitted, as many as there is room for. -/
  race : ∀ bound tries, stepsOn p i.key ls ops = List.replicate tries (.enter (.atMost bound)) →
    let admitted := min tries (bound - ls.inFlight r i)
    answersOn p i.key ls ops =
        List.replicate admitted true ++ List.replicate (tries - admitted) false ∧
      (ls.afterFrom ops).inFlight r i =
        max (ls.inFlight r i) (min bound (ls.inFlight r i + tries))
  /-- At every moment, the count is at most the largest limit or what it was at the start. -/
  bounded : ∀ most, (∀ step ∈ stepsOn p i.key ls ops, step.KeepsTo most) →
    ∀ before, before <+: ops → (ls.afterFrom before).inFlight r i ≤ max (ls.inFlight r i) most
  /-- An admission adds one, up to its own limit. -/
  admitted : ∀ before r' j bound, before ++ [.enter r' j (.atMost bound)] <+: ops →
    (ls.afterFrom before).position? r' = some p → j.key = i.key →
    ((ls.afterFrom before).enter r' j (.atMost bound)).1 = true →
      (ls.afterFrom (before ++ [.enter r' j (.atMost bound)])).inFlight r i =
          (ls.afterFrom before).inFlight r i + 1 ∧
        (ls.afterFrom before).inFlight r i + 1 ≤ bound
  /-- A counter in a machine word that takes the same steps counts the same. -/
  word : ∀ (start : UInt64) (steps : List Counter.WordStep), start.toNat = ls.inFlight r i →
    stepsOn p i.key ls ops = steps.map Counter.WordStep.toStep →
      (steps.foldl Counter.wordStep start).toNat = (ls.afterFrom ops).inFlight r i

/-- Whatever the limiters are used for in between, tries on one counter are answered in the order in
which they come, and no count passes its bounds. -/
theorem admissions_of_stands (h : Stands ls r p) (i : Identity) (ops : List Operation) :
    Admissions ls r p i ops := by
  refine ⟨fun bound tries hsteps ↦ ⟨?_, ?_⟩, fun most hkeeps before hbefore ↦ ?_,
    fun before r' j bound _ hr' hkey hadmitted ↦ ?_, fun start steps hstart hsteps ↦ ?_⟩
  · rw [answersOn_eq h, hsteps, Counter.answers_replicate]
  · rw [inFlight_afterFrom h, hsteps, Counter.countFrom_replicate]
  · obtain ⟨rest, rfl⟩ := hbefore
    rw [inFlight_afterFrom h]
    refine Counter.countFrom_le (fun step hstep ↦ hkeeps step ?_) _
    rw [stepsOn_append]
    exact List.mem_append_left _ hstep
  · have hstands := h.afterFrom before
    obtain ⟨table, hget⟩ := Stands.exists_get? ⟨hr', hstands.lt_length⟩
    rw [enter_fst hget, inFlight_congr (hr'.trans hstands.position?.symm) hkey,
      Limit.admits_atMost] at hadmitted
    have hafter : ls.afterFrom (before ++ [.enter r' j (.atMost bound)]) =
        ((ls.afterFrom before).enter r' j (.atMost bound)).2 := List.foldl_concat ..
    rw [hafter, hstands.inFlight_enter, if_pos ⟨hr', hkey⟩, Counter.step_atMost, if_pos hadmitted]
    exact ⟨rfl, hadmitted⟩
  · rw [Counter.toNat_foldl_wordStep, hstart, inFlight_afterFrom h, hsteps]

/-- Three tries through three references to one table, the last of which is made on the way, with a
try in another table and a release of another identity in between. -/
theorem admissions_of_stands_clone :
    let a := Identity.keyed "a"
    let ls := after [.new, .clone 0, .new, .enter 0 a (.atMost 9)]
    let ops := [.enter 0 a (.atMost 3), .enter 2 a .unbounded, .enter 1 a (.atMost 3), .clone 1,
      .release 0 (.keyed "b"), .enter 3 a (.atMost 3)]
    Stands ls 1 0 ∧ stepsOn 0 a.key ls ops = List.replicate 3 (.enter (.atMost 3)) ∧
      answersOn 0 a.key ls ops = [true, true, false] ∧ Admissions ls 1 0 a ops := by
  intro a ls ops
  have hstands : Stands ls 1 0 := ⟨by decide, by decide⟩
  exact ⟨hstands, by decide, by decide, admissions_of_stands hstands a ops⟩

end Limiters

end Offload
