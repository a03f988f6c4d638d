import Offload.Proofs.Duration
import Offload.Proofs.Interval
import Offload.Proofs.Settings.Environment

/-!
# Settings after any revisions

Settings start as the defaults and are then replaced by those of a document, of a file or of the
environment, or overridden by variables, in any order and any number of times (`revise`). Each of
these sources treats zero in its own way, but whatever they give is a count of milliseconds of 64
bits, and never zero for the poll interval (`Counted`, kept by each revision in `Counted.revise`).

Two things follow that no source checks. A watch never waits for nothing and never waits for ever:
what its receiver hands to the system, as a signed word of 32 bits, lies between one millisecond and
the greatest such word. And the longest time of a termination exists (`Bounded`). For durations that
are chosen in the program it exists unless the sum is beyond the last second that a word counts
(`Summed`).

The conversions are where this could go wrong. Milliseconds are turned into seconds and nanoseconds,
added with a carry, turned back into milliseconds in 128 bits and cut down to a signed word of 32.
Each of them is exact or saturates, and which of the two is decided by bounds on the counts alone.
-/

namespace Offload

namespace Settings

/-- What settings are changed by. -/
inductive Revision
  /-- The settings of a document in their place, if it has some. -/
  | document (text : String)
  /-- The settings of a file in their place, if it has some. -/
  | file (path : String) (content : Except (Option String) Wire.Bytes)
  /-- The settings of the environment in their place. -/
  | environment (env : Environment)
  /-- What the environment gives in the place of single fields. -/
  | override (env : Environment)

/-- The settings after a revision. A document or a file that is rejected changes nothing. -/
def revise (s : Settings) : Revision → Settings
  | .document text => (ofToml text).toOption.getD s
  | .file path content => (load path content).toOption.getD s
  | .environment env => ofEnvironment env
  | .override env => s.override env

/-- A number of milliseconds of 64 bits, not less than the given one. -/
def IsCount (least : Nat) (d : Duration) : Prop :=
  ∃ m, least ≤ m ∧ m < 2 ^ 64 ∧ d.nanos = m * 1000000

/-- All times are counts of milliseconds, and the poll interval is not zero. -/
structure Counted (s : Settings) : Prop where
  pollInterval : IsCount 1 s.pollInterval
  gracePeriod : IsCount 0 s.termination.gracePeriod
  killWait : IsCount 0 s.termination.killWait

section Counted

variable {s : Settings} {d : Duration} {least : Nat}

/-- A word of milliseconds makes a duration that is counted in milliseconds. -/
theorem isCount_ofMillis {ms : UInt64} (h : least ≤ ms.toNat) : IsCount least (.ofMillis ms) :=
  ⟨ms.toNat, h, ms.toNat_lt, rfl⟩

/-- What is at least one millisecond is at least none. -/
theorem IsCount.mono (h : IsCount 1 d) : IsCount 0 d := by
  obtain ⟨m, -, hlt, hd⟩ := h
  exact ⟨m, Nat.zero_le m, hlt, hd⟩

/-- The defaults are counts of milliseconds, and the default poll interval is not zero. -/
theorem counted_default : Counted default where
  pollInterval := isCount_ofMillis (by decide)
  gracePeriod := isCount_ofMillis (Nat.zero_le _)
  killWait := isCount_ofMillis (Nat.zero_le _)

/-- A missing field has its default, and any other is a count. -/
theorem isCount_getD {ms? : Option UInt64} {d : Duration} (hd : IsCount least d)
    (h : ∀ ms, ms? = some ms → least ≤ ms.toNat) :
    IsCount least ((ms?.map Duration.ofMillis).getD d) := by
  cases ms? with
  | none => exact hd
  | some ms => exact isCount_ofMillis (h ms rfl)

/-- A document with a poll interval of zero has no settings. -/
theorem counted_of_draft {draft : Draft} (h : draft.settings = .ok s) : Counted s := by
  unfold Draft.settings at h
  split at h
  · cases h
  · next hzero =>
    obtain rfl := Except.ok.inj h
    refine ⟨isCount_getD counted_default.pollInterval fun ms hms ↦ ?_,
      isCount_getD counted_default.gracePeriod fun _ _ ↦ Nat.zero_le _,
      isCount_getD counted_default.killWait fun _ _ ↦ Nat.zero_le _⟩
    refine Nat.one_le_iff_ne_zero.2 fun hms' ↦ hzero ?_
    rw [hms, ← UInt64.toNat_inj.1 (hms'.trans UInt64.toNat_zero.symm)]

/-- Settings that are read off entries are counted: a poll interval of zero is rejected when all of
them have been looked at. -/
theorem counted_of_entries {es : Toml.Entries} (h : ofEntries es = .ok s) : Counted s := by
  unfold ofEntries at h
  split at h
  · exact counted_of_draft h
  · cases h

theorem counted_of_ofToml {text : String} (h : ofToml text = .ok s) : Counted s := by
  obtain ⟨es, -, hs⟩ := ofText_eq_ok_iff.1 (ofToml_eq_ok_iff.1 h)
  exact counted_of_entries hs

theorem counted_of_load {path : String} {content : Except (Option String) Wire.Bytes}
    (h : load path content = .ok s) : Counted s := by
  obtain ⟨es, -, hs⟩ := load_eq_ok_iff.1 h
  exact counted_of_entries hs

/-- The environment gives no zero. -/
theorem isCount_of_read {v : Variable} {env : Environment} (h : v.read env = some d) :
    IsCount 1 d := by
  by_cases hgiven : ∃ m, v.Given env m
  · obtain ⟨m, hm⟩ := hgiven
    obtain ⟨d', hread, hd'⟩ := Variable.read_of_given hm
    obtain ⟨text, -, hmillis⟩ := hm
    obtain rfl := Option.some.inj (hread.symm.trans h)
    exact ⟨m, hmillis.pos, Nat.lt_of_le_of_lt hmillis.le (by decide), hd'⟩
  · rw [Variable.read_eq_none (not_exists.1 hgiven)] at h
    cases h

/-- A variable gives a count, and a time that it does not give was one before. -/
theorem isCount_of_getD {v : Variable} {env : Environment} (hd : IsCount least d)
    (hleast : least ≤ 1) : IsCount least ((v.read env).getD d) := by
  cases hread : v.read env with
  | none => exact hd
  | some d' =>
    obtain ⟨m, hm, hlt, hd'⟩ := isCount_of_read hread
    exact ⟨m, Nat.le_trans hleast hm, hlt, hd'⟩

namespace Counted

theorem override (h : Counted s) (env : Environment) : Counted (s.override env) where
  pollInterval := isCount_of_getD h.pollInterval (Nat.le_refl 1)
  gracePeriod := isCount_of_getD h.gracePeriod (Nat.zero_le 1)
  killWait := isCount_of_getD h.killWait (Nat.zero_le 1)

/-- Settings that take the place of others are counted too, or there are none. -/
theorem getD {read : Except TaskError Settings} (h : Counted s)
    (hread : ∀ t, read = .ok t → Counted t) : Counted (read.toOption.getD s) := by
  cases read with
  | ok t => exact hread t rfl
  | error e => exact h

theorem revise (h : Counted s) (revision : Revision) : Counted (s.revise revision) := by
  cases revision with
  | document text => exact h.getD fun _ ↦ counted_of_ofToml
  | file path content => exact h.getD fun _ ↦ counted_of_load
  | environment env => exact counted_default.override env
  | override env => exact h.override env

/-- Revisions in any order keep the counts. -/
theorem reviseAll (h : Counted s) (revisions : List Revision) :
    Counted (revisions.foldl Settings.revise s) := by
  induction revisions generalizing s with
  | nil => exact h
  | cons revision revisions ih => exact ih (h.revise revision)

/-- A counted poll interval is at least a million nanoseconds. -/
theorem le_pollInterval (h : Counted s) : 1000000 ≤ s.pollInterval.nanos := by
  obtain ⟨m, hm, -, hd⟩ := h.pollInterval
  omega

/-- Two counts of milliseconds have a sum. -/
theorem exists_longest (h : Counted s) : ∃ d, s.termination.longest? = some d ∧
    d.nanos = s.termination.gracePeriod.nanos + s.termination.killWait.nanos := by
  obtain ⟨m, -, hm, hgrace⟩ := h.gracePeriod
  obtain ⟨n, -, hn, hkill⟩ := h.killWait
  have hlt : s.termination.gracePeriod.nanos + s.termination.killWait.nanos <
      2 ^ 64 * 1000000000 := by omega
  exact ⟨⟨_, hlt⟩, Duration.add?_eq_some_iff.2 rfl, rfl⟩

end Counted

end Counted

/-! ### What follows -/

/-- What holds of settings that no program has chosen the durations of. -/
structure Bounded (s : Settings) : Prop where
  pollInterval : 1000000 ≤ s.pollInterval.nanos
  /-- Whenever a watch asks its receiver, the system is told to wait for at least a millisecond, and
  not for ever. -/
  waits : ∀ (α κ : Type) (panics : κ → Bool) (worker : Watch.Worker κ)
    (arrivals : List (Watch.Arrival α κ)) (handle : Handle α κ) (limiter : Limiter) (d : Duration),
    .asked d ∈ (Watch.run panics s worker arrivals { handle, limiter }).2.effects →
      1 ≤ (Channel.Pipe.waitWord d).toInt ∧ (Channel.Pipe.waitWord d).toInt ≤ 2 ^ 31 - 1
  /-- The longest time of a termination exists, and is the sum. -/
  longest : ∃ d, s.termination.longest? = some d ∧
    d.nanos = s.termination.gracePeriod.nanos + s.termination.killWait.nanos

/-- Counted settings keep what the system allows for: the interval as a word, and the sum of the
times of a termination as a duration. -/
theorem Counted.bounded {s : Settings} (h : Counted s) : Bounded s where
  pollInterval := h.le_pollInterval
  waits α κ panics worker arrivals handle limiter d hd := by
    have hasks := Watch.asksFor_run panics s worker arrivals (s := { handle, limiter }) nofun
    rw [hasks d hd]
    exact Channel.Pipe.waitWord_bounds h.le_pollInterval
  longest := h.exists_longest

/-- What the longest time of a termination is for two durations that a program has chosen. -/
structure Summed (p : TerminationPolicy) (grace kill : Duration) : Prop where
  /-- There is none if the sum is beyond the last nanosecond of the last second. -/
  overflows_iff : p.longest? = none ↔
    (2 ^ 64 - 1) * 1000000000 + 999999999 < grace.nanos + kill.nanos
  /-- Else it is the sum. -/
  exact : ∀ d, p.longest? = some d ↔ d.nanos = grace.nanos + kill.nanos
  /-- It comes out of the words of the durations, which are added with a carry. -/
  carried : p.longest?.map Duration.words = grace.words.add? kill.words

/-- Times that are chosen in a program make a sum that exists, or is beyond the last second of a
word. -/
theorem summed_longest (s : Settings) (grace kill : Duration) :
    Summed ((s.withGracePeriod grace).withKillWait kill).termination grace kill where
  overflows_iff := Duration.add?_eq_none_iff
  exact _ := Duration.add?_eq_some_iff
  carried := Duration.map_words_add? grace kill

/-- Whatever settings are revised by, their times stay within bounds, and the longest time of a
termination overflows only for durations that a program has chosen. -/
theorem bounded_of_revisions (revisions : List Revision) :
    Bounded (revisions.foldl revise default) ∧
      ∀ grace kill : Duration, Summed
        (((revisions.foldl revise default).withGracePeriod grace).withKillWait kill).termination
        grace kill :=
  ⟨(counted_default.reviseAll revisions).bounded, summed_longest _⟩

end Settings

end Offload
