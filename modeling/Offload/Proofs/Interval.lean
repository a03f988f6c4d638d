import Offload.Channel.Pipe
import Offload.Proofs.Duration
import Offload.Watch

/-!
# How long a watch waits

A watch asks its receiver again and again, each time for the poll interval of its settings and for
nothing else (`Watch.asksFor_run`). The receiver of a pipe hands this time to the system as
milliseconds in a signed word of 32 bits, where zero stands for no wait at all, and a negative
number for a wait without an end. Longer times are cut, and then the word is the time that was asked
for (`Channel.Pipe.toInt_waitWord`), so it is never negative, and it is zero only for less than a
millisecond (`Channel.Pipe.waitWord_bounds`).

The first part is an invariant of the effects, `AsksFor`, with one lemma for each thing that a watch
does. Only `ask` adds a question; all others add effects that are none. The second part is
arithmetic of a word of 32 bits and knows nothing of watches. They meet in what is said of settings,
where the interval that is asked for comes from a text, from the environment or from a default.
-/

namespace Offload

/-! ### What a watch asks for -/

namespace Watch

variable {α κ : Type} {interval : Duration} {s : State α κ}

/-- A watch has asked its receiver for the interval only. -/
def State.AsksFor (interval : Duration) (s : State α κ) : Prop :=
  ∀ d, .asked d ∈ s.effects → d = interval

namespace State.AsksFor

theorem congr {t : State α κ} (h : s.AsksFor interval) (ht : t.effects = s.effects) :
    t.AsksFor interval :=
  fun d hd ↦ h d (ht ▸ hd)

/-- To ask for the interval once more is no other question. -/
theorem ask (h : s.AsksFor interval) : (s.emit (.asked interval)).AsksFor interval := by
  intro d hd
  rcases List.mem_append.1 hd with hd | hd
  · exact h d hd
  · cases List.mem_singleton.1 hd
    rfl

theorem emit (h : s.AsksFor interval) {effect : Effect α κ} (he : ∀ d, effect ≠ .asked d) :
    (s.emit effect).AsksFor interval := by
  intro d hd
  rcases List.mem_append.1 hd with hd | hd
  · exact h d hd
  · exact absurd (List.mem_singleton.1 hd).symm (he d)

theorem call (h : s.AsksFor interval) (callback : κ) (outcome : Outcome α) :
    (s.call callback outcome).AsksFor interval :=
  h.emit nofun

/-- Registering a callback asks nothing, whether or not it runs. -/
theorem register (h : s.AsksFor interval) (panics : κ → Bool) (kind : CallbackKind)
    (callback : κ) : (s.register panics kind callback).2.AsksFor interval := by
  unfold State.register
  split
  · next outcome handle _ =>
    exact State.AsksFor.call (s := { s with handle }) (h.congr rfl) callback outcome
  · exact h.congr rfl

/-- Callbacks that are registered while the worker is being stopped ask nothing. -/
theorem registerAll (h : s.AsksFor interval) (panics : κ → Bool)
    (registrations : List (CallbackKind × κ)) :
    (s.registerAll panics registrations).2.AsksFor interval := by
  induction registrations generalizing s with
  | nil => exact h
  | cons registration rest ih =>
    obtain ⟨kind, callback⟩ := registration
    have hregister := h.register panics kind callback
    unfold State.registerAll
    split
    · next heq => rwa [heq] at hregister
    · next heq =>
      rw [heq] at hregister
      exact ih hregister

/-- Stopping the worker asks the system and the worker, but not the receiver. -/
theorem stop (h : s.AsksFor interval) (panics : κ → Bool) (settings : Settings)
    (worker : Worker κ) : (s.stop panics settings worker).2.AsksFor interval := by
  have hchecked : (s.emit (.checked worker.alive)).AsksFor interval := h.emit nofun
  have hstopped : ((s.emit (.checked worker.alive)).emit (.stopped settings.termination
      (s.emit (.checked worker.alive)).handle.state)).AsksFor interval := hchecked.emit nofun
  have hall := hstopped.registerAll panics worker.registrations
  unfold State.stop
  split
  · dsimp only
    split
    · split
      · next heq => rwa [heq] at hall
      · next s' heq =>
        rw [heq] at hall
        split
        · next report _ =>
          exact State.AsksFor.emit (s := { s' with handle := s'.handle.noteTermination report })
            (hall.congr rfl) nofun
        · exact hall
    · exact hchecked
  · exact h

theorem fire (h : s.AsksFor interval) (completion : Completion α κ) :
    (s.fire completion).AsksFor interval := by
  unfold State.fire
  split
  · exact h.call _ _
  · exact h

theorem release (h : s.AsksFor interval) : s.release.AsksFor interval :=
  State.AsksFor.emit (s := { s with limiter := s.limiter.release s.handle.identity })
    (h.congr rfl) nofun

theorem reap (h : s.AsksFor interval) : s.reap.AsksFor interval :=
  h.emit nofun

end State.AsksFor

/-- An outcome ends the questions. -/
theorem asksFor_finish (panics : κ → Bool) (settings : Settings) (worker : Worker κ)
    (outcome : Outcome α) (h : s.AsksFor interval) :
    (finish panics settings worker outcome s).2.AsksFor interval := by
  unfold finish
  split
  · exact h
  · next completion handle _ =>
    have hpublished : ({ s with handle }.emit (.published outcome.state)).AsksFor interval :=
      State.AsksFor.emit (s := { s with handle }) (h.congr rfl) nofun
    have hstop := hpublished.stop panics settings worker
    split
    · next heq => rwa [heq] at hstop
    · next heq =>
      rw [heq] at hstop
      exact (hstop.fire completion).release.reap

/-- A watch asks its receiver for the poll interval and for no other time. -/
theorem asksFor_run (panics : κ → Bool) (settings : Settings) (worker : Worker κ)
    (arrivals : List (Arrival α κ)) (h : s.AsksFor settings.pollInterval) :
    (run panics settings worker arrivals s).2.AsksFor settings.pollInterval := by
  induction arrivals generalizing s with
  | nil => exact h.ask.reap
  | cons arrival rest ih =>
    cases arrival with
    | registers kind callback =>
      have hregister := h.register panics kind callback
      unfold run
      split
      · next heq => rwa [heq] at hregister
      · next heq =>
        rw [heq] at hregister
        exact ih hregister
    | answers answer =>
      match answer with
      | .ok none => exact ih h.ask
      | .ok (some outcome) => exact asksFor_finish panics settings worker outcome h.ask
      | .error loss => exact h.ask.reap

end Watch

/-! ### What a receiver waits for -/

namespace Channel.Pipe

/-- What a receiver hands to the system: the milliseconds, cut to what a signed word of 32 bits
holds and then put into one. -/
def waitWord (timeout : Duration) : Int32 :=
  let millis := timeout.words.millis
  .ofBitVec ((if millis ≤ 2147483647#128 then millis else 2147483647#128).setWidth 32)

/-- The word that the system gets is the time in milliseconds, and no negative number. -/
theorem toInt_waitWord (timeout : Duration) : (waitWord timeout).toInt = waitMillis timeout := by
  have hmillis := timeout.toNat_millis_words
  have hcut : (if timeout.words.millis ≤ 2147483647#128 then timeout.words.millis
      else 2147483647#128).toNat = waitMillis timeout := by
    split
    · next hle =>
      have hle' : timeout.words.millis.toNat ≤ 2147483647 := hle
      rw [hmillis, waitMillis]
      omega
    · next hlt =>
      have hlt' : ¬ timeout.words.millis.toNat ≤ 2147483647 := hlt
      rw [waitMillis]
      simp only [BitVec.toNat_ofNat]
      omega
  have hle : waitMillis timeout ≤ 2147483647 := Nat.min_le_right ..
  rw [waitWord, Int32.toInt_ofBitVec, BitVec.toInt_eq_toNat_of_lt] <;>
    rw [BitVec.toNat_setWidth, hcut] <;> omega

/-- A wait for at least a millisecond is one, and ends. -/
theorem waitWord_bounds {timeout : Duration} (h : 1000000 ≤ timeout.nanos) :
    1 ≤ (waitWord timeout).toInt ∧ (waitWord timeout).toInt ≤ 2 ^ 31 - 1 := by
  rw [toInt_waitWord, waitMillis, Duration.millis]
  omega

end Channel.Pipe

end Offload
