import Offload.Handle

/-!
# The operations of a handle

What registering and publishing come to, for a handle that knows no outcome and for one that knows
it. A handle is settled by publishing only, and a callback that is kept fills its own place only.

Two laws carry all that is said of handles later. An outcome is known for good once it is known
(`publish_of_settled`), so the first one that is published is the only one. And a callback leaves
its place in one step only, the one that publishes: `publish_of_incomplete` hands out what the place
holds and empties it. Whoever publishes is therefore the only one that can fire the callback.

The frame lemmas below say of each field what leaves it alone. They are tagged for `simp`, so no
proof about a watch or about many callers has to open the operations again.
-/

namespace Offload.Handle

variable {α κ : Type}

/-- A handle has a value exactly if its outcome is the success with that value. -/
theorem value?_eq_some_iff {h : Handle α κ} {v : α} :
    h.value? = some v ↔ h.settled = some (.success v) := by
  rw [value?]
  rcases h.settled with - | v' | failure <;> simp [Outcome.value?]

/-- As long as no outcome is known, a callback is kept in the place of its kind. -/
theorem register_of_incomplete {h : Handle α κ} (hs : h.settled = none) (kind : CallbackKind)
    (callback : κ) : h.register kind callback = (.kept, h.setSlot kind callback) := by
  simp [register, hs]

/-- Once the outcome is known, a callback of its kind runs at once, and one of the other kind is
dropped. -/
theorem register_of_settled {h : Handle α κ} {outcome : Outcome α} (hs : h.settled = some outcome)
    (kind : CallbackKind) (callback : κ) :
    h.register kind callback =
      if outcome.callbackKind = kind then (.runs outcome, { h with replaced := true })
      else (.dropped, h) := by
  simp [register, hs]

/-- The first outcome is kept. It is handed out together with the callback of its kind, and both
places are empty then. -/
theorem publish_of_incomplete {h : Handle α κ} (hs : h.settled = none) (outcome : Outcome α) :
    h.publish outcome = (some ⟨outcome, h.slot outcome.callbackKind⟩,
      { h with settled := some outcome, onComplete := none, onError := none }) := by
  simp [publish, hs]

/-- A later outcome changes nothing, and nothing is handed out for it. -/
theorem publish_of_settled {h : Handle α κ} {first : Outcome α} (hs : h.settled = some first)
    (outcome : Outcome α) : h.publish outcome = (none, h) := by
  simp [publish, hs]

theorem settled_register (h : Handle α κ) (kind : CallbackKind) (callback : κ) :
    (h.register kind callback).2.settled = h.settled ∧
      (h.register kind callback).2.identity = h.identity := by
  rw [register]
  split
  · cases kind <;> exact ⟨rfl, rfl⟩
  · split <;> exact ⟨rfl, rfl⟩

theorem identity_publish (h : Handle α κ) (outcome : Outcome α) :
    (h.publish outcome).2.identity = h.identity := by
  rw [publish]
  split <;> rfl

/-- A callback that is kept is found in its own place, and the other place holds what it held. -/
theorem slot_setSlot (h : Handle α κ) (kind other : CallbackKind) (callback : κ) :
    (h.setSlot kind callback).slot other =
      if kind = other then some callback else h.slot other := by
  cases kind <;> cases other <;> rfl

@[simp]
theorem settled_setSlot (h : Handle α κ) (kind : CallbackKind) (callback : κ) :
    (h.setSlot kind callback).settled = h.settled := by
  cases kind <;> rfl

@[simp]
theorem identity_setSlot (h : Handle α κ) (kind : CallbackKind) (callback : κ) :
    (h.setSlot kind callback).identity = h.identity := by
  cases kind <;> rfl

@[simp]
theorem replaced_setSlot (h : Handle α κ) (kind : CallbackKind) (callback : κ) :
    (h.setSlot kind callback).replaced = h.replaced := by
  cases kind <;> rfl

@[simp]
theorem termination_setSlot (h : Handle α κ) (kind : CallbackKind) (callback : κ) :
    (h.setSlot kind callback).termination = h.termination := by
  cases kind <;> rfl

end Offload.Handle
