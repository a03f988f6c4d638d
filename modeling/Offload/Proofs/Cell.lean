import Offload.Proofs.Handle
import Mathlib.Data.List.Infix

/-!
# The cell behind a handle

A handle knows its outcome in one place. A `Cell` keeps it in three: where the task stands, the
value, and the failure. Nothing in the record says that they agree. Every operation and every read
looks at the place that it needs, and publishing writes those of its own branch only.

`Cell.ofHandle` spreads a handle over a cell. Every operation commutes with it, from any handle
(`apply_ofHandle`), so the cell of a new handle is the spread of that handle at every moment
(`after_ofHandle`). What is read of the two is decided by the outcome that was published first
(`Reading.ofFirst`).

The two records are kept apart on purpose. The handle has one place for the outcome, so an
inconsistent state cannot be written down, and proofs about watches and callbacks use it. The cell
is the record of the program, with three places that could disagree. That they do not is proved here
once, for every list of operations, and no other module has to think of it.
-/

namespace Offload

namespace Handle

variable {α κ : Type}

/-- An operation on a handle. What a callback does to it are operations that come later. -/
inductive Operation (α κ : Type) where
  | publish (outcome : Outcome α)
  | register (kind : CallbackKind) (callback : κ)
  | fire (completion : Completion α κ)
  | noteTermination (report : Report)

/-- What an operation answers. -/
inductive Reply (α κ : Type) where
  | published (completion : Option (Completion α κ))
  | registered (registration : Registration α)
  /-- The callback to run. -/
  | fired (callback : Option κ)
  | noted

/-- Carry out an operation. -/
def apply (h : Handle α κ) : Operation α κ → Reply α κ × Handle α κ
  | .publish outcome => (h.publish outcome).map .published id
  | .register kind callback => (h.register kind callback).map .registered id
  | .fire completion => (.fired (h.callbackToFire? completion), h)
  | .noteTermination report => (.noted, h.noteTermination report)

/-- The handle after operations. -/
def after (h : Handle α κ) (ops : List (Operation α κ)) : Handle α κ :=
  ops.foldl (fun h op ↦ (h.apply op).2) h

/-- The handle that operations make of a new one. -/
def reached (identity : Identity) (pid : Option Nat) (ops : List (Operation α κ)) : Handle α κ :=
  (new identity pid).after ops

/-- The outcome that an operation publishes. -/
def Operation.outcome? : Operation α κ → Option (Outcome α)
  | .publish outcome => some outcome
  | _ => none

/-- The outcome that is published first. -/
def firstOutcome? (ops : List (Operation α κ)) : Option (Outcome α) :=
  ops.findSome? Operation.outcome?

/-- What can be read of a handle. -/
structure Reading (α : Type) where
  state : TaskState
  isFinished : Bool
  result : Option α
  failure : Option Failure
  burst : TaskError
  /-- What a wait gives that looks now, or nothing if it goes on waiting. -/
  wait : Option (Option α)

/-- All that can be read now. -/
def reading (h : Handle α κ) : Reading α :=
  ⟨h.state, h.isFinished, h.value?, h.failure?, h.burst, h.wait?⟩

/-- What is to be read if `first` is the outcome that was published first. -/
def Reading.ofFirst : (first : Option (Outcome α)) → Reading α
  | none => ⟨.incomplete, false, none, none, .nothingToBurst .incomplete, none⟩
  | some (.success v) =>
    ⟨.success, true, some v, none, .nothingToBurst .success, some (some v)⟩
  | some (.failure f) => ⟨.error, true, none, some f, .failed f, some none⟩

/-! ### The first outcome is kept

An operation that publishes finds the outcome that is there and leaves it. So the outcome after a
list of operations is a function of the list, the first one that it publishes, and this is the only
induction that the reads need.
-/

/-- Operations in two parts are carried out in turn. -/
theorem after_append (h : Handle α κ) (ops more : List (Operation α κ)) :
    h.after (ops ++ more) = (h.after ops).after more :=
  List.foldl_append

/-- An operation keeps the outcome that is there, and else takes the one that it publishes. -/
theorem settled_apply (h : Handle α κ) (op : Operation α κ) :
    (h.apply op).2.settled = h.settled.or op.outcome? := by
  rcases op with outcome | ⟨kind, callback⟩ | completion | report
  · rcases hs : h.settled with - | first
    · simp [apply, publish_of_incomplete hs, Operation.outcome?]
    · simp [apply, publish_of_settled hs, hs]
  · simp [apply, (settled_register h kind callback).1, Operation.outcome?]
  · simp [apply, Operation.outcome?]
  · simp [apply, noteTermination, Operation.outcome?]

/-- So the outcome after operations is the first one that they publish, unless there was one before.
-/
theorem settled_after (h : Handle α κ) (ops : List (Operation α κ)) :
    (h.after ops).settled = h.settled.or (firstOutcome? ops) := by
  induction ops generalizing h with
  | nil => simp [after, firstOutcome?]
  | cons op rest ih =>
    calc ((h.apply op).2.after rest).settled
      _ = (h.settled.or op.outcome?).or (firstOutcome? rest) := by rw [ih, settled_apply]
      _ = h.settled.or (firstOutcome? (op :: rest)) := by
        rw [Option.or_assoc, firstOutcome?, firstOutcome?, List.findSome?_cons]
        rcases op.outcome? with - | outcome <;> rfl

/-- A new handle has none before. -/
theorem settled_reached (identity : Identity) (pid : Option Nat) (ops : List (Operation α κ)) :
    (reached identity pid ops).settled = firstOutcome? ops := by
  rw [reached, settled_after, new, Option.none_or]

/-- What is published later is never the first outcome. -/
theorem firstOutcome?_of_prefix {ops more : List (Operation α κ)} {first : Outcome α}
    (hpre : ops <+: more) (hfirst : firstOutcome? ops = some first) :
    firstOutcome? more = some first := by
  obtain ⟨rest, rfl⟩ := hpre
  rw [firstOutcome?, List.findSome?_append, ← firstOutcome?, hfirst, Option.some_or]

/-- All that is read of a handle is decided by its outcome. -/
theorem reading_eq_ofFirst (h : Handle α κ) : h.reading = .ofFirst h.settled := by
  obtain ⟨identity, pid, settled, onComplete, onError, replaced, termination⟩ := h
  rcases settled with - | v | f <;> rfl

/-- What only a finished handle has: a callback ran in the place of another one, and neither place
holds one. -/
structure Sound (h : Handle α κ) : Prop where
  settled_of_replaced : h.replaced = true → h.settled.isSome = true
  slots_of_settled : h.settled.isSome = true → h.onComplete = none ∧ h.onError = none

/-- No operation makes a handle unsound. -/
theorem Sound.apply {h : Handle α κ} (hh : h.Sound) (op : Operation α κ) :
    (h.apply op).2.Sound := by
  rcases op with outcome | ⟨kind, callback⟩ | completion | report
  · rcases hs : h.settled with - | first
    · simp only [Handle.apply, publish_of_incomplete hs]
      exact ⟨fun _ ↦ rfl, fun _ ↦ ⟨rfl, rfl⟩⟩
    · simp only [Handle.apply, publish_of_settled hs]
      exact hh
  · rcases hs : h.settled with - | first
    · simp only [Handle.apply, register_of_incomplete hs]
      -- the handle has no outcome, so `hh` says that no callback ran
      exact ⟨fun hr ↦ by simpa using hh.settled_of_replaced (by simpa using hr),
        fun h' ↦ by simp [hs] at h'⟩
    · simp only [Handle.apply, register_of_settled hs]
      split
      · exact ⟨fun _ ↦ by simp [hs], fun h' ↦ hh.slots_of_settled h'⟩
      · exact hh
  · exact hh
  · exact ⟨hh.settled_of_replaced, hh.slots_of_settled⟩

theorem Sound.after {h : Handle α κ} (hh : h.Sound) (ops : List (Operation α κ)) :
    (h.after ops).Sound := by
  induction ops generalizing h with
  | nil => exact hh
  | cons op rest ih => exact ih (hh.apply op)

/-- Every handle that is reached from a new one is sound. -/
theorem sound_reached (identity : Identity) (pid : Option Nat) (ops : List (Operation α κ)) :
    (reached identity pid ops).Sound :=
  Sound.after ⟨fun hr ↦ by simp [new] at hr, fun hs ↦ by simp [new] at hs⟩ ops

end Handle

/-- A handle whose outcome is kept in three places. -/
structure Cell (α κ : Type) where
  identity : Identity
  pid : Option Nat := none
  state : TaskState := .incomplete
  value : Option α := none
  failure : Option Failure := none
  onComplete : Option κ := none
  onError : Option κ := none
  /-- Whether a callback ran in place of the one handed out. -/
  replaced : Bool := false
  termination : Option Report := none

namespace Cell

open Handle (Operation Reply Reading firstOutcome?)

variable {α κ : Type}

/-- A cell without an outcome. -/
def new (identity : Identity) (pid : Option Nat) : Cell α κ :=
  { identity, pid }

/-- Register a callback. It runs only if what it is to be called with is there. -/
def register (c : Cell α κ) (kind : CallbackKind) (callback : κ) : Registration α × Cell α κ :=
  match kind, c.state with
  | .onComplete, .incomplete => (.kept, { c with onComplete := some callback })
  | .onComplete, .success =>
    match c.value with
    | some value => (.runs (.success value), { c with replaced := true })
    | none => (.dropped, c)
  | .onComplete, .error => (.dropped, c)
  | .onError, .incomplete => (.kept, { c with onError := some callback })
  | .onError, .error =>
    match c.failure with
    | some failure => (.runs (.failure failure), { c with replaced := true })
    | none => (.dropped, c)
  | .onError, .success => (.dropped, c)

/-- Publish an outcome. A finished cell ignores it. -/
def publish (c : Cell α κ) (outcome : Outcome α) : Option (Completion α κ) × Cell α κ :=
  if c.state.isTerminal then (none, c)
  else
    match outcome with
    | .success value =>
      (some ⟨.success value, c.onComplete⟩,
        { c with state := .success, value := some value, onError := none, onComplete := none })
    | .failure failure =>
      (some ⟨.failure failure, c.onError⟩,
        { c with state := .error, failure := some failure, onComplete := none, onError := none })

/-- The callback of a completion, unless another one ran in its place. -/
def callbackToFire? (c : Cell α κ) (completion : Completion α κ) : Option κ :=
  if c.replaced then none else completion.callback

/-- Record the report of a termination. -/
def noteTermination (c : Cell α κ) (report : Report) : Cell α κ :=
  { c with termination := some report }

/-- Carry out an operation. -/
def apply (c : Cell α κ) : Operation α κ → Reply α κ × Cell α κ
  | .publish outcome => (c.publish outcome).map .published id
  | .register kind callback => (c.register kind callback).map .registered id
  | .fire completion => (.fired (c.callbackToFire? completion), c)
  | .noteTermination report => (.noted, c.noteTermination report)

/-- The cell after operations. -/
def after (c : Cell α κ) (ops : List (Operation α κ)) : Cell α κ :=
  ops.foldl (fun c op ↦ (c.apply op).2) c

/-- The cell that operations make of a new one. -/
def reached (identity : Identity) (pid : Option Nat) (ops : List (Operation α κ)) : Cell α κ :=
  (new identity pid).after ops

/-- Whether the outcome is known. -/
def isFinished (c : Cell α κ) : Bool :=
  c.state.isTerminal

/-- The failure as an error for the caller, or the error that there is none. -/
def burst (c : Cell α κ) : TaskError :=
  match c.state, c.failure with
  | .error, some failure => .failed failure
  | state, _ => .nothingToBurst state

/-- What a wait gives that finds the cell like this, or nothing if it goes on. -/
def wait? (c : Cell α κ) : Option (Option α) :=
  if c.state.isTerminal then some c.value else none

/-- What a wait gives that finds the cell as in `seen`, one after the other. -/
def wait (seen : List (Cell α κ)) : Option (Option α) :=
  seen.findSome? wait?

/-- What a wait for a bounded time gives: its time is up when the cell is as in `last`. -/
def waitBriefly (seen : List (Cell α κ)) (last : Cell α κ) : Option α :=
  (wait seen).getD last.value

/-- All that can be read now. -/
def reading (c : Cell α κ) : Reading α :=
  ⟨c.state, c.isFinished, c.value, c.failure, c.burst, c.wait?⟩

/-- The three places agree, and what only a finished cell has. -/
structure Coherent (c : Cell α κ) : Prop where
  incomplete_iff : c.state = .incomplete ↔ c.value = none ∧ c.failure = none
  success_iff : c.state = .success ↔ c.value.isSome = true ∧ c.failure = none
  error_iff : c.state = .error ↔ c.value = none ∧ c.failure.isSome = true
  isTerminal_of_replaced : c.replaced = true → c.state.isTerminal = true
  slots_of_isTerminal : c.state.isTerminal = true → c.onComplete = none ∧ c.onError = none

/-! ### The cell of a handle

Each place of the cell is computed from the handle. That an operation on the cell keeps them so has
to be looked at for each pair of a branch and a kind of callback; where the three places would
disagree, the branch is not reached.
-/

/-- The cell that keeps what a handle knows. -/
def ofHandle (h : Handle α κ) : Cell α κ where
  identity := h.identity
  pid := h.pid
  state := h.state
  value := h.value?
  failure := h.failure?
  onComplete := h.onComplete
  onError := h.onError
  replaced := h.replaced
  termination := h.termination

theorem register_ofHandle (h : Handle α κ) (kind : CallbackKind) (callback : κ) :
    (ofHandle h).register kind callback = (h.register kind callback).map id ofHandle := by
  obtain ⟨identity, pid, settled, onComplete, onError, replaced, termination⟩ := h
  rcases kind with - | - <;> rcases settled with - | v | f <;> rfl

/-- A cell publishes as its handle does: the place of the other branch is empty and stays so. -/
theorem publish_ofHandle (h : Handle α κ) (outcome : Outcome α) :
    (ofHandle h).publish outcome = (h.publish outcome).map id ofHandle := by
  obtain ⟨identity, pid, settled, onComplete, onError, replaced, termination⟩ := h
  rcases settled with - | v | f <;> rcases outcome with w | g <;> rfl

/-- Every operation does to the cell of a handle what it does to the handle. -/
theorem apply_ofHandle (h : Handle α κ) (op : Operation α κ) :
    (ofHandle h).apply op = (h.apply op).map id ofHandle := by
  rcases op with outcome | ⟨kind, callback⟩ | completion | report
  · rw [apply, publish_ofHandle, Handle.apply, Prod.map_map, Prod.map_map]
    rfl
  · rw [apply, register_ofHandle, Handle.apply, Prod.map_map, Prod.map_map]
    rfl
  · rfl
  · rfl

theorem after_ofHandle (h : Handle α κ) (ops : List (Operation α κ)) :
    (ofHandle h).after ops = ofHandle (h.after ops) :=
  List.foldl_hom ofHandle fun h op ↦ by rw [apply_ofHandle, Prod.map_snd]

/-- The cell that operations reach is the spread of the handle that they reach. -/
theorem reached_eq (identity : Identity) (pid : Option Nat) (ops : List (Operation α κ)) :
    reached identity pid ops = ofHandle (.reached identity pid ops) :=
  after_ofHandle (.new identity pid) ops

/-- What is read of a spread handle is decided by its outcome as well. -/
theorem reading_ofHandle (h : Handle α κ) : (ofHandle h).reading = .ofFirst h.settled := by
  obtain ⟨identity, pid, settled, onComplete, onError, replaced, termination⟩ := h
  rcases settled with - | v | f <;> rfl

/-- The three places of a spread handle agree. -/
theorem coherent_ofHandle {h : Handle α κ} (hh : h.Sound) : (ofHandle h).Coherent := by
  obtain ⟨hr, hslots⟩ := hh
  have hterminal : (ofHandle h).state.isTerminal = h.settled.isSome := by
    rcases hs : h.settled with - | v | f <;> simp [ofHandle, Handle.state, hs] <;> rfl
  refine ⟨?_, ?_, ?_, fun h' ↦ hterminal.trans (hr h'), fun h' ↦ hslots (hterminal ▸ h')⟩
  all_goals
    rcases hs : h.settled with - | v | f <;>
      simp [ofHandle, Handle.state, Handle.value?, Handle.failure?, Outcome.value?,
        Outcome.failure?, Outcome.state, hs]

/-! ### Every run

What holds of a cell is said of what it answers next, after any operations: the answer of the
handle, one outcome and no other, and reads that do not change any more. A wait is a list of looks
at different moments, each behind a beginning of the operations.
-/

/-- A wait for the outcome gives the value of the first outcome, if there is one. -/
theorem wait?_reached (identity : Identity) (pid : Option Nat) (ops : List (Operation α κ)) :
    (reached identity pid ops).wait? = (firstOutcome? ops).map Outcome.value? := by
  rw [reached_eq, ← Handle.settled_reached identity pid ops]
  rcases hs : (Handle.reached identity pid ops).settled with - | v | f <;>
    simp [wait?, ofHandle, Handle.state, Handle.value?, Outcome.state, TaskState.isTerminal, hs]

/-- Whenever a wait looks, it finds the first outcome or none. -/
theorem wait_reached (identity : Identity) (pid : Option Nat) {ops : List (Operation α κ)}
    {looks : List (List (Operation α κ))} (hlooks : ∀ look ∈ looks, look <+: ops) :
    wait (looks.map (reached identity pid)) =
      if looks.any fun look ↦ (firstOutcome? look).isSome then
        (firstOutcome? ops).map Outcome.value?
      else none := by
  induction looks with
  | nil => rfl
  | cons look later ih =>
    have hrest := ih fun l hl ↦ hlooks l (List.mem_cons_of_mem _ hl)
    rw [wait] at hrest ⊢
    rw [List.map_cons, List.findSome?_cons, wait?_reached, hrest, List.any_cons]
    rcases hf : firstOutcome? look with - | first
    · simp
    · simp [Handle.firstOutcome?_of_prefix (hlooks look List.mem_cons_self) hf]

/-- What holds of the cell that operations make of a new one, and of what can come next. -/
structure Kept (identity : Identity) (pid : Option Nat) (ops : List (Operation α κ)) : Prop where
  /-- The cell answers as the handle does, and goes on being the handle's. -/
  apply_eq : ∀ op, (reached identity pid ops).apply op =
    ((Handle.reached identity pid ops).apply op).map id ofHandle
  coherent : (reached identity pid ops).Coherent
  reading_eq : (reached identity pid ops).reading = .ofFirst (firstOutcome? ops) ∧
    (Handle.reached identity pid ops).reading = .ofFirst (firstOutcome? ops)
  publish_first : firstOutcome? ops = none → ∀ outcome,
    ((reached identity pid ops).publish outcome).1.map Completion.outcome = some outcome
  publish_again : firstOutcome? ops ≠ none → ∀ outcome,
    (reached identity pid ops).publish outcome = (none, reached identity pid ops)
  reading_stays : firstOutcome? ops ≠ none → ∀ more,
    (reached identity pid (ops ++ more)).reading = (reached identity pid ops).reading
  /-- A wait looks at any moments, and ends at the first one that has a publish before it. -/
  wait_eq : ∀ looks : List (List (Operation α κ)), (∀ look ∈ looks, look <+: ops) →
    wait (looks.map (reached identity pid)) =
      if looks.any fun look ↦ (firstOutcome? look).isSome then
        (firstOutcome? ops).map Outcome.value?
      else none
  /-- The time of a wait for a bounded time is up now, at the latest. -/
  waitBriefly_eq : ∀ looks : List (List (Operation α κ)), (∀ look ∈ looks, look <+: ops) →
    waitBriefly (looks.map (reached identity pid)) (reached identity pid ops) =
      (firstOutcome? ops).bind Outcome.value?

/-- However a handle is used, its three places agree, the first outcome stays, and every read
answers from it. -/
theorem kept_of_operations (identity : Identity) (pid : Option Nat) (ops : List (Operation α κ)) :
    Kept identity pid ops := by
  have hsettled := Handle.settled_reached identity pid ops
  have hcell := reached_eq identity pid ops
  have hreading : ∀ ops : List (Operation α κ),
      (reached identity pid ops).reading = .ofFirst (firstOutcome? ops) := fun ops ↦ by
    rw [reached_eq, reading_ofHandle, Handle.settled_reached]
  refine ⟨fun op ↦ ?_, ?_, ⟨hreading ops, ?_⟩, fun hfirst outcome ↦ ?_, fun hfirst outcome ↦ ?_,
    fun hfirst more ↦ ?_, fun looks hlooks ↦ wait_reached identity pid hlooks,
    fun looks hlooks ↦ ?_⟩
  · rw [hcell, apply_ofHandle]
  · exact hcell ▸ coherent_ofHandle (Handle.sound_reached identity pid ops)
  · rw [Handle.reading_eq_ofFirst, hsettled]
  · rw [hcell, publish_ofHandle, Handle.publish_of_incomplete (hsettled.trans hfirst)]
    rfl
  · obtain ⟨first, hfirst⟩ := Option.ne_none_iff_exists'.1 hfirst
    rw [hcell, publish_ofHandle, Handle.publish_of_settled (hsettled.trans hfirst)]
    rfl
  · obtain ⟨first, hfirst⟩ := Option.ne_none_iff_exists'.1 hfirst
    rw [hreading, hreading, Handle.firstOutcome?_of_prefix (List.prefix_append ops more) hfirst,
      hfirst]
  · have hvalue : (reached identity pid ops).value = (firstOutcome? ops).bind Outcome.value? := by
      rw [hcell, ← hsettled]
      rfl
    rw [waitBriefly, wait_reached identity pid hlooks, hvalue]
    split
    · rcases firstOutcome? ops with - | first <;> rfl
    · rfl

end Cell

end Offload
