import Offload.Proofs.Handle
import Mathlib.Logic.Function.Basic
import Mathlib.Data.List.Nodup

/-!
# Callbacks on a shared handle

A handle that any number of threads use at one time: callers register callbacks, a publisher
publishes an outcome and fires the completion that it got. A move is one critical section, or the
begin or the end of a callback, so a run is a list of moves in any order. A thread that runs a
callback goes on making moves, so a callback registers others to any depth.

A callback is taken out of its critical section before it is called. In between it is *due*: its
thread owes the call and makes no other move, while other threads do.

Callbacks are known by tickets, the number of the registrations before. Which of them are called is
a matter of the order of the critical sections alone, which the `Log` keeps (`Log.Claims`); that the
handle comes to the same is the invariant `Lawful`.

The log is a second account of a run, and no part of the handle. It says in terms of places in the
order of registrations what the handle says in terms of its two slots and a flag. Because the log is
decided by the moves (`Lawful.log_run`), a statement about the log is one about every schedule.

At most once and exactly once are two different arguments. A call is taken out of what is due before
it is made, so none is made twice (`Called.call`). That none is left out needs the handle: as long
as an outcome is known, every claimed call is due or was made (`Lawful`).

Nesting needs no case of its own. A callback that registers another one is a thread that makes a
move while it runs a callback, and the stack of the callbacks that it runs is looked at by `finish`
only. What is said of registrations holds at any depth because no law mentions the depth.

The window between a publication and its check is where callbacks could be lost or doubled. A
registration in it finds the outcome and runs at once, and marks the handle, so that the callback
that was handed out does not run as well. Which of the two is called is decided by the order of
their critical sections, and `Kept.last` and `Kept.overtaken` say so for each order.
-/

namespace Offload

/-- A registration as it was asked for. -/
structure Shared.Request where
  thread : Nat
  kind : CallbackKind

/-- What calls a callback. -/
inductive Shared.Origin
  /-- The registration itself. -/
  | registration
  /-- The firing of the completion. -/
  | firing

/-- The call of a callback. -/
structure Shared.Call (α : Type) where
  ticket : Nat
  thread : Nat
  outcome : Outcome α
  origin : Shared.Origin

/-- What a thread is at. -/
structure Shared.Caller (α : Type) where
  /-- The call that it owes. -/
  due : Option (Shared.Call α) := none
  /-- The callbacks that it is running, the innermost first. -/
  running : List (Shared.Call α) := []

/-- The critical sections of a handle, in order. -/
structure Shared.Log (α : Type) where
  /-- The registrations. A callback's ticket is its place. -/
  requests : List Shared.Request := []
  /-- The outcome, and the number of registrations before it. -/
  published : Option (Outcome α × Nat) := none
  /-- The thread that fired the completion, and the number of registrations before it looked for
  one in its place. -/
  checked : Option (Nat × Nat) := none

namespace Shared.Log

variable {α : Type}

def request (log : Log α) (request : Request) : Log α :=
  { log with requests := log.requests ++ [request] }

def publish (log : Log α) (outcome : Outcome α) : Log α :=
  { log with published := some (outcome, log.requests.length) }

def check (log : Log α) (thread : Nat) : Log α :=
  { log with checked := some (thread, log.requests.length) }

end Shared.Log

/-- A handle in use by threads. -/
structure Shared (α : Type) where
  handle : Handle α Nat
  /-- The completion that was handed out and not yet fired. -/
  completion : Option (Completion α Nat) := none
  callers : Nat → Shared.Caller α := fun _ ↦ {}
  log : Shared.Log α := {}
  /-- The callbacks that were called, in order. -/
  calls : List (Shared.Call α) := []

namespace Shared

variable {α : Type}

/-- A move of a thread. -/
inductive Move (α : Type) where
  | register (thread : Nat) (kind : CallbackKind)
  | publish (thread : Nat) (outcome : Outcome α)
  /-- The completion is fired: it is looked whether a callback ran in the place of its own. -/
  | check (thread : Nat)
  /-- The callback that is due is called. -/
  | call (thread : Nat)
  /-- The innermost callback returns, or panics. -/
  | finish (thread : Nat)

/-- The thread that makes a move. -/
def Move.thread : Move α → Nat
  | register thread _ | publish thread _ | check thread | call thread | finish thread => thread

/-- Replace what a thread is at. -/
def setCaller (s : Shared α) (thread : Nat) (caller : Caller α) : Shared α :=
  { s with callers := Function.update s.callers thread caller }

@[simp]
theorem setCaller_log (s : Shared α) (thread : Nat) (caller : Caller α) :
    (s.setCaller thread caller).log = s.log := rfl

@[simp]
theorem setCaller_calls (s : Shared α) (thread : Nat) (caller : Caller α) :
    (s.setCaller thread caller).calls = s.calls := rfl

theorem setCaller_callers (s : Shared α) (thread : Nat) (caller : Caller α) (thread' : Nat) :
    (s.setCaller thread caller).callers thread' =
      if thread' = thread then caller else s.callers thread' :=
  Function.update_apply ..

/-- One move. A thread that owes a call can do nothing else. -/
def step (s : Shared α) (move : Move α) : Option (Shared α) :=
  let caller := s.callers move.thread
  match move, caller.due with
  | .register thread kind, none =>
    let ticket := s.log.requests.length
    let (registration, handle) := s.handle.register kind ticket
    let due := match registration with
      | .runs outcome => some ⟨ticket, thread, outcome, .registration⟩
      | _ => none
    let log := s.log.request ⟨thread, kind⟩
    some ({ s with handle, log }.setCaller thread { caller with due })
  | .publish _ outcome, none =>
    match s.handle.publish outcome with
    | (none, _) => some s
    | (some completion, handle) =>
      some { s with handle, completion := some completion, log := s.log.publish outcome }
  | .check thread, none =>
    s.completion.map fun completion ↦
      let due := (s.handle.callbackToFire? completion).map fun ticket ↦
        ⟨ticket, thread, completion.outcome, .firing⟩
      { s with completion := none, log := s.log.check thread }.setCaller thread { caller with due }
  | .call thread, some call =>
    some ({ s with calls := s.calls ++ [call] }.setCaller thread
      { due := none, running := call :: caller.running })
  | .finish thread, none =>
    match caller.running with
    | _ :: rest => some (s.setCaller thread { caller with running := rest })
    | [] => none
  | _, _ => none

/-- The moves of a list in turn. -/
def run : List (Move α) → Shared α → Option (Shared α)
  | [], s => some s
  | move :: rest, s => (s.step move).bind (run rest)

/-- A handle that nobody has used. -/
def fresh (identity : Identity) (pid : Option Nat) : Shared α :=
  { handle := .new identity pid }

/-- Whether a call is owed. -/
def Owes (s : Shared α) (call : Call α) : Prop :=
  (s.callers call.thread).due = some call

/-! ### What the order of the critical sections asks for

A registration, a publication and the check of a completion hold the lock of the handle. They are
what the log keeps, in the order in which they held it. Calls are made outside of the lock and are
not in it, so what the log asks for cannot depend on when they are made, or on how long a callback
runs.
-/

namespace Log

/-- Whether the registration with a ticket is of the kind that the outcome calls for. -/
def Matches (log : Log α) (outcome : Outcome α) (ticket : Nat) : Prop :=
  ∃ thread, log.requests[ticket]? = some ⟨thread, outcome.callbackKind⟩

/-- Whether a ticket is the last of its kind among those before a place. -/
def LastBefore (log : Log α) (outcome : Outcome α) (place ticket : Nat) : Prop :=
  ticket < place ∧ log.Matches outcome ticket ∧
    ∀ k, ticket < k → k < place → ¬ log.Matches outcome k

/-- Whether a call is one to be made. Callbacks that the outcome calls for are called by their
registration if they came behind the outcome. Of those before, the last one is called by the firing,
if none came between the outcome and the firing. -/
def Claims (log : Log α) (call : Call α) : Prop :=
  ∃ place, log.published = some (call.outcome, place) ∧
    match call.origin with
    | .registration => place ≤ call.ticket ∧
      log.requests[call.ticket]? = some ⟨call.thread, call.outcome.callbackKind⟩
    | .firing => log.LastBefore call.outcome place call.ticket ∧
      ∃ upTo, log.checked = some (call.thread, upTo) ∧
        ∀ k, place ≤ k → k < upTo → ¬ log.Matches call.outcome k

variable {log : Log α} {outcome : Outcome α} {place ticket : Nat} {call : Call α}

theorem Matches.lt_length (h : log.Matches outcome ticket) : ticket < log.requests.length := by
  obtain ⟨thread, h⟩ := h
  exact (List.getElem?_eq_some_iff.1 h).1

/-- A new request gets the next ticket, and the others keep theirs. -/
theorem requests_request (request : Request) {other : Request} :
    (log.request request).requests[ticket]? = some other ↔
      log.requests[ticket]? = some other ∨ ticket = log.requests.length ∧ request = other := by
  rw [Log.request, List.getElem?_append]
  split
  · next h =>
    simp [Nat.ne_of_lt h]
  · next h =>
    rw [List.getElem?_eq_none (Nat.le_of_not_lt h), List.getElem?_singleton]
    split
    · next hz =>
      simp only [Option.some.injEq, reduceCtorEq, false_or]
      exact ⟨fun heq ↦ ⟨by omega, heq⟩, And.right⟩
    · next hz =>
      simp only [reduceCtorEq, false_or, false_iff, not_and]
      intro heq
      omega

/-- The new request matches an outcome if it is of its kind. -/
theorem matches_request (request : Request) :
    (log.request request).Matches outcome ticket ↔
      log.Matches outcome ticket ∨
        ticket = log.requests.length ∧ request.kind = outcome.callbackKind := by
  simp only [Matches, requests_request]
  constructor
  · rintro ⟨thread, h | ⟨rfl, rfl⟩⟩
    · exact .inl ⟨thread, h⟩
    · exact .inr ⟨rfl, rfl⟩
  · rintro (⟨thread, h⟩ | ⟨rfl, h⟩)
    · exact ⟨thread, .inl h⟩
    · exact ⟨request.thread, .inr ⟨rfl, by rw [← h]⟩⟩

/-- What was before a place is not changed by a registration behind it. -/
theorem matches_request_of_lt (request : Request) (h : ticket < log.requests.length) :
    (log.request request).Matches outcome ticket ↔ log.Matches outcome ticket := by
  rw [matches_request]
  exact or_iff_left fun hnew ↦ absurd hnew.1 (Nat.ne_of_lt h)

/-- What was the last request before the publication stays that, whatever is requested later. -/
theorem lastBefore_request_of_le (request : Request) (h : place ≤ log.requests.length) :
    (log.request request).LastBefore outcome place ticket ↔
      log.LastBefore outcome place ticket := by
  have hmatches : ∀ k, k < place → ((log.request request).Matches outcome k ↔
      log.Matches outcome k) :=
    fun k hk ↦ matches_request_of_lt request (Nat.lt_of_lt_of_le hk h)
  constructor
  · rintro ⟨hlt, hm, hlast⟩
    exact ⟨hlt, (hmatches _ hlt).1 hm, fun k h₁ h₂ hk ↦ hlast k h₁ h₂ ((hmatches k h₂).2 hk)⟩
  · rintro ⟨hlt, hm, hlast⟩
    exact ⟨hlt, (hmatches _ hlt).2 hm, fun k h₁ h₂ hk ↦ hlast k h₁ h₂ ((hmatches k h₂).1 hk)⟩

/-- A registration of the kind is the last one, and one of the other kind changes nothing. -/
theorem lastBefore_request (request : Request) :
    (log.request request).LastBefore outcome (log.requests.length + 1) ticket ↔
      if request.kind = outcome.callbackKind then ticket = log.requests.length
      else log.LastBefore outcome log.requests.length ticket := by
  split
  · next hk =>
    constructor
    · rintro ⟨hlt, hm, hlast⟩
      by_contra hne
      exact hlast log.requests.length (by omega) (Nat.lt_succ_self _)
        ((matches_request request).2 (.inr ⟨rfl, hk⟩))
    · rintro rfl
      exact ⟨Nat.lt_succ_self _, (matches_request request).2 (.inr ⟨rfl, hk⟩),
        fun k h₁ h₂ ↦ by omega⟩
  · next hk =>
    have hmatches : ∀ k, (log.request request).Matches outcome k ↔ log.Matches outcome k := by
      simp [matches_request, hk]
    simp only [LastBefore, hmatches]
    constructor
    · rintro ⟨-, hm, hlast⟩
      exact ⟨hm.lt_length, hm, fun k h₁ h₂ ↦ hlast k h₁ (Nat.lt_succ_of_lt h₂)⟩
    · rintro ⟨hlt, hm, hlast⟩
      exact ⟨Nat.lt_succ_of_lt hlt, hm, fun k h₁ _ hk ↦ hlast k h₁ hk.lt_length hk⟩

/-- At most one ticket is the last. -/
theorem LastBefore.unique {ticket' : Nat} (h : log.LastBefore outcome place ticket)
    (h' : log.LastBefore outcome place ticket') : ticket = ticket' := by
  rcases Nat.lt_trichotomy ticket ticket' with hlt | heq | hlt
  · exact absurd h'.2.1 (h.2.2 _ hlt h'.1)
  · exact heq
  · exact absurd h.2.1 (h'.2.2 _ hlt h.1)

/-- The ticket of a call to be made tells everything about it. -/
theorem Claims.unique {call' : Call α} (h : log.Claims call) (h' : log.Claims call')
    (ht : call.ticket = call'.ticket) : call = call' := by
  obtain ⟨ticket, thread, outcome, origin⟩ := call
  obtain ⟨ticket', thread', outcome', origin'⟩ := call'
  obtain rfl : ticket = ticket' := ht
  obtain ⟨place, hp, h⟩ := h
  obtain ⟨place', hp', h'⟩ := h'
  obtain ⟨rfl, rfl⟩ := Prod.mk.inj (Option.some.inj (hp.symm.trans hp'))
  -- with two origins the ticket would be both behind the outcome and before it
  cases origin <;> cases origin'
  · obtain ⟨rfl, -⟩ := Request.mk.inj (Option.some.inj (h.2.symm.trans h'.2))
    rfl
  · exact absurd h'.1.1 (Nat.not_lt_of_le h.1)
  · exact absurd h.1.1 (Nat.not_lt_of_le h'.1)
  · obtain ⟨-, upTo, hc, -⟩ := h
    obtain ⟨-, upTo', hc', -⟩ := h'
    obtain ⟨rfl, -⟩ := Prod.mk.inj (Option.some.inj (hc.symm.trans hc'))
    rfl

/-- A call is claimed by the registration of a callback that came after the publication, or by the
firing of the last one that came before it and was not replaced. -/
theorem claims_iff (hp : log.published = some (outcome, place)) :
    log.Claims call ↔ outcome = call.outcome ∧
      match call.origin with
      | .registration => place ≤ call.ticket ∧
        log.requests[call.ticket]? = some ⟨call.thread, outcome.callbackKind⟩
      | .firing => log.LastBefore outcome place call.ticket ∧
        ∃ upTo, log.checked = some (call.thread, upTo) ∧
          ∀ k, place ≤ k → k < upTo → ¬ log.Matches outcome k := by
  constructor
  · rintro ⟨place', hp', h⟩
    obtain ⟨ho, rfl⟩ := Prod.mk.inj (Option.some.inj (hp.symm.trans hp'))
    rw [ho]
    exact ⟨rfl, h⟩
  · rintro ⟨ho, h⟩
    rw [ho] at h hp
    exact ⟨place, hp, h⟩

/-- Without an outcome no call is claimed. -/
theorem not_claims_of_published_eq_none (hp : log.published = none) : ¬ log.Claims call := by
  rintro ⟨place, hp', -⟩
  rw [hp] at hp'
  exact absurd hp' (by simp)

/-- With the outcome just published there is nothing to be called. -/
theorem not_claims_publish (hc : log.checked = none) : ¬ (log.publish outcome).Claims call := by
  have hp : (log.publish outcome).published = some (outcome, log.requests.length) := rfl
  rw [claims_iff hp]
  rintro ⟨-, h⟩
  split at h
  · exact absurd (List.getElem?_eq_some_iff.1 h.2).1 (Nat.not_lt_of_le h.1)
  · obtain ⟨-, upTo, hupTo, -⟩ := h
    exact absurd (hc.symm.trans hupTo) (by simp)

/-- A claimed call is of a callback that was registered for the kind of the outcome. -/
theorem Claims.matches (h : log.Claims call) : log.Matches call.outcome call.ticket := by
  obtain ⟨ticket, thread, outcome, origin⟩ := call
  obtain ⟨place, -, h⟩ := h
  cases origin with
  | registration => exact ⟨thread, h.2⟩
  | firing => exact h.1.2.1

/-- A registration behind the outcome, of the kind that the outcome calls for, is a call more. -/
theorem claims_request (hle : place ≤ log.requests.length)
    (hp : log.published = some (outcome, place))
    (hc : ∀ thread upTo, log.checked = some (thread, upTo) → upTo ≤ log.requests.length)
    (request : Request) :
    (log.request request).Claims call ↔ log.Claims call ∨
      request.kind = outcome.callbackKind ∧
        call = ⟨log.requests.length, request.thread, outcome, .registration⟩ := by
  obtain ⟨ticket, thread, outcome', origin⟩ := call
  have hp' : (log.request request).published = some (outcome, place) := hp
  rw [claims_iff hp, claims_iff hp']
  cases origin with
  | registration =>
    simp only [requests_request]
    constructor
    · rintro ⟨rfl, hle', h | ⟨rfl, rfl⟩⟩
      · exact .inl ⟨rfl, hle', h⟩
      · exact .inr ⟨rfl, rfl⟩
    · rintro (⟨rfl, hle', h⟩ | ⟨hk, hcall⟩)
      · exact ⟨rfl, hle', .inl h⟩
      · cases hcall
        exact ⟨rfl, hle, .inr ⟨rfl, by rw [← hk]⟩⟩
  | firing =>
    -- the firing has looked at fewer registrations than there are, so a new one is out of its sight
    have hwindow : ∀ upTo, log.checked = some (thread, upTo) → ∀ k, k < upTo →
        ((log.request request).Matches outcome k ↔ log.Matches outcome k) :=
      fun upTo hupTo k hk ↦ matches_request_of_lt request (Nat.lt_of_lt_of_le hk (hc _ _ hupTo))
    simp only [lastBefore_request_of_le request hle]
    constructor
    · rintro ⟨rfl, hlast, upTo, hupTo, hnone⟩
      exact .inl ⟨rfl, hlast, upTo, hupTo, fun k h₁ h₂ hk ↦
        hnone k h₁ h₂ ((hwindow upTo hupTo k h₂).2 hk)⟩
    · rintro (⟨rfl, hlast, upTo, hupTo, hnone⟩ | ⟨-, hcall⟩)
      · exact ⟨rfl, hlast, upTo, hupTo, fun k h₁ h₂ hk ↦
          hnone k h₁ h₂ ((hwindow upTo hupTo k h₂).1 hk)⟩
      · exact absurd hcall (by simp)

/-- Firing makes a call more, if there is a callback to be called. -/
theorem claims_check (hp : log.published = some (outcome, place)) (hc : log.checked = none)
    (thread : Nat) :
    (log.check thread).Claims call ↔ log.Claims call ∨
      call = ⟨call.ticket, thread, outcome, .firing⟩ ∧ log.LastBefore outcome place call.ticket ∧
        ∀ k, place ≤ k → ¬ log.Matches outcome k := by
  obtain ⟨ticket, thread', outcome', origin⟩ := call
  have hp' : (log.check thread).published = some (outcome, place) := hp
  rw [claims_iff hp, claims_iff hp']
  cases origin with
  | registration =>
    simp only [Call.mk.injEq, reduceCtorEq, and_false, false_and, or_false]
    exact Iff.rfl
  | firing =>
    simp only [hc, reduceCtorEq, false_and, exists_false, and_false, false_or, Call.mk.injEq,
      and_true, true_and]
    constructor
    · rintro ⟨rfl, hlast, upTo, hupTo, hnone⟩
      obtain ⟨rfl, rfl⟩ := Prod.mk.inj (Option.some.inj hupTo)
      exact ⟨⟨rfl, rfl⟩, hlast, fun k hk hm ↦ hnone k hk hm.lt_length hm⟩
    · rintro ⟨⟨rfl, rfl⟩, hlast, hnone⟩
      exact ⟨rfl, hlast, _, rfl, fun k hk _ ↦ hnone k hk⟩

end Log

/-! ### The invariant

Two halves are kept apart. `Tracks` is about the handle, and says that its places hold what the log
says; no caller comes into it. `Called` is about the callers and does not look at the handle. They
meet in one place, the check, where the handle says which callback is due and the log says which one
ought to be.
-/

/-- What the handle has come to, in terms of the log. -/
structure Tracks (handle : Handle α Nat) (completion : Option (Completion α Nat)) (log : Log α) :
    Prop where
  settled : handle.settled = log.published.map Prod.fst
  /-- Before the outcome the places of the handle hold the last callbacks. -/
  slot : log.published = none → ∀ (outcome : Outcome α) ticket,
    handle.slot outcome.callbackKind = some ticket ↔
      log.LastBefore outcome log.requests.length ticket
  replaced : handle.replaced = true ↔
    ∃ outcome place k, log.published = some (outcome, place) ∧ place ≤ k ∧ log.Matches outcome k
  /-- The completion waits until it is fired. -/
  waits : completion.isSome = true ↔ log.published.isSome = true ∧ log.checked = none
  completion : ∀ c, completion = some c → ∃ place, log.published = some (c.outcome, place) ∧
    ∀ ticket, c.callback = some ticket ↔ log.LastBefore c.outcome place ticket
  published_le : ∀ outcome place, log.published = some (outcome, place) →
    place ≤ log.requests.length
  checked_le : ∀ thread upTo, log.checked = some (thread, upTo) → upTo ≤ log.requests.length
  unchecked : log.published = none → log.checked = none

/-- The calls that were made or are due are those that the log asks for, each once. -/
structure Called (s : Shared α) : Prop where
  thread : ∀ thread call, (s.callers thread).due = some call → call.thread = thread
  claims : ∀ call, call ∈ s.calls ∨ s.Owes call ↔ s.log.Claims call
  once : (s.calls.map Call.ticket).Nodup
  apart : ∀ call, s.Owes call → call.ticket ∉ s.calls.map Call.ticket

section

variable {handle : Handle α Nat} {completion : Option (Completion α Nat)} {log : Log α}
  {outcome : Outcome α} {place : Nat}

/-- A request before the publication takes the place of its kind. -/
theorem Tracks.request_of_incomplete (hs : Tracks handle completion log)
    (hp : log.published = none) (request : Request) :
    Tracks (handle.setSlot request.kind log.requests.length) completion (log.request request) where
  settled := (Handle.settled_setSlot ..).trans hs.settled
  slot _ outcome ticket := by
    have hlength : (log.request request).requests.length = log.requests.length + 1 := by
      simp [Log.request]
    rw [hlength, Log.lastBefore_request, Handle.slot_setSlot]
    split
    · simp [eq_comm]
    · exact hs.slot hp outcome ticket
  replaced := by
    have hfalse := hs.replaced
    simp only [hp, reduceCtorEq, false_and, exists_false, iff_false] at hfalse
    simp [Log.request, hp, hfalse]
  waits := hs.waits
  completion c hc := by
    obtain ⟨place, hp', -⟩ := hs.completion c hc
    exact absurd (hp.symm.trans hp') (by simp)
  published_le outcome place hp' := by
    exact absurd (hp.symm.trans hp') (by simp)
  checked_le thread upTo hc := by
    exact absurd ((hs.unchecked hp).symm.trans hc) (by simp)
  unchecked := hs.unchecked

/-- A callback that comes behind the outcome runs in the place of the one handed out, if it is of
its kind. -/
theorem Tracks.request_of_published (hs : Tracks handle completion log)
    (hp : log.published = some (outcome, place)) (request : Request) :
    Tracks { handle with
      replaced := handle.replaced || decide (request.kind = outcome.callbackKind) }
      completion (log.request request) where
  settled := hs.settled
  slot hp' := by
    exact absurd (hp.symm.trans hp') (by simp)
  replaced := by
    have hle := hs.published_le outcome place hp
    have hp' : (log.request request).published = some (outcome, place) := hp
    simp only [Bool.or_eq_true, decide_eq_true_eq, hs.replaced, hp, hp', Option.some.injEq,
      Prod.mk.injEq, Log.matches_request]
    constructor
    · rintro (⟨outcome', place', k, ⟨rfl, rfl⟩, hk, hm⟩ | hkind)
      · exact ⟨_, _, k, ⟨rfl, rfl⟩, hk, .inl hm⟩
      · exact ⟨_, _, _, ⟨rfl, rfl⟩, hle, .inr ⟨rfl, hkind⟩⟩
    · rintro ⟨outcome', place', k, ⟨rfl, rfl⟩, hk, hm | ⟨-, hkind⟩⟩
      · exact .inl ⟨_, _, k, ⟨rfl, rfl⟩, hk, hm⟩
      · exact .inr hkind
  waits := hs.waits
  completion c hc := by
    obtain ⟨place', hp', hlast⟩ := hs.completion c hc
    refine ⟨place', hp', fun ticket ↦ ?_⟩
    rw [hlast, Log.lastBefore_request_of_le request (hs.published_le _ _ hp')]
  published_le outcome' place' hp' := by
    have hle := hs.published_le outcome' place' hp'
    simp only [Log.request, List.length_append]
    omega
  checked_le thread upTo hc := by
    have hle := hs.checked_le thread upTo hc
    simp only [Log.request, List.length_append]
    omega
  unchecked := hs.unchecked

/-- The first outcome takes the last callback of its kind out of its place. -/
theorem Tracks.publish (hs : Tracks handle completion log) (hp : log.published = none)
    (outcome : Outcome α) :
    Tracks { handle with settled := some outcome, onComplete := none, onError := none }
      (some ⟨outcome, handle.slot outcome.callbackKind⟩) (log.publish outcome) where
  settled := rfl
  slot hp' := by
    cases hp'
  replaced := by
    have hfalse := hs.replaced
    simp only [hp, reduceCtorEq, false_and, exists_false, iff_false] at hfalse
    refine iff_of_false hfalse ?_
    rintro ⟨outcome', place, k, hp', hle, hm⟩
    obtain ⟨rfl, rfl⟩ := Prod.mk.inj (Option.some.inj hp')
    exact Nat.not_lt_of_le hle hm.lt_length
  waits := by simp [Log.publish, hs.unchecked hp]
  completion c hc := by
    obtain rfl := Option.some.inj hc
    exact ⟨log.requests.length, rfl, hs.slot hp outcome⟩
  published_le outcome' place hp' := by
    obtain ⟨-, rfl⟩ := Prod.mk.inj (Option.some.inj hp')
    exact Nat.le_refl _
  checked_le thread upTo hc := by
    exact absurd ((hs.unchecked hp).symm.trans hc) (by simp)
  unchecked hp' := by
    cases hp'

/-- The callback that was handed out is run iff none of its kind came since. -/
theorem Tracks.callbackToFire?_eq_some_iff (hs : Tracks handle completion log)
    {c : Completion α Nat} (hp : log.published = some (c.outcome, place))
    (hlast : ∀ ticket, c.callback = some ticket ↔ log.LastBefore c.outcome place ticket)
    {ticket : Nat} :
    handle.callbackToFire? c = some ticket ↔ log.LastBefore c.outcome place ticket ∧
      ∀ k, place ≤ k → ¬ log.Matches c.outcome k := by
  have hreplaced : handle.replaced = false ↔ ∀ k, place ≤ k → ¬ log.Matches c.outcome k := by
    rw [← Bool.not_eq_true, hs.replaced]
    constructor
    · exact fun hnone k hk hm ↦ hnone ⟨_, _, k, hp, hk, hm⟩
    · rintro hnone ⟨outcome, place', k, hp', hk, hm⟩
      obtain ⟨rfl, rfl⟩ := Prod.mk.inj (Option.some.inj (hp.symm.trans hp'))
      exact hnone k hk hm
  rw [← hreplaced, ← hlast, Handle.callbackToFire?]
  cases handle.replaced <;> simp

/-- A check hands out at most one callback, and takes the completion with it. -/
theorem Tracks.check (hs : Tracks handle completion log)
    (hp : log.published = some (outcome, place)) (thread : Nat) :
    Tracks handle none (log.check thread) where
  settled := hs.settled
  slot hp' := by
    exact absurd (hp.symm.trans hp') (by simp)
  replaced := hs.replaced
  waits := by simp [Log.check]
  completion c hc := by
    exact absurd hc (by simp)
  published_le := hs.published_le
  checked_le thread' upTo hc := by
    obtain ⟨-, rfl⟩ := Prod.mk.inj (Option.some.inj hc)
    exact Nat.le_refl _
  unchecked hp' := by
    exact absurd (hp.symm.trans hp') (by simp)

end

variable {s t : Shared α} {thread : Nat} {caller : Caller α}

/-- A thread owes what it is due to call, and no thread owes for another. -/
theorem owes_setCaller (hdue : (s.callers thread).due = none)
    (ht : ∀ call, caller.due = some call → call.thread = thread) (call : Call α) :
    (s.setCaller thread caller).Owes call ↔ s.Owes call ∨ caller.due = some call := by
  simp only [Owes, setCaller_callers]
  split
  · next h => simp [h, hdue]
  · next h => exact (or_iff_left fun hcall ↦ h (ht call hcall)).symm

/-- A thread that comes to owe a call that was not asked for before. -/
theorem Called.owe (hs : Called s) {log : Log α} (hdue : (s.callers thread).due = none)
    (ht : ∀ call, caller.due = some call → call.thread = thread)
    (hclaims : ∀ call, log.Claims call ↔ s.log.Claims call ∨ caller.due = some call)
    (hnew : ∀ call call', caller.due = some call → s.log.Claims call' → call'.ticket ≠ call.ticket)
    (handle : Handle α Nat) (completion : Option (Completion α Nat)) :
    Called ({ s with handle, completion, log }.setCaller thread caller) := by
  have howes := owes_setCaller (s := { s with handle, completion, log }) hdue ht
  refine ⟨fun thread' call hcall ↦ ?_, fun call ↦ ?_, hs.once, fun call hcall hmem ↦ ?_⟩
  · rw [setCaller_callers] at hcall
    split at hcall
    · next h => exact h ▸ ht call hcall
    · exact hs.thread thread' call hcall
  · rw [howes, ← or_assoc]
    exact (or_congr_left (hs.claims call)).trans (hclaims call).symm
  · rcases (howes call).1 hcall with hold | hdue'
    · exact hs.apart call hold hmem
    · obtain ⟨call', hmem', heq⟩ := List.mem_map.1 hmem
      exact hnew call call' hdue' ((hs.claims call').1 (.inl hmem')) heq

theorem Called.call (hs : Called s) {call : Call α} (hdue : (s.callers thread).due = some call)
    (running : List (Call α)) :
    Called ({ s with calls := s.calls ++ [call] }.setCaller thread { due := none, running }) := by
  have hthread := hs.thread thread call hdue
  have howes : ∀ call', ({ s with calls := s.calls ++ [call] }.setCaller thread
      { due := none, running } : Shared α).Owes call' ↔ s.Owes call' ∧ call'.thread ≠ thread := by
    intro call'
    simp only [Owes, setCaller_callers]
    split
    · next h => simp [h]
    · next h => simp [h]
  have howed : s.Owes call := by
    rw [Owes]
    rwa [hthread]
  refine ⟨fun thread' call' hcall' ↦ ?_, fun call' ↦ ?_, ?_, fun call' hcall' hmem ↦ ?_⟩
  · rw [setCaller_callers] at hcall'
    split at hcall'
    · exact absurd hcall' (by simp)
    · exact hs.thread thread' call' hcall'
  · rw [howes, setCaller_log, ← hs.claims, setCaller_calls, List.mem_append, List.mem_singleton]
    constructor
    · rintro ((h | rfl) | ⟨h, -⟩)
      · exact .inl h
      · exact .inr howed
      · exact .inr h
    · rintro (h | h)
      · exact .inl (.inl h)
      · by_cases hne : call'.thread = thread
        -- a thread owes one call at a time
        · have hsame : (s.callers thread).due = some call' := hne ▸ h
          exact .inl (.inr (Option.some.inj (hsame.symm.trans hdue)))
        · exact .inr ⟨h, hne⟩
  · rw [setCaller_calls, List.map_append, List.nodup_append]
    refine ⟨hs.once, by simp, fun ticket hmem ticket' hmem' heq ↦ ?_⟩
    obtain rfl : ticket' = call.ticket := by simpa using hmem'
    exact hs.apart call howed (heq ▸ hmem)
  · obtain ⟨howes', hne⟩ := (howes call').1 hcall'
    have hmem' : call'.ticket ∈ s.calls.map Call.ticket ∨ call'.ticket = call.ticket := by
      simpa [setCaller] using hmem
    rcases hmem' with hmem' | heq
    · exact hs.apart call' howes' hmem'
    · -- two calls with one ticket are one call, which would be of this thread
      have hsame := Log.Claims.unique ((hs.claims call').1 (.inr howes'))
        ((hs.claims call).1 (.inr howed)) heq
      exact hne (hsame ▸ hthread)

/-- The handle keeps to the log, and so do the calls. -/
structure Lawful (s : Shared α) : Prop where
  tracks : Tracks s.handle s.completion s.log
  called : Called s

/-- A new handle owes nothing, and nothing was called. -/
theorem Lawful.fresh (identity : Identity) (pid : Option Nat) :
    Lawful (fresh identity pid : Shared α) where
  tracks := by
    constructor <;> simp [Shared.fresh, Handle.new, Handle.slot, Log.LastBefore]
    intro outcome
    cases outcome.callbackKind <;> simp
  called := by
    constructor <;> simp [Shared.fresh, Owes, Log.Claims]

/-- A registration keeps the laws: its callback is kept, replaced by a later one, or due at once. -/
theorem Lawful.register (hs : Lawful s) {kind : CallbackKind}
    (hdue : (s.callers thread).due = none)
    (h : s.step (.register thread kind) = some t) : Lawful t := by
  simp only [step, Move.thread, hdue, Option.some.injEq] at h
  have htracks := hs.tracks
  rcases hp : s.log.published with - | ⟨outcome, place⟩
  -- without an outcome the callback is kept, and nothing is to be called yet
  · have hsettled : s.handle.settled = none := by simpa [hp] using htracks.settled
    rw [Handle.register_of_incomplete hsettled] at h
    subst h
    refine ⟨htracks.request_of_incomplete hp ⟨thread, kind⟩,
      hs.called.owe hdue (by simp) (fun call ↦ ?_) (by simp) _ _⟩
    have hp' : (s.log.request ⟨thread, kind⟩).published = none := hp
    simp [Log.not_claims_of_published_eq_none hp, Log.not_claims_of_published_eq_none hp']
  · have hsettled : s.handle.settled = some outcome := by simpa [hp] using htracks.settled
    have hclaims : ∀ call, (s.log.request ⟨thread, kind⟩).Claims call ↔ _ := fun call ↦
      Log.claims_request (htracks.published_le _ _ hp) hp htracks.checked_le ⟨thread, kind⟩
    have htracks' := htracks.request_of_published hp ⟨thread, kind⟩
    rw [Handle.register_of_settled hsettled] at h
    by_cases hk : outcome.callbackKind = kind
    · rw [if_pos hk] at h
      subst h
      rw [show (decide (kind = outcome.callbackKind)) = true by simp [hk], Bool.or_true] at htracks'
      refine ⟨htracks', hs.called.owe hdue ?_ (fun call ↦ ?_) ?_ _ _⟩
      · rintro call ⟨⟩
        rfl
      · rw [hclaims]
        simp [hk, eq_comm]
      · rintro call call' ⟨⟩ hcall'
        exact Nat.ne_of_lt hcall'.matches.lt_length
    · rw [if_neg hk] at h
      subst h
      rw [show (decide (kind = outcome.callbackKind)) = false by simp [Ne.symm hk],
        Bool.or_false] at htracks'
      refine ⟨htracks', hs.called.owe hdue (by simp) (fun call ↦ ?_) (by simp) _ _⟩
      rw [hclaims]
      simp [Ne.symm hk]

/-- A publication keeps the laws, whether it is the first one or comes too late. -/
theorem Lawful.publish (hs : Lawful s) {outcome : Outcome α}
    (hdue : (s.callers thread).due = none)
    (h : s.step (.publish thread outcome) = some t) : Lawful t := by
  simp only [step, Move.thread, hdue] at h
  have htracks := hs.tracks
  rcases hp : s.log.published with - | ⟨first, place⟩
  · have hsettled : s.handle.settled = none := by simpa [hp] using htracks.settled
    rw [Handle.publish_of_incomplete hsettled] at h
    obtain rfl := Option.some.inj h
    refine ⟨htracks.publish hp outcome, hs.called.thread, fun call ↦ ?_, hs.called.once,
      hs.called.apart⟩
    refine (hs.called.claims call).trans ?_
    exact iff_of_false (Log.not_claims_of_published_eq_none hp)
      (Log.not_claims_publish (htracks.unchecked hp))
  · have hsettled : s.handle.settled = some first := by simpa [hp] using htracks.settled
    rw [Handle.publish_of_settled hsettled] at h
    obtain rfl := Option.some.inj h
    exact hs

/-- The check of the completion keeps what is lawful, and makes at most one call due. -/
theorem Lawful.check (hs : Lawful s) (hdue : (s.callers thread).due = none)
    (h : s.step (.check thread) = some t) : Lawful t := by
  simp only [step, Move.thread, hdue, Option.map_eq_some_iff] at h
  obtain ⟨completion, hc, rfl⟩ := h
  have htracks := hs.tracks
  obtain ⟨place, hp, hlast⟩ := htracks.completion completion hc
  -- a completion is there to be fired only once
  have hunchecked : s.log.checked = none := (htracks.waits.1 (by simp [hc])).2
  have hdue' : ∀ call : Call α, (s.handle.callbackToFire? completion).map
      (fun ticket ↦ (⟨ticket, thread, completion.outcome, .firing⟩ : Call α)) = some call ↔
      call = ⟨call.ticket, thread, completion.outcome, .firing⟩ ∧
        s.log.LastBefore completion.outcome place call.ticket ∧
        ∀ k, place ≤ k → ¬ s.log.Matches completion.outcome k := by
    intro call
    rw [Option.map_eq_some_iff]
    constructor
    · rintro ⟨ticket, hticket, rfl⟩
      exact ⟨rfl, (htracks.callbackToFire?_eq_some_iff hp hlast).1 hticket⟩
    · rintro ⟨hcall, hticket⟩
      exact ⟨call.ticket, (htracks.callbackToFire?_eq_some_iff hp hlast).2 hticket, hcall.symm⟩
  refine ⟨htracks.check hp thread, hs.called.owe hdue (fun call hcall ↦ ?_) (fun call ↦ ?_)
    (fun call call' hcall hclaims ↦ ?_) _ _⟩
  · rw [((hdue' call).1 hcall).1]
  · rw [Log.claims_check hp hunchecked, hdue']
  · -- the calls so far were made by registrations behind the outcome
    obtain ⟨-, hticket, -⟩ := (hdue' call).1 hcall
    obtain ⟨-, hclaims⟩ := (Log.claims_iff hp).1 hclaims
    split at hclaims
    · exact Nat.ne_of_gt (Nat.lt_of_lt_of_le hticket.1 hclaims.1)
    · obtain ⟨-, upTo, hupTo, -⟩ := hclaims
      exact absurd (hunchecked.symm.trans hupTo) (by simp)

/-- Every move keeps the laws. -/
theorem Lawful.step (hs : Lawful s) {move : Move α} (h : s.step move = some t) : Lawful t := by
  rcases hdue : (s.callers move.thread).due with - | call
  · cases move with
    | register thread kind => exact hs.register hdue h
    | publish thread outcome => exact hs.publish hdue h
    | check thread => exact hs.check hdue h
    | call thread => simp [Shared.step, hdue] at h
    | finish thread =>
      simp only [Shared.step, hdue] at h
      split at h
      · next rest _ =>
        obtain rfl := Option.some.inj h
        exact ⟨hs.tracks, hs.called.owe hdue (by simp) (by simp) (by simp) _ _⟩
      · exact absurd h (by simp)
  · cases move with
    | call thread =>
      simp only [Shared.step, hdue, Option.some.injEq] at h
      subst h
      exact ⟨hs.tracks, hs.called.call hdue _⟩
    | _ => simp [Shared.step, hdue] at h

/-- The laws hold after every run, whatever the order of its moves. -/
theorem Lawful.run (hs : Lawful s) {moves : List (Move α)} (h : Shared.run moves s = some t) :
    Lawful t := by
  induction moves generalizing s with
  | nil =>
    obtain rfl := Option.some.inj h
    exact hs
  | cons move moves ih =>
    obtain ⟨s', hstep, hrun⟩ := Option.bind_eq_some_iff.1 h
    exact ih (hs.step hstep) hrun

/-! ### What the calls come to

That a callback is called at most once is not the whole of it. Each clause of `Kept` names a
callback by where its registration stands in the log, and says that it is made or that it is spared.
The clauses are complete: a registration before the publication is the last of its kind or replaced,
and one behind it is of the kind of the outcome or not.
-/

/-- The log of the critical sections among moves. Only the first outcome counts. -/
def Log.after (log : Log α) : Move α → Log α
  | .register thread kind => log.request ⟨thread, kind⟩
  | .publish _ outcome => if log.published.isSome then log else log.publish outcome
  | .check thread => log.check thread
  | .call _ | .finish _ => log

/-- A call is made exactly once: it was made and is owed no more, or it is owed and no call with
its ticket was made yet. -/
def Makes (s : Shared α) (call : Call α) : Prop :=
  s.calls.filter (fun c ↦ c.ticket = call.ticket) = [call] ∧ ¬ s.Owes call ∨
    s.calls.filter (fun c ↦ c.ticket = call.ticket) = [] ∧ s.Owes call

/-- The callback with a ticket was not called, and no call of it is owed. -/
def Spares (s : Shared α) (ticket : Nat) : Prop :=
  ∀ call : Call α, call.ticket = ticket → call ∉ s.calls ∧ ¬ s.Owes call

/-- What is logged is decided by the moves, not by what the handle does with them. -/
theorem Lawful.log_step (hs : Lawful s) {move : Move α} (h : s.step move = some t) :
    t.log = s.log.after move := by
  -- a thread that owes a call can only make it, and no call is logged
  rcases hdue : (s.callers move.thread).due with - | call
  · cases move with
    | register thread kind =>
      simp only [Shared.step, hdue, Option.some.injEq] at h
      rw [← h]
      rfl
    | publish thread outcome =>
      simp only [Shared.step, hdue] at h
      have hsettled := hs.tracks.settled
      rcases hp : s.log.published with - | ⟨first, place⟩
      · rw [Handle.publish_of_incomplete (by simpa [hp] using hsettled)] at h
        rw [← Option.some.inj h]
        simp [Log.after, hp]
      · have hfirst : s.handle.settled = some first := by simpa [hp] using hsettled
        rw [Handle.publish_of_settled hfirst] at h
        rw [← Option.some.inj h]
        simp [Log.after, hp]
    | check thread =>
      simp only [Shared.step, hdue, Option.map_eq_some_iff] at h
      obtain ⟨completion, -, rfl⟩ := h
      rfl
    | call thread => simp [Shared.step, hdue] at h
    | finish thread =>
      simp only [Shared.step, hdue] at h
      split at h
      · rw [← Option.some.inj h]
        rfl
      · exact absurd h (by simp)
  · cases move with
    | call thread =>
      simp only [Shared.step, hdue, Option.some.injEq] at h
      rw [← h]
      rfl
    | _ => simp [Shared.step, hdue] at h

/-- So the log after a run can be told from its moves. -/
theorem Lawful.log_run (hs : Lawful s) {moves : List (Move α)} (h : Shared.run moves s = some t) :
    t.log = moves.foldl Log.after s.log := by
  induction moves generalizing s with
  | nil =>
    obtain rfl := Option.some.inj h
    rfl
  | cons move moves ih =>
    obtain ⟨s', hstep, hrun⟩ := Option.bind_eq_some_iff.1 h
    rw [ih (hs.step hstep) hrun, hs.log_step hstep, List.foldl_cons]

/-- What the log asks for is made exactly once. -/
theorem Called.makes (hs : Called s) {call : Call α} (h : s.log.Claims call) : s.Makes call := by
  have hsame : ∀ c ∈ s.calls, c.ticket = call.ticket → c = call := fun c hc ht ↦
    Log.Claims.unique ((hs.claims c).1 (.inl hc)) h ht
  rcases (hs.claims call).2 h with hmem | howes
  · refine .inl ⟨?_, fun howes ↦ hs.apart call howes (List.mem_map_of_mem hmem)⟩
    have hnodup : (s.calls.filter fun c ↦ c.ticket = call.ticket).Nodup :=
      (List.Nodup.of_map _ hs.once).filter _
    refine (List.perm_singleton.1 ((List.perm_ext_iff_of_nodup hnodup (List.nodup_singleton _)).2
      fun c ↦ ?_))
    simp only [List.mem_filter, decide_eq_true_eq, List.mem_singleton]
    exact ⟨fun hc ↦ hsame c hc.1 hc.2, fun hc ↦ ⟨hc ▸ hmem, by rw [hc]⟩⟩
  · refine .inr ⟨List.filter_eq_nil_iff.2 fun c hc ht ↦ ?_, howes⟩
    exact hs.apart call howes (List.mem_map.2 ⟨c, hc, by simpa using ht⟩)

/-- What the log does not ask for is not called. -/
theorem Called.spares (hs : Called s) {ticket : Nat}
    (h : ∀ call : Call α, call.ticket = ticket → ¬ s.log.Claims call) : s.Spares ticket :=
  fun call ht ↦ ⟨fun hmem ↦ h call ht ((hs.claims call).1 (.inl hmem)),
    fun howes ↦ h call ht ((hs.claims call).1 (.inr howes))⟩

/-- How the calls stand to the critical sections of the moves that were made. -/
structure Kept (moves : List (Move α)) (s : Shared α) : Prop where
  /-- The log is that of the moves. -/
  log : s.log = moves.foldl Log.after {}
  once : (s.calls.map Call.ticket).Nodup
  /-- A callback is called with the outcome that was published, and its kind is the one that this
  calls for. -/
  outcome : ∀ call ∈ s.calls, (∃ place, s.log.published = some (call.outcome, place)) ∧
    s.handle.settled = some call.outcome ∧
    ∃ thread, s.log.requests[call.ticket]? = some ⟨thread, call.outcome.callbackKind⟩
  unpublished : s.log.published = none → ∀ ticket, s.Spares ticket
  /-- A callback of the kind that came behind the outcome is called by its own registration. -/
  behind : ∀ outcome place, s.log.published = some (outcome, place) → ∀ ticket thread,
    place ≤ ticket → s.log.requests[ticket]? = some ⟨thread, outcome.callbackKind⟩ →
    s.Makes ⟨ticket, thread, outcome, .registration⟩
  /-- The last callback of the kind before the outcome is called by the firing, if none of its kind
  came in between. -/
  last : ∀ outcome place, s.log.published = some (outcome, place) → ∀ ticket,
    s.log.LastBefore outcome place ticket → ∀ thread upTo, s.log.checked = some (thread, upTo) →
    (∀ k, place ≤ k → k < upTo → ¬ s.log.Matches outcome k) →
    s.Makes ⟨ticket, thread, outcome, .firing⟩
  /-- It is not called if one came, and as long as the completion is not fired. -/
  overtaken : ∀ outcome place, s.log.published = some (outcome, place) → ∀ ticket,
    s.log.LastBefore outcome place ticket →
    (∀ thread upTo, s.log.checked = some (thread, upTo) →
      ∃ k, place ≤ k ∧ k < upTo ∧ s.log.Matches outcome k) →
    s.Spares ticket
  /-- A callback that another one of its kind replaced before the outcome is not called. -/
  replaced : ∀ outcome place, s.log.published = some (outcome, place) → ∀ ticket k,
    ticket < k → k < place → s.log.Matches outcome k → s.Spares ticket
  /-- A callback of the other kind is not called. -/
  mismatched : ∀ outcome place, s.log.published = some (outcome, place) → ∀ ticket,
    ¬ s.log.Matches outcome ticket → s.Spares ticket
  /-- A thread that owes a call makes it next, and nothing else. -/
  owed : ∀ thread call, (s.callers thread).due = some call → call.thread = thread ∧
    (∃ t, s.step (.call thread) = some t ∧ t.calls = s.calls ++ [call]) ∧
    ∀ move : Move α, move.thread = thread → (s.step move).isSome = true → move = .call thread

/-- Whatever the order of the moves, and however deep callbacks register callbacks, each is called
at most once, and those are called that the order of the critical sections asks for. -/
theorem kept_of_run (identity : Identity) (pid : Option Nat) {moves : List (Move α)}
    (h : run moves (fresh identity pid) = some s) : Kept moves s := by
  have hs := (Lawful.fresh identity pid).run h
  have hcalled := hs.called
  refine ⟨(Lawful.fresh identity pid).log_run h, hcalled.once, fun call hmem ↦ ?_,
    fun hp ticket ↦ hcalled.spares fun call _ ↦ Log.not_claims_of_published_eq_none hp,
    fun outcome place hp ticket thread hle hrequest ↦ hcalled.makes ⟨place, hp, hle, hrequest⟩,
    fun outcome place hp ticket hlast thread upTo hc hnone ↦
      hcalled.makes ⟨place, hp, hlast, upTo, hc, hnone⟩,
    fun outcome place hp ticket hlast hwindow ↦ hcalled.spares fun call ht hclaims ↦ ?_,
    fun outcome place hp ticket k hlt hk hm ↦ hcalled.spares fun call ht hclaims ↦ ?_,
    fun outcome place hp ticket hm ↦ hcalled.spares fun call ht hclaims ↦ ?_,
    fun thread call hdue ↦ ⟨hcalled.thread thread call hdue, ?_, fun move hmove hstep ↦ ?_⟩⟩
  · -- what was called was claimed, and a claim knows the outcome
    have hclaims := (hcalled.claims call).1 (.inl hmem)
    obtain ⟨place, hp, -⟩ := id hclaims
    exact ⟨⟨place, hp⟩, by simp [hs.tracks.settled, hp], hclaims.matches⟩
  · subst ht
    obtain ⟨-, hclaims⟩ := (Log.claims_iff hp).1 hclaims
    split at hclaims
    · exact Nat.not_lt_of_le hclaims.1 hlast.1
    · obtain ⟨-, upTo, hc, hnone⟩ := hclaims
      obtain ⟨k, hle, hlt, hm⟩ := hwindow _ _ hc
      exact hnone k hle hlt hm
  · subst ht
    obtain ⟨-, hclaims⟩ := (Log.claims_iff hp).1 hclaims
    split at hclaims
    · exact Nat.not_lt_of_le hclaims.1 (Nat.lt_trans hlt hk)
    · exact hclaims.1.2.2 k hlt hk hm
  · subst ht
    obtain ⟨ho, -⟩ := (Log.claims_iff hp).1 hclaims
    exact hm (ho ▸ hclaims.matches)
  · refine ⟨({ s with calls := s.calls ++ [call] }.setCaller thread
      { due := none, running := call :: (s.callers thread).running }), ?_, rfl⟩
    simp only [step, Move.thread, hdue]
  · subst hmove
    cases move with
    | call thread => rfl
    | _ => simp [step, hdue] at hstep

/-- A callback that comes behind the outcome registers another one while it runs, and a third one
comes from another thread before it is called; the callback of the other kind does not keep the
completion from being fired. -/
theorem kept_of_run_nested :
    let moves : List (Move Nat) :=
      [.register 1 .onComplete, .register 1 .onComplete, .publish 0 (.success 7),
        .register 2 .onError, .check 0, .register 1 .onComplete, .call 0, .register 2 .onComplete,
        .call 1, .register 1 .onComplete, .call 1, .call 2, .finish 1, .finish 1]
    ∃ s, run moves (fresh (.keyed "job") none) = some s ∧ Kept moves s ∧
      s.calls.map (fun call ↦ (call.ticket, call.thread)) =
        [(1, 0), (3, 1), (5, 1), (4, 2)] := by
  intro moves
  exact ⟨_, rfl, kept_of_run (.keyed "job") none rfl, rfl⟩

end Shared

end Offload
