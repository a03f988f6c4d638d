import Offload.Proofs.Termination

/-!
# A worker through its operations

What a caller can do with a worker process, from its launch to its drop, in any order. Every
operation is made of looks, waits and signals, so each one does what `Follows` says, and so does any
sequence of them (`follows_performAll`). `Kept` reads this off the record of all calls since the
launch, and `Answered` says what the answer to one operation tells of the worker.

Nothing is assumed of the system beyond its laws. It may report a worker as running for ever, fail
every look, or answer that there is no such child at once, and it need not be consistent from one
call to the next. What is said of the answers is therefore said in terms of the calls: the worker is
known to be gone if a call has told so, and then no other call is made.
-/

namespace Offload.Child

variable {σ : Type}

/-- An operation on a worker process. -/
inductive Operation where
  | isRunning
  | collect
  | waitFor (timeout : Duration)
  | wait
  | askToStop
  | kill
  | terminate (policy : TerminationPolicy)
  | drop

/-- What an operation answers. -/
inductive Reply where
  | running (b : Bool)
  /-- Whether the worker is gone, as a look or a bounded wait tells. -/
  | gone (result : Except IoKind Bool)
  /-- How the worker ended, or nothing if the wait for it never ends. -/
  | ended (result : Option (Except IoKind (Option ExitStatus)))
  | sent (result : Except IoKind Unit)
  | terminated (report : Report)
  | dropped

/-- Whether an operation failed. -/
def Reply.isError : Reply → Bool
  | .gone (.error _) | .ended (some (.error _)) | .sent (.error _) => true
  | _ => false

namespace Supervisor

/-- Carry out an operation. -/
def perform (k : Kernel σ) (w : Supervisor σ) : Operation → Reply × Supervisor σ
  | .isRunning => (w.isRunning k).map .running id
  | .collect => (w.collect k).map .gone id
  | .waitFor timeout => (w.waitFor k timeout).map .gone id
  | .wait => (w.wait k).map .ended id
  | .askToStop => (w.askToStop k).map .sent id
  | .kill => (w.kill k).map .sent id
  | .terminate policy => (Termination.run k policy w).map .terminated id
  | .drop => (.dropped, w.drop k)

/-- Carry out operations in turn. -/
def performAll (k : Kernel σ) (w : Supervisor σ) (ops : List Operation) : Supervisor σ :=
  ops.foldl (fun w op ↦ (w.perform k op).2) w

/-! ### Every operation follows

There are eight operations, and each of them is put together from looks, waits and signals. A drop
is a question, and then the forced kill and a short wait if the worker runs.
-/

variable (k : Kernel σ)

/-- A drop is a look, and the forced kill with a wait behind it if the worker is still running. -/
theorem drop_eq (k : Kernel σ) (w : Supervisor σ) :
    w.drop k = if (w.isRunning k).1 = true then
        (((w.isRunning k).2.kill k).2.waitFor k (.ofMillis 1000)).2
      else (w.isRunning k).2 := by
  fun_cases drop k w
  case case1 w' h => rw [h, if_pos rfl]
  case case2 w' h => rw [h, if_neg Bool.false_ne_true]

/-- A drop makes calls and notes what they tell, as everything else does. -/
theorem follows_drop (w : Supervisor (Recorded σ)) :
    ∃ added, Follows w (w.drop k.recording) added := by
  obtain ⟨look, hlook, -, -⟩ := follows_isRunning k w
  rw [drop_eq]
  split
  · obtain ⟨ask, hask, -, -⟩ := follows_send k .kill (w.isRunning k.recording).2
    obtain ⟨rest, hrest⟩ := waits_waitFor k (.ofMillis 1000)
      ((w.isRunning k.recording).2.kill k.recording).2
    exact ⟨_, hlook.trans (hask.trans hrest.follows)⟩
  · exact ⟨look, hlook⟩

/-- Every operation follows. -/
theorem follows_perform (w : Supervisor (Recorded σ)) (op : Operation) :
    ∃ added, Follows w (w.perform k.recording op).2 added := by
  rcases op with - | - | timeout | - | - | - | policy | -
  · obtain ⟨added, hf, -⟩ := follows_isRunning k w
    exact ⟨added, hf⟩
  · obtain ⟨added, hf, -⟩ := follows_of_collect k (w := w) (Prod.eta _).symm
    exact ⟨added, hf⟩
  · obtain ⟨added, hwaits⟩ := waits_waitFor k timeout w
    exact ⟨added, hwaits.follows⟩
  · obtain ⟨added, hf, -⟩ := follows_wait k w
    exact ⟨added, hf⟩
  · obtain ⟨added, hf, -⟩ := follows_send k .stop w
    exact ⟨added, hf⟩
  · obtain ⟨added, hf, -⟩ := follows_send k .kill w
    exact ⟨added, hf⟩
  · obtain ⟨added, hf, -⟩ := Termination.course_stop k policy w
    exact ⟨added, hf⟩
  · exact follows_drop k w

theorem follows_performAll (w : Supervisor (Recorded σ)) (ops : List Operation) :
    ∃ added, Follows w (w.performAll k.recording ops) added := by
  induction ops generalizing w with
  | nil => exact ⟨[], .refl w⟩
  | cons op ops ih =>
    obtain ⟨added, hf⟩ := follows_perform k w op
    obtain ⟨rest, hrest⟩ := ih (w.perform k.recording op).2
    exact ⟨_, hf.trans hrest⟩

/-! ### What the record tells of a worker

From the launch on, the calls tell whether the worker is known to be gone, and with which status.
-/

/-- What the calls since the launch tell of a worker. -/
structure Kept (w : Supervisor (Recorded σ)) : Prop where
  reaped_iff : w.reaped = true ↔ tellEnd w.calls
  /-- Nothing is asked behind the call that tells of the end. -/
  last : ∀ before c after, w.calls = before ++ c :: after → c.ending? ≠ none → after = []
  status_iff : ∀ status, w.status = some status ↔ ∃ c ∈ w.calls, c.ending? = some (some status)

variable {w w' : Supervisor (Recorded σ)} {added : List Call}

/-- What follows from a worker as it was launched is kept by its record. -/
theorem Kept.of_follows {launched : Supervisor (Recorded σ)}
    (h : Follows launched w w.calls) (hr : launched.reaped = false)
    (hs : launched.status = none) : Kept w := by
  rcases hw : w.reaped with - | -
  · obtain ⟨hno, hstatus⟩ := h.running hw
    refine ⟨h.reaped_iff hr, ?_, ?_⟩
    · intro before c after hcalls hc
      exact absurd ⟨c, hcalls ▸ List.mem_append_cons_self, hc⟩ hno
    · intro status
      rw [hstatus, hs]
      refine iff_of_false (by simp) ?_
      rintro ⟨c, hmem, hc⟩
      exact hno ⟨c, hmem, by simp [hc]⟩
  · obtain ⟨before', c', hcalls', hno, hc'⟩ := h.gone hr hw
    refine ⟨h.reaped_iff hr, ?_, ?_⟩
    · intro before c after hcalls hc
      rcases List.eq_nil_or_concat' after with rfl | ⟨init, x, rfl⟩
      · rfl
      · rw [hcalls', ← List.cons_append, ← List.append_assoc] at hcalls
        obtain rfl := (List.append_inj' hcalls rfl).1
        exact absurd ⟨c, List.mem_append_cons_self, hc⟩ hno
    · intro status
      rw [hcalls']
      constructor
      · intro hstatus
        exact ⟨c', List.mem_append_right _ List.mem_cons_self, by rw [hc', hstatus]⟩
      · rintro ⟨c, hmem, hc⟩
        rcases List.mem_append.1 hmem with hbefore | hsingle
        · exact absurd ⟨c, hbefore, by simp [hc]⟩ hno
        · rw [List.mem_singleton.1 hsingle, hc'] at hc
          exact Option.some.inj hc

/-! ### What an answer tells of a worker -/

/-- Whether an answer fits the worker that the operation leaves. -/
def Fits (w : Supervisor (Recorded σ)) : Reply → Prop
  | .running b => w.reaped = !b
  | .gone result => Tells result w
  | .ended result => TellsEnd result w
  | .sent (.error _) => w.reaped = false
  | .sent (.ok _) | .terminated _ | .dropped => True

/-- A signal that could not be sent went to a worker that is not known to be gone. -/
theorem fits_send (signal : Signal) (w : Supervisor (Recorded σ)) :
    Fits (w.send k.recording signal).2 (.sent (w.send k.recording signal).1) := by
  obtain ⟨added, -, hr', ⟨hr, -⟩ | ⟨hr, -⟩⟩ := follows_send k signal w
  · rw [send_of_reaped hr]
    exact True.intro
  · rw [hr] at hr'
    rcases h : (w.send k.recording signal).1 with kind | ⟨⟩
    · exact hr'
    · exact True.intro

/-- Every answer fits what is known of the worker when it is given. -/
theorem fits_perform (w : Supervisor (Recorded σ)) (op : Operation) :
    Fits (w.perform k.recording op).2 (w.perform k.recording op).1 := by
  rcases op with - | - | timeout | - | - | - | policy | -
  · obtain ⟨added, -, hrunning, -⟩ := follows_isRunning k w
    exact hrunning
  · obtain ⟨added, -, htells, -⟩ := follows_of_collect k (w := w) (Prod.eta _).symm
    exact htells
  · obtain ⟨added, hwaits⟩ := waits_waitFor k timeout w
    exact hwaits.tells
  · obtain ⟨added, -, htells⟩ := follows_wait k w
    exact htells
  · exact fits_send k .stop w
  · exact fits_send k .kill w
  · exact True.intro
  · exact True.intro

/-- Only an operation on a worker that is not known to be gone can fail. -/
theorem Fits.not_reaped_of_isError {reply : Reply} (h : Fits w reply)
    (he : reply.isError = true) : w.reaped = false := by
  rcases reply with b | ⟨kind | gone⟩ | (- | kind | status) | ⟨kind | ⟨⟩⟩ | report | -
  all_goals first
    | exact h
    | exact Bool.noConfusion he

/-- What one operation makes of the worker `w`, and what its answer tells. -/
structure Answered (w w' : Supervisor (Recorded σ)) (reply : Reply) : Prop where
  pid : w'.pid = w.pid
  calls : w.calls <+: w'.calls
  /-- Nothing is asked and nothing changes once the worker is known to be gone. -/
  idle : w.reaped = true → w' = w
  running_iff : ∀ b, reply = .running b → (b = false ↔ w'.reaped = true)
  gone_iff : ∀ result, reply = .gone result → (result = .ok true ↔ w'.reaped = true)
  ended : ∀ status, reply = .ended (some (.ok status)) → w'.reaped = true ∧ w'.status = status
  /-- A failure changes nothing that is known of the worker. -/
  failed : reply.isError = true → w'.reaped = w.reaped ∧ w'.status = w.status

/-- Every operation answers for itself, whatever was done before. -/
theorem answered_perform (w : Supervisor (Recorded σ)) (op : Operation) :
    Answered w (w.perform k.recording op).2 (w.perform k.recording op).1 := by
  obtain ⟨added, hf⟩ := follows_perform k w op
  have hfits := fits_perform k w op
  refine ⟨hf.pid, ⟨added, hf.calls.symm⟩, hf.idle, ?_, ?_, ?_, ?_⟩
  · intro b hb
    rw [hb] at hfits
    have hrunning : (w.perform k.recording op).2.reaped = !b := hfits
    simp [hrunning]
  · intro result hresult
    rw [hresult] at hfits
    exact Tells.ok_true_iff hfits
  · intro status hstatus
    rw [hstatus] at hfits
    exact hfits
  · intro he
    have hr := hfits.not_reaped_of_isError he
    exact ⟨hr.trans (hf.not_reaped hr).symm, (hf.running hr).2⟩

/-! ### The same without the record -/

theorem forget_drop (w : Supervisor (Recorded σ)) :
    w.forget.drop k = (w.drop k.recording).forget := by
  rw [drop_eq, drop_eq, forget_isRunning]
  dsimp only
  split
  · rw [kill, forget_send, forget_waitFor]
    rfl
  · rfl

/-- Every operation is the same without the record, with its answer. -/
theorem forget_perform (w : Supervisor (Recorded σ)) (op : Operation) :
    w.forget.perform k op =
      ((w.perform k.recording op).1, (w.perform k.recording op).2.forget) := by
  rcases op with - | - | timeout | - | - | - | policy | -
  · exact congrArg (Prod.map Reply.running id) (forget_isRunning k w)
  · exact congrArg (Prod.map Reply.gone id) (forget_of_collect k (Prod.eta _).symm)
  · exact congrArg (Prod.map Reply.gone id) (forget_waitFor k timeout w)
  · exact congrArg (Prod.map Reply.ended id) (forget_wait k w)
  · exact congrArg (Prod.map Reply.sent id) (forget_send k .stop w)
  · exact congrArg (Prod.map Reply.sent id) (forget_send k .kill w)
  · exact congrArg (Prod.map Reply.terminated id) (Termination.forget_run k policy w)
  · exact congrArg (Reply.dropped, ·) (forget_drop k w)

theorem forget_performAll (w : Supervisor (Recorded σ)) (ops : List Operation) :
    w.forget.performAll k ops = (w.performAll k.recording ops).forget := by
  induction ops generalizing w with
  | nil => rfl
  | cons op ops ih =>
    show ((w.forget.perform k op).2).performAll k ops = _
    rw [forget_perform]
    exact ih (w.perform k.recording op).2

/-! ### From the launch to the drop

What holds of one operation holds of all in turn, since what the next one starts from is a record as
well. A drop is an operation like any other, and may stand anywhere.
-/

/-- A worker as it is launched, in any state of the system. -/
def launch (pid : Nat) (name : String) (system : σ) : Supervisor σ :=
  { pid, name, system }

/-- The record of a worker is kept by all that is done with it from its launch on. -/
theorem kept_performAll (pid : Nat) (name : String) (system : σ) (ops : List Operation) :
    Kept ((launch pid name system).recorded.performAll k.recording ops) := by
  obtain ⟨added, hf⟩ := follows_performAll k (launch pid name system).recorded ops
  obtain rfl : _ = added := hf.calls
  exact .of_follows hf rfl rfl

/-- Whatever is done with a worker from its launch on, and whatever the system answers: the calls so
far tell what is known of it, and the next operation keeps to that. What is recorded changes nothing
of all this. -/
theorem answered_of_performAll (pid : Nat) (name : String) (system : σ) (ops : List Operation) :
    let w := (launch pid name system).recorded.performAll k.recording ops
    (launch pid name system).performAll k ops = w.forget ∧ Kept w ∧
      ∀ op, w.forget.perform k op =
          ((w.perform k.recording op).1, (w.perform k.recording op).2.forget) ∧
        Answered w (w.perform k.recording op).2 (w.perform k.recording op).1 ∧
        ∀ status, w.status = some status →
          (w.perform k.recording op).2.status = some status := by
  intro w
  have hkept : Kept w := kept_performAll k pid name system ops
  refine ⟨forget_performAll k (launch pid name system).recorded ops, hkept, fun op ↦ ?_⟩
  refine ⟨forget_perform k w op, answered_perform k w op, fun status hstatus ↦ ?_⟩
  obtain ⟨c, hmem, hc⟩ := (hkept.status_iff status).1 hstatus
  have hr := hkept.reaped_iff.2 ⟨c, hmem, by simp [hc]⟩
  rw [(answered_perform k w op).idle hr]
  exact hstatus

end Supervisor

end Offload.Child
