import Offload.Proofs.Limiter
import Offload.Proofs.Limiters
import Mathlib.Data.List.Infix
import Mathlib.Data.List.Perm.Subperm

/-!
# Limiters as counters of their own

Operations on a family of limiters, in any order, each through one reference. What a counter is fed
is decided by the operations alone: `owners` says which references are clones of which limiter, and
`fed` picks the operations on one limiter and one key. The tables come to the same as such counters,
one for each limiter and each key, and a table has an entry for a key once a call of it was admitted
there (`Independent`).

`Family` says of every reference that it stands for the table of its owner, and that the table keeps
what it was fed. Every operation of a program keeps that so (`Family.concat`).

That a program has a reference only once it was made is all that `Valid` asks. It is what a type of
references gives to a program for nothing, and it is decidable. An operation through a number that
was never handed out has no limiter that it could be about.

The induction is on the list from its end, since `owners`, `fed` and `Admitted` are about what came
before. For each kind of operation one lemma shows that it replaces one table at most
(`Family.of_set`), or adds one reference (`Family.clone`, `Family.new`).
-/

namespace Offload

namespace Limiters

/-! ### Operations

Everything here is computed from the list of operations, without a look at a table. `owners` follows
references, `fed` follows one key of one owner, and what comes out is what a program could count for
itself if it had a counter for each of them.
-/

/-- An operation on a family. A reference is the number of those made before it. -/
inductive Operation where
  | new
  | clone (reference : Nat)
  | enter (reference : Nat) (i : Identity) (limit : Limit)
  | release (reference : Nat) (i : Identity)
  | inFlight (reference : Nat) (i : Identity)

/-- What an operation answers. -/
inductive Reply where
  | made (reference : Nat)
  | admitted (b : Bool)
  | released
  | count (n : Nat)
  deriving DecidableEq

/-- Carry out an operation. -/
def perform (ls : Limiters) : Operation → Reply × Limiters
  | .new => ls.new.map .made id
  | .clone reference => (ls.clone reference).map .made id
  | .enter reference i limit => (ls.enter reference i limit).map .admitted id
  | .release reference i => (.released, ls.release reference i)
  | .inFlight reference i => (.count (ls.inFlight reference i), ls)

/-- The family that operations make, where there was no limiter before. -/
def after (ops : List Operation) : Limiters :=
  ops.foldl (fun ls op ↦ (ls.perform op).2) {}

namespace Operation

/-- The reference that an operation goes through. -/
def reference? : Operation → Option Nat
  | new => none
  | clone reference | enter reference _ _ | release reference _ | inFlight reference _ =>
    some reference

/-- The owners of the references after an operation. A new limiter is an owner of its own. -/
def extend (owners : List Nat) : Operation → List Nat
  | new => owners ++ [owners.length]
  | clone reference => owners ++ owners[reference]?.toList
  | _ => owners

/-- What an operation does to the counter of an owner and a key. -/
def steps (owners : List Nat) (owner : Nat) (key : Identity.Key) :
    Operation → List Counter.Step
  | enter reference i limit =>
    if owners[reference]? = some owner ∧ i.key = key then [.enter limit] else []
  | release reference i =>
    if owners[reference]? = some owner ∧ i.key = key then [.release] else []
  | _ => []

end Operation

/-- For each reference the limiter that it is a clone of, known by its first reference. -/
def owners (ops : List Operation) : List Nat :=
  ops.foldl Operation.extend []

/-- The steps of the operations on one owner and one key. -/
def fedFrom (owner : Nat) (key : Identity.Key) (owners : List Nat) :
    List Operation → List Counter.Step
  | [] => []
  | op :: rest => op.steps owners owner key ++ fedFrom owner key (op.extend owners) rest

/-- What the counter of an owner and a key is fed. -/
def fed (ops : List Operation) (owner : Nat) (key : Identity.Key) : List Counter.Step :=
  fedFrom owner key [] ops

/-- Whether operations go only through references that were made before. -/
def validFrom (owners : List Nat) : List Operation → Bool
  | [] => true
  | op :: rest =>
    op.reference?.all (fun reference ↦ reference < owners.length) &&
      validFrom (op.extend owners) rest

/-- A program has a reference only once it was made. -/
def Valid (ops : List Operation) : Prop :=
  validFrom [] ops = true

instance (ops : List Operation) : Decidable (Valid ops) :=
  inferInstanceAs (Decidable (validFrom [] ops = true))

/-- Whether a call of a key was admitted in the table of an owner. -/
def Admitted (ops : List Operation) (owner : Nat) (key : Identity.Key) : Prop :=
  ∃ before reference i limit, before ++ [.enter reference i limit] <+: ops ∧
    (owners before)[reference]? = some owner ∧ i.key = key ∧
    ((after before).enter reference i limit).1 = true

variable {ops more : List Operation} {op : Operation} {r owner : Nat} {key : Identity.Key}

/-- The last operation is carried out on what those before it made. -/
theorem after_concat (ops : List Operation) (op : Operation) :
    after (ops ++ [op]) = ((after ops).perform op).2 := by
  simp [after]

/-- Each operation extends the owners by what it makes. -/
theorem owners_concat (ops : List Operation) (op : Operation) :
    owners (ops ++ [op]) = op.extend (owners ops) := by
  simp [owners]

/-- What a counter is fed by two parts it is fed in turn, the second with the owners that the first
part leaves. -/
theorem fedFrom_append (owner : Nat) (key : Identity.Key) (known : List Nat)
    (ops more : List Operation) :
    fedFrom owner key known (ops ++ more) =
      fedFrom owner key known ops ++ fedFrom owner key (ops.foldl Operation.extend known) more := by
  induction ops generalizing known with
  | nil => rfl
  | cons op rest ih => simp [fedFrom, ih]

/-- The last operation feeds a counter if it goes through a reference to its owner. -/
theorem fed_concat (ops : List Operation) (op : Operation) (owner : Nat) (key : Identity.Key) :
    fed (ops ++ [op]) owner key = fed ops owner key ++ op.steps (owners ops) owner key := by
  rw [fed, fedFrom_append, ← fed, ← owners, fedFrom, fedFrom, List.append_nil]

/-- A program is valid if its parts are, the second with the references that the first one makes. -/
theorem validFrom_append (known : List Nat) (ops more : List Operation) :
    validFrom known (ops ++ more) =
      (validFrom known ops && validFrom (ops.foldl Operation.extend known) more) := by
  induction ops generalizing known with
  | nil => rfl
  | cons op rest ih => simp [validFrom, ih, Bool.and_assoc]

theorem Valid.of_append (h : Valid (ops ++ more)) : Valid ops := by
  rw [Valid, validFrom_append, Bool.and_eq_true] at h
  exact h.1

/-- The last operation goes through a reference that has an owner. -/
theorem Valid.exists_owner (h : Valid (ops ++ [op])) (hr : op.reference? = some r) :
    ∃ owner, (owners ops)[r]? = some owner := by
  rw [Valid, validFrom_append, Bool.and_eq_true, ← owners] at h
  have hlt : r < (owners ops).length := by simpa [validFrom, hr] using h.2
  exact ⟨_, List.getElem?_eq_getElem hlt⟩

theorem owners_prefix_append (ops more : List Operation) : owners ops <+: owners (ops ++ more) := by
  induction more using List.reverseRecOn with
  | nil => rw [List.append_nil]
  | append_singleton more op ih =>
    rw [← List.append_assoc, owners_concat]
    refine ih.trans ?_
    rcases op with - | r | - | - | -
    all_goals first | exact List.prefix_append .. | exact List.prefix_rfl

theorem getElem?_owners_append (h : (owners ops)[r]? = some owner) (more : List Operation) :
    (owners (ops ++ more))[r]? = some owner := by
  obtain ⟨rest, hrest⟩ := owners_prefix_append ops more
  rw [← hrest, List.getElem?_append_left (List.getElem?_eq_some_iff.1 h).1, h]

/-- An owner is a reference that was made before. -/
theorem lt_length_owners (h : owner ∈ owners ops) : owner < (owners ops).length := by
  induction ops using List.reverseRecOn with
  | nil => simp [owners] at h
  | append_singleton ops op ih =>
    rw [owners_concat] at h ⊢
    rcases op with - | r | ⟨r, i, limit⟩ | ⟨r, i⟩ | ⟨r, i⟩
    · simp only [Operation.extend, List.mem_append, List.mem_singleton, List.length_append,
        List.length_singleton] at h ⊢
      rcases h with h | rfl
      · exact Nat.lt_succ_of_lt (ih h)
      · exact Nat.lt_succ_self _
    · simp only [Operation.extend, List.mem_append, Option.mem_toList,
        List.length_append] at h ⊢
      have hlt : owner < (owners ops).length :=
        h.elim ih fun hr ↦ ih (List.mem_of_getElem? hr)
      omega
    all_goals exact ih h

/-- A key is admitted by the last operation or was admitted before it. -/
theorem admitted_concat :
    Admitted (ops ++ [op]) owner key ↔ Admitted ops owner key ∨
      ∃ r i limit, op = .enter r i limit ∧ (owners ops)[r]? = some owner ∧ i.key = key ∧
        ((after ops).enter r i limit).1 = true := by
  constructor
  · rintro ⟨before, r, i, limit, hpre, h⟩
    rcases List.prefix_concat_iff.1 hpre with heq | hpre
    · obtain ⟨rfl, hop⟩ := List.append_inj' heq rfl
      exact .inr ⟨r, i, limit, (List.singleton_inj.1 hop).symm, h⟩
    · exact .inl ⟨before, r, i, limit, hpre, h⟩
  · rintro (⟨before, r, i, limit, hpre, h⟩ | ⟨r, i, limit, rfl, h⟩)
    · exact ⟨before, r, i, limit, hpre.trans (List.prefix_append ..), h⟩
    · exact ⟨ops, r, i, limit, List.prefix_rfl, h⟩

theorem Admitted.append (h : Admitted ops owner key) (more : List Operation) :
    Admitted (ops ++ more) owner key := by
  obtain ⟨before, r, i, limit, hpre, h⟩ := h
  exact ⟨before, r, i, limit, hpre.trans (List.prefix_append ..), h⟩

/-- Nothing was done in the table of an owner that is not there yet. -/
theorem fed_eq_nil (h : owner ∉ owners ops) (key : Identity.Key) : fed ops owner key = [] := by
  induction ops using List.reverseRecOn with
  | nil => rfl
  | append_singleton ops op ih =>
    have hbefore : owner ∉ owners ops :=
      fun hmem ↦ h ((owners_prefix_append ops [op]).subset hmem)
    have hgoes (r : Nat) : (owners ops)[r]? ≠ some owner :=
      fun hr ↦ hbefore (List.mem_of_getElem? hr)
    rw [fed_concat, ih hbefore, List.nil_append]
    rcases op with - | r | ⟨r, i, limit⟩ | ⟨r, i⟩ | ⟨r, i⟩ <;> simp [Operation.steps, hgoes]

/-- Only an owner that is there admits. -/
theorem Admitted.mem_owners (h : Admitted ops owner key) : owner ∈ owners ops := by
  obtain ⟨before, r, i, limit, ⟨rest, rfl⟩, hr, -⟩ := h
  rw [List.append_assoc]
  exact List.mem_of_getElem? (getElem?_owners_append hr _)

/-! ### The tables keep what they were fed

The invariant has one clause for each reference. An operation through a reference is an operation on
the table of its owner, so the clones of the same owner see it and all others do not; that is the
isolation, and `Family.of_set` is where it is used.
-/

/-- A reference has an owner after a new one was made: either it had it before, or it is the new
one. -/
theorem owner_of_concat {known : List Nat} {o : Nat} (h : (known ++ [owner])[r]? = some o) :
    known[r]? = some o ∨ r = known.length ∧ o = owner := by
  rcases Nat.lt_or_ge r known.length with hlt | hge
  · exact .inl (by rwa [List.getElem?_append_left hlt] at h)
  · have hr : r = known.length := by
      have hlt := (List.getElem?_eq_some_iff.1 h).1
      rw [List.length_append, List.length_singleton] at hlt
      omega
    rw [hr, List.getElem?_concat_length] at h
    exact .inr ⟨hr, (Option.some.inj h).symm⟩

/-- Every reference stands for the table of its owner. -/
structure Family (ops : List Operation) : Prop where
  length_eq : (after ops).references.length = (owners ops).length
  position?_eq_iff : ∀ {r r' o o'}, (owners ops)[r]? = some o → (owners ops)[r']? = some o' →
    ((after ops).position? r' = (after ops).position? r ↔ o' = o)
  get?_eq : ∀ {r o}, (owners ops)[r]? = some o → ∃ table, (after ops).get? r = some table ∧
    table.Keeps (fed ops o) (Admitted ops o)

namespace Family

/-- Without operations there are no references, and nothing is to be shown. -/
theorem nil : Family [] :=
  ⟨rfl, fun h ↦ by simp [owners] at h, fun h ↦ by simp [owners] at h⟩

/-- An operation that replaces the table of one owner. -/
theorem of_set (hF : Family ops) (howners : owners (ops ++ [op]) = owners ops)
    (hr : (owners ops)[r]? = some owner) {table new : Limiter}
    (hget : (after ops).get? r = some table) (hafter : after (ops ++ [op]) = (after ops).set r new)
    (hnew : new.Keeps (fed (ops ++ [op]) owner) (Admitted (ops ++ [op]) owner))
    (hother : ∀ o, o ≠ owner → ∀ key, fed (ops ++ [op]) o key = fed ops o key ∧
      (Admitted (ops ++ [op]) o key ↔ Admitted ops o key)) : Family (ops ++ [op]) := by
  refine ⟨?_, fun {r₁ r₂ o₁ o₂} h₁ h₂ ↦ ?_, fun {r' o} h' ↦ ?_⟩
  · rw [hafter, howners, ← hF.length_eq, set]
    split <;> rfl
  · rw [howners] at h₁ h₂
    rw [hafter, position?_set, position?_set, hF.position?_eq_iff h₁ h₂]
  · rw [howners] at h'
    rw [hafter, get?_set hget]
    by_cases ho : o = owner
    · rw [if_pos ((hF.position?_eq_iff hr h').2 ho)]
      exact ⟨new, rfl, ho ▸ hnew⟩
    · rw [if_neg fun hp ↦ ho ((hF.position?_eq_iff hr h').1 hp)]
      obtain ⟨table', hget', hkeeps⟩ := hF.get?_eq h'
      exact ⟨table', hget', hkeeps.congr (fun key ↦ (hother o ho key).1)
        fun key ↦ (hother o ho key).2⟩

/-- An admission is fed to the counter of its owner and key, and the table takes it there. -/
theorem enter (hF : Family ops) (hr : (owners ops)[r]? = some owner) (i : Identity)
    (limit : Limit) : Family (ops ++ [.enter r i limit]) := by
  obtain ⟨table, hget, hkeeps⟩ := hF.get?_eq hr
  have hadmitted (o : Nat) (key : Identity.Key) :
      Admitted (ops ++ [.enter r i limit]) o key ↔ Admitted ops o key ∨
        owner = o ∧ i.key = key ∧ limit.admits (table.inFlight i) = true := by
    rw [admitted_concat, ← inFlight_of_get? hget, ← enter_fst hget]
    constructor
    · rintro (h | ⟨r', i', limit', hop, ho, hk, hadmits⟩)
      · exact .inl h
      · obtain ⟨rfl, rfl, rfl⟩ := Operation.enter.inj hop
        exact .inr ⟨Option.some.inj (hr.symm.trans ho), hk, hadmits⟩
    · rintro (h | ⟨rfl, hk, hadmits⟩)
      · exact .inl h
      · exact .inr ⟨r, i, limit, rfl, hr, hk, hadmits⟩
  refine hF.of_set (owners_concat ..) hr hget ?_
    (hkeeps.enter i limit (fun key ↦ ?_) fun key ↦ ?_) fun o ho key ↦ ⟨?_, ?_⟩
  · rw [after_concat, perform, Prod.map_snd, id, enter_of_get? hget]
  · simp [fed_concat, Operation.steps, hr]
  · simp [hadmitted]
  · simp [fed_concat, Operation.steps, hr, Ne.symm ho]
  · simp [hadmitted, Ne.symm ho]

/-- A release is counted in the table of its reference. -/
theorem release (hF : Family ops) (hr : (owners ops)[r]? = some owner) (i : Identity) :
    Family (ops ++ [.release r i]) := by
  obtain ⟨table, hget, hkeeps⟩ := hF.get?_eq hr
  have hadmitted (o : Nat) (key : Identity.Key) :
      Admitted (ops ++ [.release r i]) o key ↔ Admitted ops o key := by
    simp [admitted_concat]
  refine hF.of_set (owners_concat ..) hr hget ?_
    ((hkeeps.release i fun key ↦ ?_).congr (fun _ ↦ rfl) (hadmitted owner))
    fun o ho key ↦ ⟨?_, hadmitted o key⟩
  · rw [after_concat, perform, release_of_get? hget]
  · simp [fed_concat, Operation.steps, hr]
  · simp [fed_concat, Operation.steps, hr, Ne.symm ho]

/-- A question is fed to no counter. -/
theorem inFlight (hF : Family ops) (hr : (owners ops)[r]? = some owner) (i : Identity) :
    Family (ops ++ [.inFlight r i]) := by
  obtain ⟨table, hget, hkeeps⟩ := hF.get?_eq hr
  have hsame (o : Nat) (key : Identity.Key) :
      fed (ops ++ [.inFlight r i]) o key = fed ops o key ∧
        (Admitted (ops ++ [.inFlight r i]) o key ↔ Admitted ops o key) := by
    simp [fed_concat, admitted_concat, Operation.steps]
  refine hF.of_set (owners_concat ..) hr hget ?_
    (hkeeps.congr (fun key ↦ (hsame owner key).1) fun key ↦ (hsame owner key).2)
    fun o _ key ↦ hsame o key
  rw [after_concat, perform]
  simpa [hget] using (set_getD_get? (after ops) r).symm

/-- A clone stands where the reference stands that it was made from. -/
theorem clone (hF : Family ops) (hr : (owners ops)[r]? = some owner) :
    Family (ops ++ [.clone r]) := by
  have howners : owners (ops ++ [.clone r]) = owners ops ++ [owner] := by
    simp [owners_concat, Operation.extend, hr]
  obtain ⟨table, hget, -⟩ := hF.get?_eq hr
  obtain ⟨p, hp, -⟩ := Option.bind_eq_some_iff.1 hget
  have hafter : after (ops ++ [.clone r]) =
      { after ops with references := (after ops).references ++ [p] } := by
    rw [after_concat, perform, Prod.map_snd, id, Limiters.clone, hp, Option.getD_some]
  -- where a reference stands now, one of the same owner stood before
  have hold {r' o : Nat} (h' : (owners (ops ++ [.clone r]))[r']? = some o) :
      ∃ r₀, (owners ops)[r₀]? = some o ∧
        (after (ops ++ [.clone r])).position? r' = (after ops).position? r₀ := by
    rw [howners] at h'
    rcases owner_of_concat h' with h' | ⟨rfl, rfl⟩
    · have hlt := (List.getElem?_eq_some_iff.1 h').1
      refine ⟨r', h', ?_⟩
      rw [hafter, position?, List.getElem?_append_left (hF.length_eq ▸ hlt), position?]
    · refine ⟨r, hr, ?_⟩
      rw [hafter, position?, ← hF.length_eq, List.getElem?_concat_length, hp]
  refine ⟨?_, fun {r₁ r₂ o₁ o₂} h₁ h₂ ↦ ?_, fun {r' o} h' ↦ ?_⟩
  · rw [hafter, howners, List.length_append, List.length_append, hF.length_eq]
    rfl
  · obtain ⟨r₁', h₁', hp₁⟩ := hold h₁
    obtain ⟨r₂', h₂', hp₂⟩ := hold h₂
    rw [hp₁, hp₂, hF.position?_eq_iff h₁' h₂']
  · obtain ⟨r₀, h₀, hp₀⟩ := hold h'
    obtain ⟨table', hget', hkeeps⟩ := hF.get?_eq h₀
    refine ⟨table', ?_, hkeeps.congr (fun key ↦ ?_) fun key ↦ ?_⟩
    · rw [← hget', get?, get?, hp₀, hafter]
    · simp [fed_concat, Operation.steps]
    · simp [admitted_concat]

/-- A new limiter has a table of its own, where none was before. -/
theorem new (hF : Family ops) : Family (ops ++ [.new]) := by
  have howners : owners (ops ++ [.new]) = owners ops ++ [(owners ops).length] :=
    owners_concat ..
  have hafter : after (ops ++ [.new]) = ⟨(after ops).tables ++ [.empty],
      (after ops).references ++ [(after ops).tables.length]⟩ := by
    rw [after_concat]
    rfl
  have hfed (o : Nat) (key : Identity.Key) : fed (ops ++ [.new]) o key = fed ops o key := by
    simp [fed_concat, Operation.steps]
  have hadmitted (o : Nat) (key : Identity.Key) :
      Admitted (ops ++ [.new]) o key ↔ Admitted ops o key := by
    simp [admitted_concat]
  -- a reference from before stands where it stood
  have hold {r o : Nat} (h : (owners ops)[r]? = some o) :
      ∃ p, p < (after ops).tables.length ∧ (after ops).position? r = some p ∧
        (after (ops ++ [.new])).position? r = some p := by
    obtain ⟨table, hget, -⟩ := hF.get?_eq h
    obtain ⟨p, hp, ht⟩ := Option.bind_eq_some_iff.1 hget
    have hlt := (List.getElem?_eq_some_iff.1 h).1
    refine ⟨p, (List.getElem?_eq_some_iff.1 ht).1, hp, ?_⟩
    rw [hafter, position?, List.getElem?_append_left (hF.length_eq ▸ hlt), ← position?, hp]
  have hnew : (after (ops ++ [.new])).position? (owners ops).length =
      some (after ops).tables.length := by
    rw [hafter, position?, ← hF.length_eq, List.getElem?_concat_length]
  have hfresh : (owners ops).length ∉ owners ops :=
    fun hmem ↦ Nat.lt_irrefl _ (lt_length_owners hmem)
  refine ⟨?_, fun {r₁ r₂ o₁ o₂} h₁ h₂ ↦ ?_, fun {r' o} h' ↦ ?_⟩
  · rw [hafter, howners, List.length_append, List.length_append, hF.length_eq]
    rfl
  · rw [howners] at h₁ h₂
    rcases owner_of_concat h₁ with h₁ | ⟨rfl, rfl⟩ <;>
      rcases owner_of_concat h₂ with h₂ | ⟨rfl, rfl⟩
    · obtain ⟨p₁, -, hp₁, hp₁'⟩ := hold h₁
      obtain ⟨p₂, -, hp₂, hp₂'⟩ := hold h₂
      rw [hp₁', hp₂', ← hp₁, ← hp₂, hF.position?_eq_iff h₁ h₂]
    · obtain ⟨p, hlt, -, hp⟩ := hold h₁
      have ho := lt_length_owners (List.mem_of_getElem? h₁)
      rw [hnew, hp, Option.some.injEq]
      omega
    · obtain ⟨p, hlt, -, hp⟩ := hold h₂
      have ho := lt_length_owners (List.mem_of_getElem? h₂)
      rw [hnew, hp, Option.some.injEq]
      omega
    · exact ⟨fun _ ↦ rfl, fun _ ↦ rfl⟩
  · rw [howners] at h'
    rcases owner_of_concat h' with h' | ⟨rfl, rfl⟩
    · obtain ⟨p, hlt, hp, hp'⟩ := hold h'
      obtain ⟨table, hget, hkeeps⟩ := hF.get?_eq h'
      refine ⟨table, ?_, hkeeps.congr (hfed o) (hadmitted o)⟩
      rw [get?, hp', hafter, Option.bind_some, List.getElem?_append_left hlt, ← hget, get?, hp,
        Option.bind_some]
    · refine ⟨.empty, ?_, Limiter.Keeps.empty.congr (fun key ↦ ?_) fun key ↦ ?_⟩
      · rw [get?, hnew, hafter, Option.bind_some, List.getElem?_concat_length]
      · rw [hfed, fed_eq_nil hfresh]
      · rw [hadmitted]
        exact iff_false_intro fun h ↦ hfresh h.mem_owners

/-- Every operation of a valid program keeps the family. -/
theorem concat (hF : Family ops) (hvalid : Valid (ops ++ [op])) : Family (ops ++ [op]) := by
  rcases op with - | r | ⟨r, i, limit⟩ | ⟨r, i⟩ | ⟨r, i⟩
  · exact hF.new
  all_goals obtain ⟨owner, hr⟩ := hvalid.exists_owner rfl
  · exact hF.clone hr
  · exact hF.enter hr i limit
  · exact hF.release hr i
  · exact hF.inFlight hr i

end Family

/-- After every valid program the references stand for the tables of their owners, and these keep
what they were fed. -/
theorem family_of_valid (h : Valid ops) : Family ops := by
  induction ops using List.reverseRecOn with
  | nil => exact .nil
  | append_singleton ops op ih => exact (ih h.of_append).concat h

/-! ### Every program

The statement is about what a program can see: the answer to an admission, the answer to a question,
and which keys have an entry. It compares them with the counters and does not mention the tables in
between.
-/

theorem release_of_inFlight_eq_zero {ls : Limiters} {i : Identity} (h : ls.inFlight r i = 0) :
    ls.release r i = ls := by
  rcases hget : ls.get? r with - | table
  · rw [Limiters.release, hget]
  · rw [inFlight_of_get? hget] at h
    rw [release_of_get? hget, Limiter.release_of_inFlight_eq_zero h]
    simpa [hget] using set_getD_get? ls r

/-- What a program gets from a reference to the limiter `owner` after `ops`, and what can come
next. -/
structure Independent (ops : List Operation) (r owner : Nat) : Prop where
  new_eq : ((after ops).perform .new).1 = .made (owners ops).length
  clone_eq : ((after ops).perform (.clone r)).1 = .made (owners ops).length
  /-- Nothing but the steps of one counter decides about an admission. -/
  enter_eq : ∀ i limit, ((after ops).perform (.enter r i limit)).1 =
    .admitted (Counter.goesUp (Counter.count (fed ops owner i.key)) limit)
  inFlight_eq : ∀ i, ((after ops).perform (.inFlight r i)).1 =
    .count (Counter.count (fed ops owner i.key))
  rejected : ∀ i limit, ((after ops).perform (.enter r i limit)).1 = .admitted false →
    ((after ops).perform (.enter r i limit)).2 = after ops
  release_zero : ∀ i, (after ops).inFlight r i = 0 →
    ((after ops).perform (.release r i)).2 = after ops
  /-- The entries are for the keys of which a call was admitted. -/
  tracked_eq : ∃ keys : List Identity.Key, keys.Nodup ∧
    (∀ key, key ∈ keys ↔ Admitted ops owner key) ∧ (after ops).tracked r = keys.length
  tracked_le : ∀ more, Valid (ops ++ more) →
    (after ops).tracked r ≤ (after (ops ++ more)).tracked r

/-- Limiters count as if each key of each limiter had a counter of its own. -/
theorem independent_of_valid (hvalid : Valid ops) (hr : (owners ops)[r]? = some owner) :
    Independent ops r owner := by
  -- what the table has, the counters have; the answers are read off the table
  have hfamily := family_of_valid hvalid
  obtain ⟨table, hget, hkeeps⟩ := hfamily.get?_eq hr
  have hinFlight (i : Identity) :
      (after ops).inFlight r i = Counter.count (fed ops owner i.key) := by
    rw [inFlight_of_get? hget, hkeeps.inFlight_eq]
  have htracked : (after ops).tracked r = table.keys.length := by
    rw [tracked, hget, Option.map_some, Option.getD_some, Limiter.length_keys]
  refine ⟨congrArg Reply.made hfamily.length_eq, congrArg Reply.made hfamily.length_eq,
    fun i limit ↦ ?_, fun i ↦ ?_, fun i limit h ↦ ?_, fun i h ↦ ?_,
    ⟨table.keys, hkeeps.nodup_keys, hkeeps.mem_keys, htracked⟩, fun more hmore ↦ ?_⟩
  · rw [perform, Prod.map_fst, enter_fst hget, hinFlight, Counter.admits_eq_goesUp]
  · rw [perform, hinFlight]
  · have hnot : limit.admits ((after ops).inFlight r i) = false := by
      rw [perform, Prod.map_fst, enter_fst hget] at h
      exact Reply.admitted.inj h
    rw [perform, enter_of_not_admits hget hnot]
    rfl
  · rw [perform, release_of_inFlight_eq_zero h]
  · obtain ⟨table', hget', hkeeps'⟩ :=
      (family_of_valid hmore).get?_eq (getElem?_owners_append hr more)
    have hsubset : table.keys ⊆ table'.keys := fun key hkey ↦
      (hkeeps'.mem_keys key).2 (((hkeeps.mem_keys key).1 hkey).append more)
    calc (after ops).tracked r
      _ = table.keys.length := htracked
      _ ≤ table'.keys.length := (hkeeps.nodup_keys.subperm hsubset).length_le
      _ = (after (ops ++ more)).tracked r := by
        rw [tracked, hget', Option.map_some, Option.getD_some, Limiter.length_keys]

/-- What the operations of a list answer, one after the other. -/
def replies (ls : Limiters) : List Operation → List Reply
  | [] => []
  | op :: rest => (ls.perform op).1 :: replies (ls.perform op).2 rest

/-- Two limiters, a clone of the first one, and two names for one key: the clone is reference 2. The
call through it is rejected, since the table of reference 0 is full, and counted is what reference 0
admitted. -/
theorem independent_of_clone :
    let ops := [.new, .new, .clone 0, .enter 0 (.keyed "a") (.atMost 1),
      .enter 1 (.keyed "a") .unbounded, .enter 2 ((Identity.keyed "a").named "b") (.atMost 1)]
    Valid ops ∧ (owners ops)[2]? = some 0 ∧ Independent ops 2 0 ∧
      replies {} ops = [.made 0, .made 1, .made 2, .admitted true, .admitted true,
        .admitted false] ∧
      fed ops 0 (.mk (.explicit "a") none) = [.enter (.atMost 1), .enter (.atMost 1)] ∧
      Counter.count (fed ops 0 (.mk (.explicit "a") none)) = 1 ∧
      (after ops).inFlight 2 (.keyed "a") = 1 ∧ (after ops).tracked 2 = 1 :=
  ⟨by decide, by decide, independent_of_valid (by decide) (by decide), by decide, by decide,
    by decide, by decide, by decide⟩

end Limiters

end Offload
