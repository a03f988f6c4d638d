import Offload.Proofs.Identity.Entries
import Mathlib.Data.List.Induction

/-!
# What identities have in common that are the same

A construction either makes an identity of a provenance of its own, or copies one before it. Going
back from copy to copy, each position comes from one provenance by one list of modifiers
(`Traces.unique`). A provenance is a key, a type, or a value together with the position at which it
was given its number.

The identity at a position is that of its provenance after these modifiers. This holds after each
construction if it held before (`Built.step`), hence after all of them (`Built.run`). The numbers
count the values up to there, and a word of 64 bits can tell fewer than `2 ^ 64` of them apart. So
two identities are the same exactly if provenance and last scope are (`beq_foldl_identity`).

Numbers are the one thing that is not told by a construction alone, as they depend on all the
constructions before it. They are kept out of `Provenance`: a value is told by the position at which
it was given its number, and the number is put in afterwards. That different positions have
different numbers is where the bound on them is used, and nowhere else.

Types are compared by what tells them apart, not by their names. Two types of one name are two
provenances, reported under one name.
-/

namespace Offload

namespace Identity

/-! ### Modifiers -/

/-- The scope that a modifier sets. -/
def Modifier.scope? : Modifier → Option TypeTag
  | .rename _ => none
  | .scope tag => some tag

/-- The name that a modifier sets. -/
def Modifier.name? : Modifier → Option String
  | .rename name => some name
  | .scope _ => none

/-- The last scope that is set. -/
def lastScope (ms : List Modifier) : Option TypeTag :=
  (ms.filterMap Modifier.scope?).getLast?

/-- The last name that is set. -/
def lastName (ms : List Modifier) : Option String :=
  (ms.filterMap Modifier.name?).getLast?

/-- A modifier behind the others sets the last scope, or leaves it. -/
theorem lastScope_concat (ms : List Modifier) (m : Modifier) :
    lastScope (ms ++ [m]) = m.scope?.or (lastScope ms) := by
  rw [lastScope, List.filterMap_append, List.getLast?_append]
  cases m <;> rfl

/-- A modifier behind the others sets the last name, or leaves it. -/
theorem lastName_concat (ms : List Modifier) (m : Modifier) :
    lastName (ms ++ [m]) = m.name?.or (lastName ms) := by
  rw [lastName, List.filterMap_append, List.getLast?_append]
  cases m <;> rfl

/-- Of the modifiers only the last scope and the last name matter. -/
theorem foldl_apply (i : Identity) (ms : List Modifier) :
    ms.foldl Modifier.apply i =
      ⟨⟨i.key.origin, (lastScope ms).or i.key.scope⟩,
        ((lastName ms).map Label.given).getD i.label⟩ := by
  induction ms using List.reverseRecOn with
  | nil => rfl
  | append_singleton ms m ih =>
    rw [List.foldl_append, ih, lastScope_concat, lastName_concat]
    cases m <;> rfl

/-! ### Provenance

A copy may be made of a copy, and modifiers may be applied on the way. `Traces` goes back through
all of them. It is a function, though it is written as a relation: each position has one seed and
each seed stands before what is made of it.
-/

/-- What an identity goes back to. -/
inductive Provenance
  | key (key : String)
  | type (tag : TypeTag)
  /-- The value that was given a number at the position. -/
  | value (tag : TypeTag) (position : Nat)
  deriving Repr, DecidableEq

/-- The name before it is changed. -/
def Provenance.name : Provenance → String
  | .key k => k
  | .type tag => tag.name
  | .value tag _ => tag.name

/-- What a construction at the position makes an identity of, if it is not a copy. -/
def Seed.provenance? (position : Nat) : Seed → Option Provenance
  | .key k => some (.key k)
  | .type tag => some (.type tag)
  | .value tag false => some (.type tag)
  | .value tag true => some (.value tag position)
  | .copy _ => none

/-- The identity at a position goes back to the provenance, by the modifiers in this order. -/
inductive Traces (cs : List Construction) : Nat → Provenance → List Modifier → Prop
  | made {p : Nat} {c : Construction} {o : Provenance} (hc : cs[p]? = some c)
      (ho : c.seed.provenance? p = some o) : Traces cs p o c.modifiers
  | copied {p q : Nat} {c : Construction} {o : Provenance} {ms : List Modifier}
      (hc : cs[p]? = some c) (hq : c.seed = .copy q) (h : Traces cs q o ms) :
      Traces cs p o (ms ++ c.modifiers)

/-- The position that a seed copies. -/
def Seed.copied? : Seed → Option Nat
  | .copy position => some position
  | _ => none

/-- Only identities that were made before are copied. -/
def Ordered (cs : List Construction) : Prop :=
  ∀ p, (h : p < cs.length) → ∀ q ∈ cs[p].seed.copied?, q < p

instance : DecidablePred Ordered := fun cs ↦
  inferInstanceAs (Decidable (∀ p, (h : p < cs.length) → ∀ q ∈ cs[p].seed.copied?, q < p))

section Traces

variable {cs : List Construction} {p q : Nat} {o o' : Provenance} {ms ms' : List Modifier}

/-- A copy is made of what stands before it. -/
theorem Ordered.lt (h : Ordered cs) {c : Construction} (hc : cs[p]? = some c)
    (hq : c.seed = .copy q) : q < p := by
  obtain ⟨hp, rfl⟩ := List.getElem?_eq_some_iff.1 hc
  exact h p hp q (by rw [hq]; rfl)

/-- A position goes back to one provenance, by one list of modifiers. -/
theorem Traces.unique (h : Traces cs p o ms) (h' : Traces cs p o' ms') : o = o' ∧ ms = ms' := by
  induction h generalizing o' ms' with
  | made hc ho =>
    cases h' with
    | made hc' ho' =>
      obtain rfl := Option.some.inj (hc.symm.trans hc')
      exact ⟨Option.some.inj (ho.symm.trans ho'), rfl⟩
    | copied hc' hq' =>
      obtain rfl := Option.some.inj (hc.symm.trans hc')
      rw [hq'] at ho
      cases ho
  | copied hc hq h ih =>
    cases h' with
    | made hc' ho' =>
      obtain rfl := Option.some.inj (hc.symm.trans hc')
      rw [hq] at ho'
      cases ho'
    | copied hc' hq' h' =>
      obtain rfl := Option.some.inj (hc.symm.trans hc')
      obtain rfl := Seed.copy.inj (hq.symm.trans hq')
      obtain ⟨rfl, rfl⟩ := ih h'
      exact ⟨rfl, rfl⟩

/-- A value was given its number where the provenance says. -/
theorem Traces.seed_of_value {tag : TypeTag} {position : Nat}
    (h : Traces cs p (.value tag position) ms) :
    ∃ c, cs[position]? = some c ∧ c.seed = .value tag true := by
  generalize ho : Provenance.value tag position = o at h
  induction h with
  | copied _ _ _ ih => exact ih ho
  | @made p c _ hc hprovenance =>
    subst ho
    match hseed : c.seed with
    | .value _ true =>
      rw [hseed] at hprovenance
      obtain ⟨rfl, rfl⟩ := Provenance.value.inj (Option.some.inj hprovenance)
      exact ⟨c, hc, hseed⟩
    | .value _ false | .key _ | .type _ | .copy _ => simp [hseed, Seed.provenance?] at hprovenance

end Traces

/-! ### Numbers

A number is a word, and the next one is its successor, which wraps around. So equal numbers mean
equal positions as long as no more of them are handed out than a word can tell apart.
-/

/-- A number is handed out. -/
def Seed.takesNumber : Seed → Bool
  | .value _ hasContent => hasContent
  | _ => false

/-- How many numbers are handed out. -/
def handedOut (cs : List Construction) : Nat :=
  cs.countP fun c ↦ c.seed.takesNumber

/-- The number that comes next at a position. -/
def numberAt (first : Numbering) (cs : List Construction) (position : Nat) : UInt64 :=
  first.next + UInt64.ofNat (handedOut (cs.take position))

variable {first : Numbering} {cs : List Construction}

/-- One construction hands out one number, or none. -/
theorem handedOut_take_succ {p : Nat} {c : Construction} (hc : cs[p]? = some c) :
    handedOut (cs.take (p + 1)) =
      handedOut (cs.take p) + if c.seed.takesNumber then 1 else 0 := by
  rw [handedOut, List.take_add_one, hc, List.countP_append]
  simp [handedOut, List.countP_cons]

/-- More numbers are handed out by more constructions. -/
theorem handedOut_take_le {p q : Nat} (h : p ≤ q) :
    handedOut (cs.take p) ≤ handedOut (cs.take q) :=
  List.Sublist.countP_le (List.take_prefix_take_left h).sublist

/-- Later numbers differ from earlier ones. -/
theorem numberAt_ne_of_lt (hnumbers : handedOut cs < 2 ^ 64) {p q : Nat} {c : Construction}
    (hc : cs[p]? = some c) (htakes : c.seed.takesNumber = true) (h : p < q) :
    numberAt first cs p ≠ numberAt first cs q := by
  have hlt : handedOut (cs.take p) < handedOut (cs.take q) := by
    have hsucc := handedOut_take_succ hc
    rw [if_pos htakes] at hsucc
    have hle : handedOut (cs.take (p + 1)) ≤ handedOut (cs.take q) := handedOut_take_le h
    omega
  have hle : handedOut (cs.take q) ≤ handedOut cs := List.Sublist.countP_le (List.take_sublist ..)
  intro heq
  have hof := UInt64.toNat_inj.2 (UInt64.add_right_inj _ |>.1 heq)
  rw [UInt64.toNat_ofNat', UInt64.toNat_ofNat', Nat.mod_eq_of_lt, Nat.mod_eq_of_lt] at hof <;> omega

/-- Two values that are given the same number are one value. -/
theorem numberAt_injective (hnumbers : handedOut cs < 2 ^ 64) {p q : Nat} {c d : Construction}
    (hc : cs[p]? = some c) (hp : c.seed.takesNumber = true)
    (hd : cs[q]? = some d) (hq : d.seed.takesNumber = true)
    (h : numberAt first cs p = numberAt first cs q) : p = q := by
  rcases Nat.lt_trichotomy p q with hlt | rfl | hlt
  · exact absurd h (numberAt_ne_of_lt hnumbers hc hp hlt)
  · rfl
  · exact absurd h.symm (numberAt_ne_of_lt hnumbers hd hq hlt)

/-! ### Building

What was built is compared with what its provenance says it should be, position by position. The
step lemma has two cases, a seed and a copy, and the modifiers are the same list on both sides.
-/

/-- The identity of a provenance, where values have these numbers. -/
def Provenance.identity (number : Nat → UInt64) : Provenance → Identity
  | .key k => .keyed k
  | .type tag => .ofType tag
  | .value tag position => ⟨⟨.value tag (number position), none⟩, .typeName tag⟩

/-- The identity of a provenance is reported under its name. -/
theorem Provenance.text_label_identity (number : Nat → UInt64) (o : Provenance) :
    (o.identity number).label.text = o.name := by
  cases o <;> rfl

/-- It has no scope. -/
theorem Provenance.scope_identity (number : Nat → UInt64) (o : Provenance) :
    (o.identity number).key.scope = none := by
  cases o <;> rfl

/-- The identities and the numbering after the first constructions. -/
structure Built (first : Numbering) (cs : List Construction) (made : List Identity)
    (numbering : Numbering) : Prop where
  next : numbering.next = numberAt first cs made.length
  follows : ∀ p i, made[p]? = some i → ∃ o ms, Traces cs p o ms ∧
    i = ms.foldl Modifier.apply (o.identity (numberAt first cs))

namespace Built

variable {made : List Identity} {numbering : Numbering} {c : Construction}

/-- Without constructions nothing was made and no number handed out. -/
theorem start : Built first cs [] first where
  next := by simp [numberAt, handedOut]
  follows p i h := by cases h

/-- A seed that is not a copy makes the identity of its provenance. -/
theorem make?_of_provenance? (h : Built first cs made numbering) {o : Provenance}
    (ho : c.seed.provenance? made.length = some o) :
    ∃ numbering', c.seed.make? made numbering =
        some (o.identity (numberAt first cs), numbering') ∧
      numbering'.next = numbering.next + if c.seed.takesNumber then 1 else 0 := by
  match hseed : c.seed with
  | .key _ | .type _ | .value _ false =>
    rw [hseed] at ho
    obtain rfl := Option.some.inj ho
    exact ⟨numbering, rfl, (UInt64.add_zero _).symm⟩
  | .value tag true =>
    rw [hseed] at ho
    obtain rfl := Option.some.inj ho
    refine ⟨⟨numbering.next + 1⟩, ?_, rfl⟩
    rw [Provenance.identity, ← h.next]
    rfl
  | .copy _ =>
    rw [hseed] at ho
    cases ho

/-- The next construction succeeds, and its identity follows from where it comes from. -/
theorem make? (h : Built first cs made numbering) (hc : cs[made.length]? = some c)
    (hcopies : Ordered cs) :
    ∃ i numbering', c.seed.make? made numbering = some (i, numbering') ∧
      (numbering'.next = numbering.next + if c.seed.takesNumber then 1 else 0) ∧
      ∃ o ms, Traces cs made.length o ms ∧
        c.modifiers.foldl Modifier.apply i =
          ms.foldl Modifier.apply (o.identity (numberAt first cs)) := by
  match hseed : c.seed.provenance? made.length with
  | some o =>
    obtain ⟨numbering', hmake, hnext⟩ := h.make?_of_provenance? hseed
    exact ⟨_, numbering', hmake, hnext, o, _, .made hc hseed, rfl⟩
  | none =>
    obtain ⟨q, hq⟩ : ∃ q, c.seed = .copy q := by
      match hcopy : c.seed with
      | .copy q => exact ⟨q, rfl⟩
      | .key _ | .type _ | .value _ false | .value _ true =>
        rw [hcopy] at hseed
        cases hseed
    obtain ⟨i, hi⟩ : ∃ i, made[q]? = some i :=
      ⟨_, List.getElem?_eq_getElem (hcopies.lt hc hq)⟩
    obtain ⟨o, ms, htraces, hfollows⟩ := h.follows q i hi
    refine ⟨i, numbering, ?_, ?_, o, _, .copied hc hq htraces, ?_⟩
    · rw [hq, Seed.make?, hi, Option.map_some]
    · rw [hq]
      exact (UInt64.add_zero _).symm
    · rw [List.foldl_append, ← hfollows]

theorem step (h : Built first cs made numbering) (hc : cs[made.length]? = some c)
    (hcopies : Ordered cs) :
    ∃ i numbering', c.seed.make? made numbering = some (i, numbering') ∧
      Built first cs (made ++ [c.modifiers.foldl Modifier.apply i]) numbering' := by
  obtain ⟨i, numbering', hmake, hnext, o, ms, htraces, hfollows⟩ := h.make? hc hcopies
  refine ⟨i, numbering', hmake, ?_, ?_⟩
  · rw [hnext, h.next, List.length_append, List.length_singleton, numberAt, numberAt,
      handedOut_take_succ hc, UInt64.ofNat_add, UInt64.add_assoc]
    split <;> rfl
  · intro p j hj
    rcases Nat.lt_trichotomy p made.length with hp | rfl | hp
    · rw [List.getElem?_append_left hp] at hj
      exact h.follows p j hj
    · rw [List.getElem?_concat_length] at hj
      obtain rfl := Option.some.inj hj
      exact ⟨o, ms, htraces, hfollows⟩
    · rw [List.getElem?_eq_none (by rw [List.length_append, List.length_singleton]; omega)] at hj
      cases hj

/-- All constructions that are left carry the identities on to the end. -/
theorem run {rest : List Construction} (h : Built first cs made numbering)
    (hcopies : Ordered cs) (hrest : cs.drop made.length = rest)
    (hlength : made.length ≤ cs.length) :
    ∃ is numbering', buildOnto? made numbering rest = some is ∧ is.length = cs.length ∧
      Built first cs is numbering' := by
  induction rest generalizing made numbering with
  | nil =>
    have hle := List.drop_eq_nil_iff.1 hrest
    exact ⟨made, numbering, rfl, Nat.le_antisymm hlength hle, h⟩
  | cons c rest ih =>
    have hc : cs[made.length]? = some c := by
      rw [← List.head?_drop, hrest]
      rfl
    obtain ⟨i, numbering', hmake, hbuilt⟩ := h.step hc hcopies
    have hlt : made.length < cs.length := (List.getElem?_eq_some_iff.1 hc).1
    have hdrop : cs.drop (made.length + 1) = rest := by
      rw [← List.tail_drop, hrest]
      rfl
    have hsize (j : Identity) : (made ++ [j]).length = made.length + 1 := by simp
    obtain ⟨is, last, hbuild, hfull⟩ :=
      ih hbuilt (by rwa [hsize]) (by rw [hsize]; exact hlt)
    exact ⟨is, last, by rw [buildOnto?, hmake]; exact hbuild, hfull⟩

end Built

/-! ### Sameness -/

section Sameness

variable {o o' : Provenance} {p q : Nat} {ms ms' : List Modifier}

/-- The name is the last that was set, or else that of the provenance. -/
theorem name_foldl_identity (number : Nat → UInt64) (o : Provenance) (ms : List Modifier) :
    (ms.foldl Modifier.apply (o.identity number)).name = (lastName ms).getD o.name := by
  rw [foldl_apply, name]
  cases lastName ms with
  | none => exact o.text_label_identity number
  | some name => rfl

/-- Of the modifiers of a provenance the last scope counts. -/
theorem scope_foldl_identity (number : Nat → UInt64) (o : Provenance) (ms : List Modifier) :
    (ms.foldl Modifier.apply (o.identity number)).key.scope = lastScope ms := by
  rw [foldl_apply, o.scope_identity, Option.or_none]

/-- No modifier changes where an identity comes from. -/
theorem origin_foldl_identity (number : Nat → UInt64) (o : Provenance) (ms : List Modifier) :
    (ms.foldl Modifier.apply (o.identity number)).key.origin = (o.identity number).key.origin := by
  rw [foldl_apply]

/-- Provenances can be told apart by the origins that they give. -/
theorem origin_identity_inj (first : Numbering) (hnumbers : handedOut cs < 2 ^ 64)
    (h : Traces cs p o ms) (h' : Traces cs q o' ms') :
    (o.identity (numberAt first cs)).key.origin = (o'.identity (numberAt first cs)).key.origin ↔
      o = o' := by
  refine ⟨fun heq ↦ ?_, fun heq ↦ by rw [heq]⟩
  match o, o' with
  | .key _, .key _ => exact congrArg Provenance.key (Origin.explicit.inj heq)
  | .type _, .type _ => exact congrArg Provenance.type (Origin.type.inj heq)
  | .value tag r, .value tag' r' =>
    obtain ⟨rfl, hnumber⟩ := Origin.value.inj heq
    obtain ⟨c, hc, hseed⟩ := h.seed_of_value
    obtain ⟨d, hd, hseed'⟩ := h'.seed_of_value
    rw [numberAt_injective hnumbers hc (by rw [hseed]; rfl) hd (by rw [hseed']; rfl) hnumber]
  | .key _, .type _ | .key _, .value .. | .type _, .key _ | .type _, .value .. |
    .value .., .key _ | .value .., .type _ => exact Origin.noConfusion heq

/-- Two identities are the same exactly if their provenance and their last scope are. -/
theorem beq_foldl_identity (hnumbers : handedOut cs < 2 ^ 64) (h : Traces cs p o ms)
    (h' : Traces cs q o' ms') :
    (ms.foldl Modifier.apply (o.identity (numberAt first cs)) ==
        ms'.foldl Modifier.apply (o'.identity (numberAt first cs))) = true ↔
      o = o' ∧ lastScope ms = lastScope ms' := by
  rw [beq_iff, ← origin_identity_inj first hnumbers h h',
    ← origin_foldl_identity _ o ms, ← origin_foldl_identity _ o' ms',
    ← scope_foldl_identity (numberAt first cs) o ms,
    ← scope_foldl_identity (numberAt first cs) o' ms']
  exact ⟨fun hkey ↦ ⟨congrArg Key.origin hkey, congrArg Key.scope hkey⟩,
    fun ⟨horigin, hscope⟩ ↦ congrArg₂ Key.mk horigin hscope⟩

end Sameness

/-- What is known of the identities of a list of constructions. -/
structure Traced (cs : List Construction) (identities : List Identity) : Prop where
  length : identities.length = cs.length
  /-- Each goes back to one provenance, in one way. -/
  traces : ∀ p < cs.length, ∃! t : Provenance × List Modifier, Traces cs p t.1 t.2
  /-- Two are the same if provenance and last scope are. -/
  same : ∀ p q i j o o' ms ms', identities[p]? = some i → identities[q]? = some j →
    Traces cs p o ms → Traces cs q o' ms' →
      ((i == j) = true ↔ o = o' ∧ lastScope ms = lastScope ms')
  /-- The last name counts, or else that of the provenance. -/
  name : ∀ p i o ms, identities[p]? = some i → Traces cs p o ms →
    i.name = (lastName ms).getD o.name

/-- An identity is that of the provenance that its position goes back to, after the modifiers on the
way. -/
theorem Built.follows_of_traces {is : List Identity} {numbering : Numbering}
    (h : Built first cs is numbering) {p : Nat} {i : Identity} {o : Provenance}
    {ms : List Modifier} (hi : is[p]? = some i) (htraces : Traces cs p o ms) :
    i = ms.foldl Modifier.apply (o.identity (numberAt first cs)) := by
  obtain ⟨o', ms', htraces', hfollows⟩ := h.follows p i hi
  obtain ⟨rfl, rfl⟩ := htraces.unique htraces'
  exact hfollows

/-- What was built is traced. -/
theorem Built.traced {is : List Identity} {numbering : Numbering}
    (h : Built first cs is numbering) (hlength : is.length = cs.length)
    (hnumbers : handedOut cs < 2 ^ 64) : Traced cs is where
  length := hlength
  traces p hp := by
    obtain ⟨o, ms, htraces, -⟩ := h.follows p _ (List.getElem?_eq_getElem (hlength ▸ hp))
    refine ⟨(o, ms), htraces, fun t ht ↦ ?_⟩
    obtain ⟨ho, hms⟩ := ht.unique htraces
    exact Prod.ext ho hms
  same p q i j o o' ms ms' hi hj htraces htraces' := by
    rw [h.follows_of_traces hi htraces, h.follows_of_traces hj htraces']
    exact beq_foldl_identity hnumbers htraces htraces'
  name p i o ms hi htraces := by
    rw [h.follows_of_traces hi htraces]
    exact name_foldl_identity _ o ms

/-- Wherever the numbering stands, constructions that copy only what was made before, and are given
fewer than `2 ^ 64` numbers, make identities that are the same exactly if provenance and last scope
are. Sameness is an equivalence, the same identities feed a hasher alike, and a hash map that they
are put into has one entry for each class, in whatever order and with whatever values. -/
theorem traced_of_ordered (numbering : Numbering) {cs : List Construction} (hcopies : Ordered cs)
    (hnumbers : handedOut cs < 2 ^ 64) :
    ∃ is, buildOnto? [] numbering cs = some is ∧ Traced cs is ∧
      (Equivalence fun i j : Identity ↦ (i == j) = true) ∧
      (∀ i j : Identity, (i == j) = true → i.feed = j.feed) ∧
      ∀ (hasher : Hasher) (β : Type) (entries : List (Identity × β)),
        (entries.map Prod.fst).Perm is → (Map.ofEntries hasher entries).Tallies is := by
  obtain ⟨is, last, hbuild, hlength, hbuilt⟩ :=
    Built.start.run hcopies (List.drop_zero (l := cs)) (Nat.zero_le _)
  exact ⟨is, hbuild, hbuilt.traced hlength hnumbers, equivalence_beq,
    fun i j h ↦ feed_eq_iff.2 h, fun hasher β entries h ↦ Map.tallies_ofEntries h⟩

/-- Two values of one type, the first of them copied, scoped, copied again and renamed, a type made
in both ways, and another type of its name. -/
theorem traced_of_two_values :
    let cs : List Construction :=
      [⟨.value ⟨"F"⟩ true, []⟩, ⟨.value ⟨"F"⟩ true, []⟩, ⟨.copy 0, [.scope ⟨"A"⟩, .scope ⟨"B"⟩]⟩,
        ⟨.copy 2, [.rename "f"]⟩, ⟨.value ⟨"G"⟩ false, []⟩, ⟨.type ⟨"G"⟩, [.rename "g"]⟩,
        ⟨.type ⟨{ name := "G", copy := 1 }⟩, []⟩]
    Ordered cs ∧ handedOut cs < 2 ^ 64 ∧ ∃ is, build? cs = some is ∧ Traced cs is ∧
      firstEqual is = [0, 1, 2, 2, 4, 4, 6] ∧
        is.map name = ["F", "F", "F", "f", "G", "g", "G"] := by
  intro cs
  have hcopies : Ordered cs := by decide
  have hnumbers : handedOut cs < 2 ^ 64 := by decide
  have hanswers : (build? cs).map (fun is ↦ (firstEqual is, is.map name)) =
      some ([0, 1, 2, 2, 4, 4, 6], ["F", "F", "F", "f", "G", "g", "G"]) := by decide
  obtain ⟨is, hbuild, htraced, -⟩ := traced_of_ordered {} hcopies hnumbers
  obtain ⟨hfirst, hnames⟩ := Prod.mk.inj (Option.some.inj ((congrArg _ hbuild).symm.trans hanswers))
  exact ⟨hcopies, hnumbers, is, hbuild, htraced, hfirst, hnames⟩

end Identity

end Offload
