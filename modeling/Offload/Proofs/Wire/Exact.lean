import Offload.Proofs.Wire.Object

/-!
# Decoders take one object

A decoder is *exact* if behind each token it takes the objects that the token announces, no more and
no fewer. Every decoder of the wire is: this module has the combinators, each with one law that
makes the compound exact if its parts are. Two of them do not read a single object, and their laws
say how many they take: the entries of a map and the fields of a structure take two each.
-/

namespace Offload.Wire.Decoder

variable {α β σ : Type} {d : Decoder α} {n : Nat}

/-- Whether a decoder takes what its first token announces. -/
def Exact (d : Decoder α) : Prop :=
  ∀ token : Token, Takes token.children (d token)

/-- A reader that begins with a token takes an object more than what it takes behind those that the
token announces. -/
theorem takes_item (h : ∀ token : Token, Takes (token.children + n) (d token)) :
    Takes (n + 1) d.item := by
  intro bs a rest hread
  obtain ⟨⟨token, rest'⟩, htoken, ha⟩ := Option.bind_eq_some_iff.1 hread
  obtain ⟨header, hform, rfl⟩ := Token.exists_form_of_read? htoken
  obtain ⟨objects, hlength, hobjects, rfl, hall⟩ := h token ha
  -- the first object is the token with the objects that it announces
  obtain ⟨own, others, rfl, hown⟩ :
      ∃ own others, objects = own ++ others ∧ own.length = token.children :=
    ⟨_, _, (List.take_append_drop token.children objects).symm, by simp [hlength]⟩
  refine ⟨(header ++ own.flatten) :: others, by simp at hlength ⊢; omega, fun o ho ↦ ?_, ?_,
    fun more ↦ ?_⟩
  · rcases List.mem_cons.1 ho with rfl | ho
    · exact hform.isObject hown fun o ho ↦ hobjects o (List.mem_append_left _ ho)
    · exact hobjects o (List.mem_append_right _ ho)
  · simp only [List.flatten_cons, List.flatten_append, List.append_assoc]
  · rw [List.flatten_cons, List.append_assoc, List.append_assoc, item_of_spells hform.spells,
      ← List.append_assoc, ← List.flatten_append]
    exact hall more

/-- An exact decoder takes one object, its token included. -/
theorem Exact.item (h : Exact d) : Takes 1 d.item :=
  takes_item h

/-- What is made of a token alone. -/
theorem takes_token {token : Token} {o : Option α} (h : ∀ a, o = some a → token.children = 0) :
    Takes token.children fun bs ↦ o.map fun a ↦ (a, bs) := by
  cases o with
  | none => exact .none
  | some a => exact h a rfl ▸ .pure a

/-- A scalar is made neither of an array nor of a map. -/
theorem exact_scalar {f : Token → Option α} (harray : ∀ n, f (.array n) = none)
    (hmap : ∀ n, f (.map n) = none) : Exact (scalar f) := by
  intro token
  refine takes_token fun a ha ↦ ?_
  cases token with
  | array n => exact nomatch (harray n).symm.trans ha
  | map n => exact nomatch (hmap n).symm.trans ha
  | _ => rfl

theorem Exact.filterMap (h : Exact d) (f : α → Option β) : Exact (filterMap f d) :=
  fun token ↦ (h token).bind fun a ↦ .ofMap (f := id) (f a)

theorem Exact.option (h : Exact d) : Exact (option d) := by
  intro token
  cases token with
  | nil => exact .pure none
  | _ => exact (h _).map some

/-! ### Sequences

A sequence takes as many objects as it has items. The count comes from the token, so the compound is
exact whatever the count is.
-/

/-- Items take as many objects each as one of them. -/
theorem takes_items (h : Takes n d.item) (count : Nat) : Takes (n * count) (items d count) := by
  suffices hdone : ∀ done, Takes (n * count) (itemsOnto d count done) from hdone []
  induction count with
  | zero => exact fun done ↦ .pure done.reverse
  | succ count ih =>
    intro done
    rw [Nat.mul_succ, Nat.add_comm]
    exact h.bind fun a ↦ ih (a :: done)

theorem exact_list {element : Nat → Decoder α} (h : ∀ levels, Exact (element levels))
    (levels : Nat) : Exact (list element levels) := by
  intro token
  cases token with
  | array n =>
    rcases levels with - | inner
    · exact .none
    · have hitems := takes_items (h inner).item n
      rwa [Nat.one_mul] at hitems
  | binary octets => exact takes_token fun _ _ ↦ rfl
  | _ => exact .none

theorem exact_pair {first : Nat → Decoder α} {second : Nat → Decoder β}
    (hf : ∀ levels, Exact (first levels)) (hg : ∀ levels, Exact (second levels)) (levels : Nat) :
    Exact (pair first second levels) := by
  intro token
  cases token with
  | array n =>
    rcases n with - | - | - | n
    · exact .none
    · exact .none
    · rcases levels with - | inner
      · exact .none
      · exact (hf inner).item.bind fun a ↦ (hg inner).item.map fun b ↦ (a, b)
    · exact .none
  | binary octets =>
    rcases octets with - | ⟨x, - | ⟨y, octets⟩⟩
    · exact .none
    · exact .none
    · exact .ofOption _ fun a _ ↦ .ofMap _
  | _ => exact .none

/-! ### Maps -/

/-- An entry takes two objects, its key and its value. -/
theorem takes_entry {key : Decoder α} {value : Decoder β} (hk : Exact key) (hv : Exact value) :
    Takes 2 (entry key value).item :=
  takes_item fun token ↦ (hk token).bind fun a ↦ hv.item.map fun b ↦ (a, b)

theorem exact_entries {firstKey key : Decoder α} {value : Nat → Decoder β} (hf : Exact firstKey)
    (hk : Exact key) (hv : ∀ levels, Exact (value levels)) (levels : Nat) :
    Exact (entries firstKey key value levels) := by
  intro token
  cases token with
  | map n =>
    rcases levels with - | inner
    · exact .none
    · rcases n with - | n
      · exact .pure []
      · have hothers := takes_items (takes_entry hk (hv inner)) n
        have hentries := (takes_entry hf (hv inner)).bind fun first ↦
          hothers.map fun others ↦ first :: others
        rwa [Nat.add_comm, ← Nat.mul_succ] at hentries
  | _ => exact .none

/-! ### Skipped values -/

theorem map_dropItems_succ (d : Decoder Unit) (n : Nat) :
    (fun bs ↦ (dropItems d (n + 1) bs).map fun rest ↦ ((), rest)) =
      fun bs ↦ (d.item bs).bind fun (_, rest) ↦
        (dropItems d n rest).map fun rest ↦ ((), rest) := by
  funext bs
  rw [dropItems, Option.map_bind]
  rfl

theorem takes_dropItems {d : Decoder Unit} (h : Exact d) (n : Nat) :
    Takes n fun bs ↦ (dropItems d n bs).map fun rest ↦ ((), rest) := by
  induction n with
  | zero => exact .pure ()
  | succ n ih =>
    rw [map_dropItems_succ]
    exact h.item.cons fun _ ↦ ih

/-- To skip a value takes one object. -/
theorem exact_any (levels : Nat) : Exact (any levels) := by
  induction levels with
  | zero =>
    intro token
    cases token with
    | array n | map n | extension kind payload => exact .none
    | _ => exact .pure ()
  | succ levels ih =>
    intro token
    cases token with
    | array n => exact takes_dropItems ih n
    | map n => exact takes_dropItems ih (2 * n)
    | _ => exact .pure ()

/-! ### Structures and variants

The fields of a structure may come in any order and between others. Each entry takes its key and its
value, and so the number of objects is known before any of them is.
-/

/-- A name has nothing inside. -/
theorem children_of_identifier? {token : Token} {identifier : Identifier}
    (h : identifier? token = some identifier) : token.children = 0 := by
  cases token with
  | text | binary | unsigned => rfl
  | _ => cases h

/-- A field takes the object of its value. -/
theorem Exact.once (h : Exact d) (current : Option α) (put : α → σ) :
    Takes 1 (once current d put) := by
  cases current with
  | some a => exact .none
  | none => exact h.item.map put

/-- A field is its key, and then its value or what is dropped in its place. -/
theorem fields_succ (names : List String) (store : Nat → σ → Bytes → Option (σ × Bytes))
    (levels n : Nat) (draft : σ) : fields names store levels (n + 1) draft =
      item fun token rest ↦ (identifier? token).bind fun identifier ↦
        match identifier.find? names with
        | some i =>
          (store i draft rest).bind fun (draft, rest) => fields names store levels n draft rest
        | none =>
          ((any levels).item rest).bind fun (_, rest) => fields names store levels n draft rest :=
  rfl

/-- Each field of a structure is a key and a value, whether it is stored or dropped. -/
theorem takes_fields {names : List String} {store : Nat → σ → Bytes → Option (σ × Bytes)}
    (h : ∀ i draft, Takes 1 (store i draft)) (levels n : Nat) (draft : σ) :
    Takes (2 * n) (fields names store levels n draft) := by
  induction n generalizing draft with
  | zero => exact .pure draft
  | succ n ih =>
    rw [fields_succ]
    refine takes_item (n := 2 * n + 1) fun token ↦ ?_
    refine .ofOption _ fun identifier hidentifier ↦ ?_
    rw [children_of_identifier? hidentifier, Nat.zero_add]
    cases identifier.find? names with
    | some i => exact (h i draft).cons ih
    | none => exact (exact_any levels).item.cons fun _ ↦ ih draft

theorem exact_absent (a : α) : Exact (absent a) := by
  intro token
  cases token with
  | nil => exact .pure a
  | _ => exact .none

/-- A variant takes one object, whether it has a payload or is its name alone. -/
theorem exact_variant {names : List String} {bare : Nat → Option α} {payload : Nat → Decoder α}
    (h : ∀ i, Exact (payload i)) : Exact (variant names bare payload) := by
  intro token
  cases token with
  | map n =>
    by_cases hn : n = 1
    · subst hn
      refine takes_item (d := fun token rest ↦
        ((identifier? token).bind (Identifier.find? names)).bind fun i ↦ (payload i).item rest)
        (n := 1) fun token ↦ ?_
      refine .ofOption _ fun i hi ↦ ?_
      obtain ⟨identifier, hidentifier, -⟩ := Option.bind_eq_some_iff.1 hi
      rw [children_of_identifier? hidentifier]
      exact (h i).item
    · have hnone : variant names bare payload (.map n) = fun _ ↦ none := by
        funext bs
        exact if_neg hn
      rw [hnone]
      exact .none
  | text | binary | unsigned => exact takes_token fun _ _ ↦ rfl
  | _ => exact .none

end Offload.Wire.Decoder
