import Offload.Identity.Construction
import Offload.Identity.Feed
import Mathlib.Data.List.Nodup
import Mathlib.Logic.Function.Basic
import Std.Data.HashMap.Lemmas

/-!
# Hash maps keyed by identities

Identities are the same if their keys are. So sameness is an equivalence, and the same identities
feed a hasher with the same pieces, while others feed it with other pieces (`feed_eq_iff`).

With that a hash map has one entry for each class of the identities that were put into it, whatever
the hasher, the values and the order are (`Map.Tallies`): none of them is split, and no two share an
entry.

The hasher is a parameter. The lemmas use that it gives the same hash for the same pieces, which a
function does, and nothing of how well it spreads them. A hasher that maps all identities to one
number makes a slow map, with the same entries.
-/

namespace Offload

namespace Identity

variable {i j : Identity}

/-! ### Sameness -/

instance : EquivBEq Identity where
  rfl := beq_iff.2 rfl
  symm h := beq_iff.2 (beq_iff.1 h).symm
  trans h h' := beq_iff.2 ((beq_iff.1 h).trans (beq_iff.1 h'))

/-- Sameness is an equivalence. -/
theorem equivalence_beq : Equivalence fun i j : Identity ↦ (i == j) = true where
  refl _ := BEq.rfl
  symm := BEq.symm
  trans := BEq.trans

/-- The pieces of an origin tell where they end. -/
theorem feed_append_inj {a b : Origin} {cs ds : List Feed} (h : a.feed ++ cs = b.feed ++ ds) :
    a = b ∧ cs = ds := by
  cases a <;> cases b <;> simp_all [Origin.feed]

theorem scopeFeed_injective : Function.Injective scopeFeed := by
  intro a b h
  cases a <;> cases b <;> simp_all [scopeFeed]

/-- A hasher is fed alike for the same identities, and for no others. -/
theorem feed_eq_iff : i.feed = j.feed ↔ (i == j) = true := by
  rw [beq_iff]
  constructor
  · intro h
    obtain ⟨horigin, hscope⟩ := feed_append_inj h
    obtain ⟨⟨origin, scope⟩, label⟩ := i
    obtain ⟨⟨origin', scope'⟩, label'⟩ := j
    obtain rfl : origin = origin' := horigin
    obtain rfl : scope = scope' := scopeFeed_injective hscope
    rfl
  · intro h
    rw [feed, feed, h]

instance (hasher : Hasher) : @LawfulHashable Identity _ (hashable hasher) :=
  @LawfulHashable.mk _ _ (hashable hasher) fun _ _ h ↦ congrArg hasher (feed_eq_iff.2 h)

/-! ### Entries -/

namespace Map

variable {hasher : Hasher} {β : Type}

/-- The hash map of some entries that are put into it one after the other. -/
def ofEntries (hasher : Hasher) (entries : List (Identity × β)) : Map hasher β :=
  entries.foldl (fun m e ↦ m.insert e.1 e.2) ∅

/-- A map holds what was put into it, and what it held. -/
theorem mem_foldl_insert {entries : List (Identity × β)} {m : Map hasher β} :
    i ∈ entries.foldl (fun m e ↦ m.insert e.1 e.2) m ↔
      (∃ e ∈ entries, (e.1 == i) = true) ∨ i ∈ m := by
  induction entries generalizing m with
  | nil => simp
  | cons e entries ih =>
    simp only [List.foldl_cons, ih, Std.HashMap.mem_insert, List.mem_cons, exists_eq_or_imp]
    rw [or_left_comm, ← or_assoc]

/-- An identity is in a map exactly if one that is the same was put into it. -/
theorem mem_ofEntries {entries : List (Identity × β)} :
    i ∈ ofEntries hasher entries ↔ ∃ e ∈ entries, (e.1 == i) = true := by
  rw [ofEntries, mem_foldl_insert, or_iff_left Std.HashMap.not_mem_empty]

/-- No two entries are of the same class. -/
theorem nodup_keys (m : Map hasher β) : (m.keys.map key).Nodup := by
  refine List.Pairwise.map key (fun k k' hne hkey ↦ ?_) m.distinct_keys
  rw [beq_iff.2 hkey] at hne
  cases hne

/-- The keys of a map are its identities, up to sameness. -/
theorem exists_mem_keys_iff {m : Map hasher β} :
    (∃ k ∈ m.keys, (k == i) = true) ↔ i ∈ m := by
  rw [Std.HashMap.mem_iff_contains, ← Std.HashMap.contains_keys, List.contains_iff_exists_mem_beq]
  exact exists_congr fun k ↦ and_congr_right fun _ ↦ ⟨BEq.symm, BEq.symm⟩

/-- The map has one entry for each class of the identities. -/
structure Tallies (m : Map hasher β) (identities : List Identity) : Prop where
  size : m.size = (distinct identities).length
  /-- Each of them is found under one entry. -/
  once : ∀ i ∈ identities, m.keys.countP (· == i) = 1
  /-- There are no other entries. -/
  only : ∀ k ∈ m.keys, ∃ i ∈ identities, (i == k) = true

theorem nodup_eraseDups {γ : Type} [BEq γ] [LawfulBEq γ] (l : List γ) : l.eraseDups.Nodup := by
  induction hlength : l.length using Nat.strongRecOn generalizing l with
  | _ n ih =>
    cases l with
    | nil => exact List.nodup_nil
    | cons a l =>
      rw [List.eraseDups_cons, List.nodup_cons]
      refine ⟨fun hmem ↦ ?_, ih _ ?_ _ rfl⟩
      · simp at hmem
      · rw [← hlength]
        exact Nat.lt_succ_of_le (List.length_filter_le ..)

/-- In whatever order identities are put into a map, and with whatever values. -/
theorem tallies_ofEntries {identities : List Identity} {entries : List (Identity × β)}
    (h : (entries.map Prod.fst).Perm identities) :
    Tallies (ofEntries hasher entries) identities := by
  have hmem (i : Identity) : (∃ k ∈ (ofEntries hasher entries).keys, (k == i) = true) ↔
      ∃ j ∈ identities, (j == i) = true := by
    rw [exists_mem_keys_iff, mem_ofEntries]
    simp only [← h.mem_iff, List.mem_map]
    exact ⟨fun ⟨e, he, hi⟩ ↦ ⟨e.1, ⟨e, he, rfl⟩, hi⟩, fun ⟨_, ⟨e, he, rfl⟩, hi⟩ ↦ ⟨e, he, hi⟩⟩
  constructor
  case size =>
    have hperm : ((ofEntries hasher entries).keys.map key).Perm (distinct identities) := by
      refine (List.perm_ext_iff_of_nodup (nodup_keys _) (nodup_eraseDups _)).2 fun k ↦ ?_
      have hk := hmem ⟨k, .given ""⟩
      simp only [beq_iff] at hk
      exact List.mem_map.trans (hk.trans (List.mem_map.symm.trans List.mem_eraseDups.symm))
    rw [← hperm.length_eq, List.length_map, Std.HashMap.length_keys]
  case once =>
    intro i hi
    obtain ⟨k, hk, hbeq⟩ := (hmem i).2 ⟨i, hi, BEq.rfl⟩
    have hcount := List.count_eq_one_of_mem (nodup_keys _)
      (List.mem_map.2 ⟨k, hk, beq_iff.1 hbeq⟩)
    rwa [List.count, List.countP_map] at hcount
  case only =>
    exact fun k hk ↦ (hmem k).1 ⟨k, hk, BEq.rfl⟩

end Map

end Identity

end Offload
