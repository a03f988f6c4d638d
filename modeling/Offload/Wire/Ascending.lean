/-!
# Tables in ascending order

A table has one value for each of its keys and lists its entries in the ascending order of the
keys. The order of texts is that of their characters' code points, which is also the order of
their UTF-8 bytes.

The view of a table is its list of entries. An insertion keeps it ascending
(`ascends_insertAscending`), and adds no entry but its own (`mem_insertAscending`).
-/

namespace Offload.Wire

/-- The entries with the value of `key` set; an entry of that key is replaced. -/
def insertAscending {β : Type} (key : String) (value : β) : List (String × β) → List (String × β)
  | [] => [(key, value)]
  | (k, v) :: rest =>
    if key < k then (key, value) :: (k, v) :: rest
    else if key = k then (key, value) :: rest
    else (k, v) :: insertAscending key value rest

/-- The table of a list of entries: of equal keys the last one counts. -/
def ascending {β : Type} (entries : List (String × β)) : List (String × β) :=
  entries.foldl (fun table (key, value) => insertAscending key value table) []

/-- Entries in the ascending order of their keys, each key once. -/
def Ascends {β : Type} (entries : List (String × β)) : Prop :=
  entries.Pairwise fun a b => a.1 < b.1

section

variable {β : Type}

theorem mem_insertAscending {key : String} {value : β} {entry : String × β}
    {entries : List (String × β)} (h : entry ∈ insertAscending key value entries) :
    entry = (key, value) ∨ entry ∈ entries := by
  induction entries with
  | nil => exact .inl (List.mem_singleton.1 h)
  | cons first rest ih =>
    obtain ⟨k, v⟩ := first
    simp only [insertAscending] at h
    split at h
    · exact List.mem_cons.1 h
    · split at h
      · exact (List.mem_cons.1 h).imp id fun h => List.mem_cons_of_mem _ h
      · rcases List.mem_cons.1 h with rfl | h
        · exact .inr List.mem_cons_self
        · exact (ih h).imp id fun h => List.mem_cons_of_mem _ h

theorem ascends_insertAscending {key : String} {value : β} {entries : List (String × β)}
    (h : Ascends entries) : Ascends (insertAscending key value entries) := by
  induction entries with
  | nil => exact List.pairwise_singleton _ _
  | cons entry rest ih =>
    obtain ⟨k, v⟩ := entry
    have ⟨hk, hrest⟩ := List.pairwise_cons.1 h
    simp only [insertAscending]
    split
    · next hlt =>
      refine List.pairwise_cons.2 ⟨fun e he => ?_, h⟩
      rcases List.mem_cons.1 he with rfl | he
      · exact hlt
      · exact String.lt_trans hlt (hk e he)
    · split
      · next heq =>
        subst heq
        exact List.pairwise_cons.2 ⟨hk, hrest⟩
      · next hlt hne =>
        refine List.pairwise_cons.2 ⟨fun (k', v') he => ?_, ih hrest⟩
        rcases mem_insertAscending he with heq | he
        · obtain ⟨rfl, rfl⟩ := Prod.mk.inj heq
          refine Decidable.byContradiction fun hge => hne ?_
          exact String.le_antisymm (String.not_lt.1 hge) (String.not_lt.1 hlt)
        · exact hk _ he

theorem ascends_ascending (entries : List (String × β)) : Ascends (ascending entries) := by
  suffices h : ∀ (entries table : List (String × β)), Ascends table →
      Ascends (entries.foldl (fun table (key, value) => insertAscending key value table) table) from
    h entries [] List.Pairwise.nil
  intro entries
  induction entries with
  | nil => exact fun _ h => h
  | cons entry rest ih => exact fun table h => ih _ (ascends_insertAscending h)

/-- A table has no entries but those it is made of. -/
theorem mem_ascending {entry : String × β} {entries : List (String × β)}
    (h : entry ∈ ascending entries) : entry ∈ entries := by
  suffices hfold : ∀ (entries table : List (String × β)),
      entry ∈ entries.foldl (fun table (key, value) => insertAscending key value table) table →
        entry ∈ table ∨ entry ∈ entries by
    exact (hfold entries [] h).resolve_left (List.not_mem_nil)
  intro entries
  induction entries with
  | nil => exact fun _ h => .inl h
  | cons first rest ih =>
    intro table h
    rcases ih _ h with h | h
    · rcases mem_insertAscending h with rfl | h
      · exact .inr List.mem_cons_self
      · exact .inl h
    · exact .inr (List.mem_cons_of_mem _ h)

end

/-- A table of values by text. -/
structure Table (β : Type) where
  entries : List (String × β)
  ascends : Ascends entries

namespace Table

variable {β : Type}

/-- The table of a list of entries: of equal keys the last one counts. -/
def ofList (entries : List (String × β)) : Table β :=
  ⟨ascending entries, ascends_ascending entries⟩

theorem ext {s t : Table β} (h : s.entries = t.entries) : s = t := by
  cases s
  cases t
  cases h
  rfl

instance [DecidableEq β] : DecidableEq (Table β) := fun s t =>
  if h : s.entries = t.entries then isTrue (ext h) else isFalse fun e => h (e ▸ rfl)

end Table

end Offload.Wire
