import Offload.Toml.Document
import Mathlib.Data.List.Nodup

/-!
# The entries of a document

The entries of a document have different keys, and their numbers are in range
(`sound_of_document?`). Entries come to be in two ways. A key with a value is put behind the others
if there is no such key, and so is a table that a header implies. The table of a header goes to its
place when the next header comes, and until then no other entry takes its key
(`Reading.Sound.free`).

This is about the entries of the document itself. What stands inside its tables is not looked at.

A `Reading` is the state between two lines: the entries so far and the table that the last header
has opened. Its soundness is what each kind of line keeps, and there is one lemma for each of them.
The entries of the document are those of the reading behind the last line, when its table is put in
its place.
-/

namespace Offload.Toml

/-- What stands under a key is not a number out of range. -/
def Node.InRange : Node → Prop
  | .value v => v.fits = true
  | _ => True

/-! ### Values -/

theorem fits_of_number? {cs rest : List Char} {value : Value}
    (h : number? .kept cs = some (value, rest)) : value.fits = true := by
  unfold number? at h
  split at h
  · cases h
    rfl
  · exact (Option.filter_eq_some_iff.1 h).2

/-- A value that opens no level is in range if it is read. -/
theorem fits_of_scalar? {cs rest : List Char} {value : Value}
    (h : scalar? .kept cs = some (value, rest)) : value.fits = true := by
  unfold scalar? at h
  split at h
  case h_5 => exact fits_of_number? h
  all_goals
    obtain ⟨_, -, h⟩ := Option.map_eq_some_iff.1 h
    cases h
    rfl

/-- A value that is read within bounds is in range. -/
theorem fits_of_value? {levels : Nat} {cs rest : List Char} {value : Value}
    (h : value? .kept levels cs = some (value, rest)) : value.fits = true := by
  unfold value? at h
  split at h
  case h_1 | h_2 => cases h
  case h_3 =>
    obtain ⟨_, -, h⟩ := Option.map_eq_some_iff.1 h
    cases h
    rfl
  case h_4 =>
    split at h
    · cases h
      rfl
    · obtain ⟨_, -, h⟩ := Option.map_eq_some_iff.1 h
      cases h
      rfl
  case h_5 => exact fits_of_scalar? h

/-! ### Entries

Each way to change entries keeps them sound: no key comes twice, and every number is in range. They
are stated for one change, and a document is a sequence of changes.
-/

namespace Entries

/-- The keys are different ones, and integers have 64 bits. -/
structure Sound (es : Entries) : Prop where
  nodup : (es.map Prod.fst).Nodup
  inRange : ∀ e ∈ es, e.2.InRange

variable {es es' : Entries} {key : String} {node : Node}

theorem find?_eq_none_iff : es.find? key = none ↔ key ∉ es.map Prod.fst := by
  simp only [find?, List.lookup_eq_none_iff, List.mem_map]
  grind

namespace Sound

theorem nil : Sound [] :=
  ⟨.nil, nofun⟩

theorem concat (h : Sound es) (hkey : es.find? key = none) (hnode : node.InRange) :
    Sound (es ++ [(key, node)]) := by
  refine ⟨?_, fun e he ↦ ?_⟩
  · rw [List.map_append, List.nodup_append]
    refine ⟨h.nodup, List.nodup_singleton _, fun k hk k' hk' ↦ ?_⟩
    obtain rfl := List.mem_singleton.1 hk'
    rintro rfl
    exact find?_eq_none_iff.1 hkey hk
  · rcases List.mem_append.1 he with he | he
    · exact h.inRange e he
    · exact List.mem_singleton.1 he ▸ hnode

theorem replace (h : Sound es) (hnode : node.InRange) : Sound (es.replace key node) := by
  refine ⟨?_, fun e he ↦ ?_⟩
  · have hkeys : (es.replace key node).map Prod.fst = es.map Prod.fst := by
      rw [Entries.replace, List.map_map]
      refine List.map_congr_left fun e _ ↦ ?_
      dsimp only [Function.comp]
      split <;> rfl
    rw [hkeys]
    exact h.nodup
  · obtain ⟨⟨k, n⟩, he', rfl⟩ := List.mem_map.1 he
    show (if k = key then (k, node) else (k, n)).2.InRange
    split
    · exact hnode
    · exact h.inRange _ he'

theorem remove (h : Sound es) (key : String) : Sound (es.remove key) :=
  ⟨h.nodup.sublist (List.filter_sublist.map _), fun e he ↦ h.inRange e (List.mem_of_mem_filter he)⟩

/-- A change inside a table keeps the keys of the document, and adds at most one. -/
theorem update_cons (h : Sound es) {definition own : Definition}
    {change : Definition → Entries → Option Entries} {path : List String}
    (hupdate : update definition change (key :: path) own es = some es') : Sound es' := by
  unfold update at hupdate
  split at hupdate
  · next hfind =>
    obtain ⟨inner, -, hupdate⟩ := Option.bind_eq_some_iff.1 hupdate
    cases hupdate
    exact h.concat hfind trivial
  · cases hupdate
  · split at hupdate
    · cases hupdate
    · obtain ⟨inner, -, hupdate⟩ := Option.bind_eq_some_iff.1 hupdate
      cases hupdate
      exact h.replace trivial
  · obtain ⟨_, -, hupdate⟩ := Option.bind_eq_some_iff.1 hupdate
    obtain ⟨last, -, hupdate⟩ := Option.bind_eq_some_iff.1 hupdate
    cases hupdate
    exact h.replace trivial

/-- A change keeps the entries sound if it does so in the document itself. -/
theorem update (h : Sound es) {definition own : Definition}
    {change : Definition → Entries → Option Entries} {path : List String}
    (hchange : path = [] → change own es = some es' → Sound es')
    (hupdate : update definition change path own es = some es') : Sound es' := by
  cases path with
  | nil => exact hchange rfl (by rwa [Entries.update] at hupdate)
  | cons key path => exact h.update_cons hupdate

/-- A key is defined, at the top or inside tables that are implied on the way. -/
theorem defineAt (h : Sound es) {path : List String} {value : Value} (hvalue : value.fits = true)
    (hdefine : es.defineAt path key value = some es') : Sound es' := by
  refine h.update (fun hpath hchange ↦ ?_) hdefine
  rw [if_pos (.inr hpath), define] at hchange
  split at hchange
  · cases hchange
  · next hfind =>
    cases hchange
    exact h.concat hfind hvalue

end Sound

theorem find?_remove (es : Entries) (key : String) : (es.remove key).find? key = none := by
  simp [find?_eq_none_iff, remove]

end Entries

/-! ### Documents

The reading of a document keeps two lists of entries, those of the document and those of the open
table, and each of them is sound on its own. They are put together at the end, and whenever a header
comes.
-/

namespace Reading

/-- What holds between two lines. -/
structure Sound (r : Reading) : Prop where
  /-- In front of the first header the document itself is read. -/
  current : r.header = none → r.current.Sound
  root : r.header ≠ none → r.root.Sound
  /-- The place of the table that is being read is free. -/
  free : ∀ key, r.header = some ([], key, false) → r.root.find? key = none

namespace Sound

variable {r r' : Reading} {path : List String} {key : String}

/-- The table of the last header goes to its place at the end. -/
theorem close (h : r.Sound) {es : Entries} (hclose : r.close = some es) : es.Sound := by
  unfold Reading.close at hclose
  split at hclose
  · next hheader =>
    cases hclose
    exact h.current hheader
  · next path key hheader =>
    refine (h.root (by simp [hheader])).update (fun hpath hchange ↦ ?_) hclose
    cases hchange
    exact (h.root (by simp [hheader])).concat (h.free key (hpath ▸ hheader)) trivial
  · next path key hheader =>
    refine (h.root (by simp [hheader])).update (fun _ hchange ↦ ?_) hclose
    split at hchange
    · cases hchange
      exact (h.root (by simp [hheader])).replace trivial
    · cases hchange

/-- A key with its value comes into the table of the last header. -/
theorem pair (h : r.Sound) {value : Value} (hvalue : value.fits = true)
    (hpair : r.pair path key value = some r') : r'.Sound := by
  obtain ⟨current, hdefine, rfl⟩ := Option.map_eq_some_iff.1 hpair
  exact ⟨fun hheader ↦ (h.current hheader).defineAt hvalue hdefine, h.root, h.free⟩

theorem openTable (h : r.Sound) (hopen : r.openTable path key = some r') : r'.Sound := by
  obtain ⟨closed, hclose, hopen⟩ := Option.bind_eq_some_iff.1 hopen
  have hclosed := h.close hclose
  -- the entries that the table has already do not matter here
  obtain ⟨current, root, hupdate, rfl⟩ : ∃ current root,
      closed.update .implied (fun _ es ↦ some (es.remove key)) path .explicit = some root ∧
        r' = { root, current, header := some (path, key, false) } := by
    dsimp only at hopen
    split at hopen
    case h_3 => cases hopen
    all_goals
      obtain ⟨current, -, hopen⟩ := Option.bind_eq_some_iff.1 hopen
      obtain ⟨root, hupdate, hopen⟩ := Option.bind_eq_some_iff.1 hopen
      cases hopen
      exact ⟨current, root, hupdate, rfl⟩
  refine ⟨nofun, fun _ ↦ hclosed.update (fun _ hchange ↦ ?_) hupdate, fun key' hheader ↦ ?_⟩
  · cases hchange
    exact hclosed.remove key
  · cases hheader
    rw [Entries.update] at hupdate
    cases hupdate
    exact Entries.find?_remove ..

theorem openListed (h : r.Sound) (hopen : r.openListed path key = some r') : r'.Sound := by
  obtain ⟨closed, hclose, hopen⟩ := Option.bind_eq_some_iff.1 hopen
  obtain ⟨root, hupdate, hopen⟩ := Option.bind_eq_some_iff.1 hopen
  have hclosed := h.close hclose
  cases hopen
  refine ⟨nofun, fun _ ↦ hclosed.update (fun _ hchange ↦ ?_) hupdate, nofun⟩
  split at hchange
  · next hfind =>
    cases hchange
    exact hclosed.concat hfind trivial
  · cases hchange
    exact hclosed
  · cases hchange

theorem line? (h : r.Sound) {cs rest : List Char} (hline : line? .kept r cs = some (r', rest)) :
    r'.Sound := by
  unfold Toml.line? at hline
  split at hline
  · obtain ⟨_, -, hline⟩ := Option.map_eq_some_iff.1 hline
    cases hline
    exact h
  · simp only [Option.bind_eq_bind, Option.bind_eq_some_iff] at hline
    obtain ⟨_, -, _, -, _, -, _, -, r'', hopen, hline⟩ := hline
    cases hline
    exact h.openListed hopen
  · simp only [Option.bind_eq_bind, Option.bind_eq_some_iff] at hline
    obtain ⟨_, -, _, -, _, -, r'', hopen, hline⟩ := hline
    cases hline
    exact h.openTable hopen
  · split at hline
    · cases hline
      exact h
    · simp only [Option.bind_eq_bind, Option.bind_eq_some_iff] at hline
      obtain ⟨⟨⟨path, key, value⟩, cs'⟩, hpair?, _, -, r'', hpair, hline⟩ := hline
      cases hline
      simp only [pair?, Option.bind_eq_bind, Option.bind_eq_some_iff] at hpair?
      obtain ⟨_, -, _, -, ⟨value', _⟩, hvalue, hpair?⟩ := hpair?
      cases hpair?
      exact h.pair (fits_of_value? hvalue) hpair

theorem lines? (h : r.Sound) {fuel : Nat} {cs : List Char}
    (hlines : lines? .kept fuel r cs = some r') : r'.Sound := by
  induction fuel generalizing r cs with
  | zero => cases hlines
  | succ fuel ih =>
    unfold Toml.lines? at hlines
    split at hlines
    · cases hlines
      exact h
    · obtain ⟨⟨r'', rest⟩, hline, hlines⟩ := Option.bind_eq_some_iff.1 hlines
      exact ih (h.line? hline) hlines

end Sound

end Reading

/-- The entries of a document have different keys, and numbers in range. -/
theorem sound_of_document? {cs : List Char} {es : Entries} (h : document? cs = some es) :
    es.Sound := by
  obtain ⟨r, hlines, hclose⟩ := Option.bind_eq_some_iff.1 h
  have hstart : Reading.Sound {} := ⟨fun _ ↦ .nil, fun h ↦ absurd rfl h, nofun⟩
  exact (hstart.lines? hlines).close hclose

end Offload.Toml
