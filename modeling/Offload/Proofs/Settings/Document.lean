import Offload.Proofs.Toml.Bounds
import Offload.Proofs.Toml.Nesting
import Offload.Settings.Document
import Mathlib.Logic.Function.Basic

/-!
# Which documents are rejected, and why

An entry of a document is a fault if its key is no field, or if the field does not take its value
(`IsFault`). Faults are looked for in the order of the entries, and the first one decides, whatever
follows it. Only a document without a fault is looked at as a whole, and then a poll interval of
zero is what it is rejected for, wherever that entry stands (`Judged`).

So whether a document is accepted does not depend on the order of its entries, and neither do the
settings: each field has the value of its entry, or the default if it has none (`Reflects`). The
reason for a rejection does depend on it.

A document need not be one that the reader can take: it may nest too deep, have a key of too many
segments or a number out of range. The reader then gives up before any entry is looked at, so that
no entry is what the document is rejected for (`unnamed_beyond_bounds`). But it is rejected rightly.
What a field takes keeps the bounds of the reader, and so what goes beyond them is a fault of its
entry, whatever the key is (`Clean.isPlain`). That is why all but the first fault is the same for
every document of the language.

The theorems are in two halves. The first is about entries alone: which fault is found, in which
order, and what is made of entries without one. The second half goes from entries to texts. It is
there that the bounds of the reader come in, as the difference between the entries that the language
gives to a text (`Toml.read?` without bounds) and those that are read off it (`Toml.document?`).
-/

namespace Offload.Settings

open Toml (Entries Node)

/-! ### Fields

The five fields have two kinds of values. A field is known by its key and by the part of the
settings that it is, and both are tables over `Field`, so what is proved here is proved for all of
them by one case each.
-/

namespace Field

variable {f : Field} {s t u : Settings} {v : Toml.Value}

theorem key_injective : Function.Injective key := by
  intro f g
  cases f <;> cases g <;> decide

/-- A field is found under its own key and under no other. -/
theorem ofKey?_eq_some_iff {key : String} : ofKey? key = some f ↔ f.key = key := by
  constructor
  · intro h
    simpa using List.find?_some h
  · rintro rfl
    cases f <;> rfl

theorem ofKey?_eq_none_iff {key : String} : ofKey? key = none ↔ ∀ f : Field, f.key ≠ key := by
  rw [Option.eq_none_iff_forall_not_mem]
  exact forall_congr' fun f ↦ not_congr ofKey?_eq_some_iff

/-- The values of a field: truth values for one of them, and counts of 64 bits for the others. -/
def Takes : Field → Toml.Value → Prop
  | terminateOnReturn, v => ∃ b, v = .boolean b
  | _, v => ∃ n : Nat, v = .integer n ∧ n < 2 ^ 64

/-- What stands under the key of the field is a value that it takes, and no number that is out of
range in every document. -/
def Admits (f : Field) (node : Node) : Prop :=
  ∃ v, node = .value v ∧ v.fits = true ∧ f.Takes v

/-- A duration is the number of milliseconds that a value says. -/
def Lasts (d : Duration) (v : Toml.Value) : Prop :=
  ∃ n : Nat, v = .integer n ∧ d.nanos = n * 1000000

/-- The field of the settings has the value. -/
def Holds (s : Settings) : Field → Toml.Value → Prop
  | maxConcurrent, v => ∃ n : Nat, v = .integer n ∧ s.limit = .atMost n
  | terminateOnReturn, v => v = .boolean s.terminateOnReturn
  | pollInterval, v => Lasts s.pollInterval v
  | gracePeriod, v => Lasts s.termination.gracePeriod v
  | killWait, v => Lasts s.termination.killWait v

/-- Two settings agree in the field. -/
def Same (s t : Settings) : Field → Prop
  | maxConcurrent => s.limit = t.limit
  | terminateOnReturn => s.terminateOnReturn = t.terminateOnReturn
  | pollInterval => s.pollInterval = t.pollInterval
  | gracePeriod => s.termination.gracePeriod = t.termination.gracePeriod
  | killWait => s.termination.killWait = t.termination.killWait

theorem Same.symm (h : Same s t f) : Same t s f := by
  cases f <;> exact Eq.symm h

theorem Same.trans (hst : Same s t f) (htu : Same t u f) : Same s u f := by
  cases f <;> exact Eq.trans hst htu

/-- Settings are their fields. -/
theorem eq_of_same (h : ∀ f, Same s t f) : s = t := by
  obtain ⟨limit, terminate, poll, grace, kill⟩ := s
  obtain ⟨limit', terminate', poll', grace', kill'⟩ := t
  obtain rfl : limit = limit' := h maxConcurrent
  obtain rfl : terminate = terminate' := h terminateOnReturn
  obtain rfl : poll = poll' := h pollInterval
  obtain rfl : grace = grace' := h gracePeriod
  obtain rfl : kill = kill' := h killWait
  rfl

/-- An integer of a document counts milliseconds, and a duration nanoseconds. -/
theorem lasts_integer_iff {d : Duration} {n : Nat} :
    Lasts d (.integer n) ↔ d.nanos = n * 1000000 := by
  constructor
  · rintro ⟨m, hm, hd⟩
    obtain rfl := Int.ofNat.inj (Toml.Value.integer.inj hm)
    exact hd
  · exact fun hd ↦ ⟨n, rfl, hd⟩

theorem Lasts.unique {a b : Duration} (ha : Lasts a v) (hb : Lasts b v) : a = b := by
  obtain ⟨n, rfl, ha⟩ := ha
  have heq : a.nanos = b.nanos := ha.trans (lasts_integer_iff.1 hb).symm
  cases a
  cases b
  cases heq
  rfl

/-- Settings that agree on a field hold the same value there. -/
theorem Holds.congr (h : Holds s f v) (hst : Same s t f) : Holds t f v := by
  cases f with
  | maxConcurrent =>
    obtain ⟨n, hn, hs⟩ := h
    exact ⟨n, hn, (Eq.symm hst).trans hs⟩
  | terminateOnReturn => exact Eq.trans h (congrArg Toml.Value.boolean hst)
  | _ =>
    obtain ⟨n, hn, hs⟩ := h
    exact ⟨n, hn, (congrArg Duration.nanos (Eq.symm hst)).trans hs⟩

/-- The value of a field determines it. -/
theorem Holds.same (hs : Holds s f v) (ht : Holds t f v) : Same s t f := by
  cases f with
  | maxConcurrent =>
    obtain ⟨n, rfl, hs⟩ := hs
    obtain ⟨m, hm, ht⟩ := ht
    obtain rfl := Int.ofNat.inj (Toml.Value.integer.inj hm)
    exact hs.trans ht.symm
  | terminateOnReturn => exact Toml.Value.boolean.inj (hs.symm.trans ht)
  | pollInterval => exact Lasts.unique hs ht
  | gracePeriod => exact Lasts.unique hs ht
  | killWait => exact Lasts.unique hs ht

end Field

/-! ### Faults

A fault is said of an entry alone. What a field takes is bounded twice, by the kind of the field and
by the range of a number; the second bound is one of the reader's, and that is why an entry that is
clean is one that the reader can take.
-/

/-- An entry that no document may have, and what it is rejected for. -/
inductive IsFault : String × Node → Fault → Prop
  | unknownKey {key : String} {node : Node} (h : ∀ f : Field, f.key ≠ key) :
    IsFault (key, node) (.unknownKey key)
  | badValue {f : Field} {node : Node} (h : ¬ f.Admits node) : IsFault (f.key, node) (.badValue f)

/-- No entry is a fault. -/
def Clean (es : Entries) : Prop :=
  ∀ e ∈ es, ∀ fault, ¬ IsFault e fault

/-- No entry of a longer document is a fault just if the first is none and the others are none. -/
theorem clean_cons {e : String × Node} {es : Entries} :
    Clean (e :: es) ↔ (∀ fault, ¬ IsFault e fault) ∧ Clean es :=
  List.forall_mem_cons

/-- The entry that sets the poll interval to zero. -/
def zeroPoll : String × Node :=
  (Field.pollInterval.key, .value (.integer 0))

/-- The settings have the values of the entries, and defaults in the fields that have no entry. -/
structure Reflects (es : Entries) (s : Settings) : Prop where
  stated : ∀ f v, (f.key, .value v) ∈ es → Field.Holds s f v
  unstated : ∀ f : Field, f.key ∉ es.map Prod.fst → Field.Same s default f

/-- An entry without a fault sets a field to a value of it. -/
theorem exists_field_of_not_isFault {e : String × Node} (h : ∀ fault, ¬ IsFault e fault) :
    ∃ (f : Field) (v : Toml.Value), e = (f.key, .value v) ∧ v.fits = true ∧ f.Takes v := by
  obtain ⟨key, node⟩ := e
  have hkey : ∃ f : Field, f.key = key := by
    by_contra hkey
    exact h _ (.unknownKey (not_exists.1 hkey))
  obtain ⟨f, rfl⟩ := hkey
  have hadmits : f.Admits node := by
    by_contra hadmits
    exact h _ (.badValue hadmits)
  obtain ⟨v, rfl, hv⟩ := hadmits
  exact ⟨f, v, rfl, hv⟩

/-- No field takes an array or a table. -/
theorem Field.Takes.isPlain {f : Field} {v : Toml.Value} (h : f.Takes v) (hv : v.fits = true) :
    v.isPlain = true := by
  have hcount (h : ∃ n : Nat, v = .integer n ∧ n < 2 ^ 64) : v.isPlain = true := by
    obtain ⟨n, rfl, -⟩ := h
    exact hv
  cases f with
  | terminateOnReturn =>
    obtain ⟨b, rfl⟩ := h
    rfl
  | _ => exact hcount h

/-- Entries without a fault stay within the bounds of a reader. -/
theorem Clean.isPlain {es : Entries} (h : Clean es) : ∀ e ∈ es, e.2.isPlain = true := by
  intro e he
  obtain ⟨f, v, rfl, hfits, hv⟩ := exists_field_of_not_isFault (h e he)
  exact hv.isPlain hfits

/-- A fault in a list has a first one. -/
theorem exists_first_fault {es : Entries} (h : ¬ Clean es) : ∃ before e after fault,
    es = before ++ e :: after ∧ Clean before ∧ IsFault e fault := by
  induction es with
  | nil => exact absurd nofun h
  | cons e es ih =>
    by_cases he : ∃ fault, IsFault e fault
    · obtain ⟨fault, hfault⟩ := he
      exact ⟨[], e, es, fault, rfl, nofun, hfault⟩
    · rw [not_exists] at he
      obtain ⟨before, e', after, fault, rfl, hbefore, hfault⟩ := ih fun hes ↦
        h (clean_cons.2 ⟨he, hes⟩)
      exact ⟨e :: before, e', after, fault, rfl, clean_cons.2 ⟨he, hbefore⟩, hfault⟩

/-! ### Drafts

A draft is what has been read so far. It is looked at through `value?`, a function from fields to
values, which turns the setters into one update.
-/

namespace Draft

variable {d : Draft} {f : Field} {node : Node} {es : Entries}

/-- The value that a field was set to. -/
def value? (d : Draft) : Field → Option Toml.Value
  | .maxConcurrent => d.maxConcurrent.map fun n : Nat => .integer n
  | .terminateOnReturn => d.terminateOnReturn.map .boolean
  | .pollInterval => d.pollInterval.map fun ms => .integer ms.toNat
  | .gracePeriod => d.gracePeriod.map fun ms => .integer ms.toNat
  | .killWait => d.killWait.map fun ms => .integer ms.toNat

/-- A value of the field is set, and no other field changes. -/
theorem set?_of_takes (d : Draft) {v : Toml.Value} (h : f.Takes v) :
    ∃ d', d.set? (.value v) f = some d' ∧ d'.value? = Function.update d.value? f (some v) := by
  cases f with
  | terminateOnReturn =>
    obtain ⟨b, rfl⟩ := h
    refine ⟨_, rfl, funext fun g ↦ ?_⟩
    cases g <;> simp [value?, Function.update]
  | _ =>
    obtain ⟨n, rfl, hn⟩ := h
    refine ⟨_, rfl, funext fun g ↦ ?_⟩
    cases g <;> simp [value?, Function.update, Nat.mod_eq_of_lt hn]

/-- What is in range and not admitted is not taken. The range is assumed, since a field looks at no
bounds but its own. -/
theorem set?_eq_none (d : Draft) (hnode : node.InRange) (h : ¬ f.Admits node) :
    d.set? node f = none := by
  have hcount (hf : f ≠ .terminateOnReturn) : count? node = none := by
    by_contra hcount
    obtain ⟨n, hn⟩ := Option.ne_none_iff_exists'.1 hcount
    unfold count? at hn
    split at hn
    · next n =>
      split at hn
      · next hle =>
        -- a number of 64 bits with a sign is one without, if it is not negative
        have hrange : n ≤ Toml.greatest := (Toml.fits_integer_iff.1 hnode).2
        refine h ⟨_, rfl, hnode, ?_⟩
        have hlt : n.toNat < 2 ^ 64 := by
          rw [Toml.greatest] at hrange
          omega
        cases f with
        | terminateOnReturn => exact absurd rfl hf
        | _ => exact ⟨n.toNat, by rw [Int.toNat_of_nonneg hle], hlt⟩
      · cases hn
    · cases hn
  cases f with
  | terminateOnReturn =>
    suffices htruth : truth? node = none by rw [set?, htruth, Option.map_none]
    unfold truth?
    split
    · exact absurd ⟨_, rfl, rfl, _, rfl⟩ h
    · rfl
  | _ => simp [set?, millisOf?, hcount (by decide)]

/-- A fault ends the reading. -/
theorem entry_of_isFault {e : String × Node} {fault : Fault} (d : Draft) (hrange : e.2.InRange)
    (h : IsFault e fault) : d.entry e.1 e.2 = .error fault := by
  cases h with
  | unknownKey hkey => rw [entry, Field.ofKey?_eq_none_iff.2 hkey]
  | badValue hvalue =>
    simp only [entry, Field.ofKey?_eq_some_iff.2 rfl, d.set?_eq_none hrange hvalue]

/-- An entry whose value the field takes changes that field and nothing else. -/
theorem entry_of_takes (d : Draft) {v : Toml.Value} (h : f.Takes v) : ∃ d',
    d.entry f.key (.value v) = .ok d' ∧ d'.value? = Function.update d.value? f (some v) := by
  obtain ⟨d', hset, hvalue⟩ := d.set?_of_takes h
  exact ⟨d', by simp only [entry, Field.ofKey?_eq_some_iff.2 rfl, hset], hvalue⟩

/-- The first fault decides, whatever follows it. -/
theorem ofEntries_of_isFault {before after : Entries} {e : String × Node} {fault : Fault}
    (d : Draft) (hbefore : Clean before) (hrange : e.2.InRange) (h : IsFault e fault) :
    d.ofEntries (before ++ e :: after) = .error fault := by
  induction before generalizing d with
  | nil => simp only [List.nil_append, ofEntries, entry_of_isFault d hrange h]
  | cons e' before ih =>
    obtain ⟨he', hrest⟩ := clean_cons.1 hbefore
    obtain ⟨f, v, rfl, -, hv⟩ := exists_field_of_not_isFault he'
    obtain ⟨d', hentry, -⟩ := d.entry_of_takes hv
    simp only [List.cons_append, ofEntries, hentry, ih d' hrest]

/-- Without a fault every entry is read. A field has the value of its entry, or the one that it had
before if it has no entry. -/
theorem ofEntries_of_clean (d : Draft) (hclean : Clean es) (hnodup : (es.map Prod.fst).Nodup) :
    ∃ d', d.ofEntries es = .ok d' ∧ ∀ f v, d'.value? f = some v ↔
      (f.key, .value v) ∈ es ∨ f.key ∉ es.map Prod.fst ∧ d.value? f = some v := by
  induction es generalizing d with
  | nil => exact ⟨d, rfl, by simp⟩
  | cons e es ih =>
    obtain ⟨he, hrest⟩ := clean_cons.1 hclean
    obtain ⟨hfresh, hdistinct⟩ := List.nodup_cons.1 hnodup
    obtain ⟨f, v, rfl, -, hv⟩ := exists_field_of_not_isFault he
    obtain ⟨d', hentry, hvalue⟩ := d.entry_of_takes hv
    obtain ⟨d'', hes, hvalues⟩ := ih d' hrest hdistinct
    refine ⟨d'', by simp only [ofEntries, hentry, hes], fun g w ↦ ?_⟩
    rw [hvalues, hvalue]
    have hmem (w : Toml.Value) : (f.key, Node.value w) ∉ es := fun hw ↦
      hfresh (List.mem_map.2 ⟨_, hw, rfl⟩)
    by_cases hg : g = f
    · subst hg
      simp only [Function.update_self, List.mem_cons, hmem, List.map_cons]
      simp [hfresh, eq_comm]
    · have hkey : g.key ≠ f.key := fun h ↦ hg (Field.key_injective h)
      simp [Function.update_of_ne hg, hkey]

/-- A draft gives settings with its values, unless it has a poll interval of zero. -/
theorem settings_cases (d : Draft) :
    d.value? .pollInterval = some (.integer 0) ∧ d.settings = .error .zeroPollInterval ∨
      d.value? .pollInterval ≠ some (.integer 0) ∧ ∃ s, d.settings = .ok s ∧
        (∀ f v, d.value? f = some v → Field.Holds s f v) ∧
        ∀ f, d.value? f = none → Field.Same s default f := by
  have hzero : d.value? .pollInterval = some (.integer 0) ↔ d.pollInterval = some 0 := by
    rw [value?, Option.map_eq_some_iff]
    constructor
    · rintro ⟨ms, hms, hvalue⟩
      obtain rfl : ms = 0 := by simpa [← UInt64.toNat_inj] using hvalue
      exact hms
    · exact fun h ↦ ⟨0, h, rfl⟩
  rw [Ne, hzero, settings]
  by_cases h : d.pollInterval = some 0
  · exact .inl ⟨h, if_pos h⟩
  · refine .inr ⟨h, _, if_neg h, fun f v hv ↦ ?_, fun f hf ↦ ?_⟩
    · cases f <;> obtain ⟨x, hx, rfl⟩ := Option.map_eq_some_iff.1 hv <;> dsimp only [Field.Holds]
      case terminateOnReturn => rw [hx, Option.getD_some]
      all_goals exact ⟨_, rfl, by rw [hx]; rfl⟩
    · cases f <;> dsimp only [Field.Same] <;> rw [Option.map_eq_none_iff.1 hf] <;> rfl

end Draft

/-! ### Documents

The three cases of `ofEntries_cases` exclude each other, so each of the results below is one of them
and the absurdity of the other two.
-/

section Entries

variable {es : Entries}

theorem ofEntries_of_isFault {before after : Entries} {e : String × Node} {fault : Fault}
    (hbefore : Clean before) (hrange : e.2.InRange) (h : IsFault e fault) :
    ofEntries (before ++ e :: after) = .error fault := by
  rw [ofEntries, Draft.ofEntries_of_isFault {} hbefore hrange h]

/-- Entries without a fault set a poll interval of zero, or there are settings that reflect them. -/
theorem ofEntries_of_clean (hclean : Clean es) (hnodup : (es.map Prod.fst).Nodup) :
    zeroPoll ∈ es ∧ ofEntries es = .error .zeroPollInterval ∨
      zeroPoll ∉ es ∧ ∃ s, ofEntries es = .ok s ∧ Reflects es s := by
  obtain ⟨d, hd, hvalues⟩ := Draft.ofEntries_of_clean {} hclean hnodup
  have hvalue (f : Field) (v : Toml.Value) : d.value? f = some v ↔ (f.key, .value v) ∈ es := by
    rw [hvalues, or_iff_left]
    rintro ⟨-, h⟩
    cases f <;> cases h
  rw [ofEntries, hd]
  rcases d.settings_cases with ⟨hzero, herror⟩ | ⟨hzero, s, hok, hholds, hsame⟩
  · exact .inl ⟨(hvalue _ _).1 hzero, herror⟩
  · refine .inr ⟨fun h ↦ hzero ((hvalue _ _).2 h), s, hok,
      fun f v h ↦ hholds f v ((hvalue f v).2 h), fun f hf ↦ hsame f ?_⟩
    rw [Option.eq_none_iff_forall_not_mem]
    exact fun v hv ↦ hf (List.mem_map_of_mem ((hvalue f v).1 hv))

/-- Only one value of each field is stated, so the entries leave no choice of the settings. -/
theorem Reflects.unique {s t : Settings} (hclean : Clean es) (hs : Reflects es s)
    (ht : Reflects es t) : s = t := by
  refine Field.eq_of_same fun f ↦ ?_
  by_cases hf : f.key ∈ es.map Prod.fst
  · obtain ⟨e, he, hkey⟩ := List.mem_map.1 hf
    obtain ⟨g, v, rfl, -⟩ := exists_field_of_not_isFault (hclean e he)
    obtain rfl := Field.key_injective hkey
    exact (hs.stated g v he).same (ht.stated g v he)
  · exact (hs.unstated f hf).trans (ht.unstated f hf).symm

/-- The three ways in which entries are looked at: up to the first fault, up to the end and rejected
for the poll interval, or accepted. -/
theorem ofEntries_cases (h : es.Sound) :
    (∃ before e after fault, es = before ++ e :: after ∧ Clean before ∧ IsFault e fault ∧
        ofEntries es = .error fault) ∨
      Clean es ∧ zeroPoll ∈ es ∧ ofEntries es = .error .zeroPollInterval ∨
      Clean es ∧ zeroPoll ∉ es ∧ ∃ s, ofEntries es = .ok s ∧ Reflects es s := by
  by_cases hclean : Clean es
  · rcases ofEntries_of_clean hclean h.nodup with hzero | haccepted
    · exact .inr (.inl ⟨hclean, hzero⟩)
    · exact .inr (.inr ⟨hclean, haccepted⟩)
  · obtain ⟨before, e, after, fault, rfl, hbefore, hfault⟩ := exists_first_fault hclean
    exact .inl ⟨before, e, after, fault, rfl, hbefore, hfault,
      ofEntries_of_isFault hbefore (h.inRange e (by simp)) hfault⟩

theorem not_clean_of_isFault {before after : Entries} {e : String × Node} {fault : Fault}
    (h : IsFault e fault) : ¬ Clean (before ++ e :: after) :=
  fun hclean ↦ hclean e (by simp) fault h

/-- Settings are read off the entries just if none is a fault and the poll interval is not zero, and
they are what the entries state. -/
theorem ofEntries_eq_ok_iff {s : Settings} (h : es.Sound) :
    ofEntries es = .ok s ↔ Clean es ∧ zeroPoll ∉ es ∧ Reflects es s := by
  rcases ofEntries_cases h with ⟨before, e, after, fault, rfl, -, hfault, herror⟩ |
    ⟨-, hzero, herror⟩ | ⟨hclean, hzero, s', hok, hreflects⟩
  · simp [herror, not_clean_of_isFault hfault]
  · simp [herror, hzero]
  · rw [hok, Except.ok.injEq]
    constructor
    · rintro rfl
      exact ⟨hclean, hzero, hreflects⟩
    · exact fun hs ↦ hreflects.unique hclean hs.2.2

/-- A poll interval of zero is reported just if nothing else is wrong. -/
theorem ofEntries_eq_zero_iff (h : es.Sound) :
    ofEntries es = .error .zeroPollInterval ↔ Clean es ∧ zeroPoll ∈ es := by
  rcases ofEntries_cases h with ⟨before, e, after, fault, rfl, -, hfault, herror⟩ |
    ⟨hclean, hzero, herror⟩ | ⟨-, hzero, s', hok, -⟩
  · rw [herror]
    refine iff_of_false (fun h ↦ ?_) fun h ↦ not_clean_of_isFault hfault h.1
    obtain rfl := Except.error.inj h
    cases hfault
  · exact iff_of_true herror ⟨hclean, hzero⟩
  · simp [hok, hzero]

/-- Whether an entry is a fault does not depend on where it stands. -/
theorem Clean.perm {es' : Entries} (h : es'.Perm es) : Clean es' ↔ Clean es :=
  forall_congr' fun _ ↦ imp_congr_left h.mem_iff

/-- What the entries state does not depend on their order. -/
theorem Reflects.perm {es' : Entries} {s : Settings} (h : es'.Perm es) :
    Reflects es' s ↔ Reflects es s := by
  have hkeys := h.map Prod.fst
  constructor
  · exact fun hs ↦ ⟨fun f v hv ↦ hs.stated f v (h.mem_iff.2 hv),
      fun f hf ↦ hs.unstated f fun hf' ↦ hf (hkeys.mem_iff.1 hf')⟩
  · exact fun hs ↦ ⟨fun f v hv ↦ hs.stated f v (h.mem_iff.1 hv),
      fun f hf ↦ hs.unstated f fun hf' ↦ hf (hkeys.mem_iff.2 hf')⟩

/-- The order of the entries decides neither whether they are accepted nor what settings they
give. -/
theorem ofEntries_perm {es' : Entries} (h : es'.Perm es) (hes : es.Sound) {s : Settings} :
    ofEntries es' = .ok s ↔ ofEntries es = .ok s := by
  have hes' : es'.Sound := ⟨(h.map Prod.fst).nodup_iff.2 hes.nodup,
    fun e he ↦ hes.inRange e (h.mem_iff.1 he)⟩
  rw [ofEntries_eq_ok_iff hes', ofEntries_eq_ok_iff hes, Clean.perm h, h.mem_iff, Reflects.perm h]

end Entries

/-! ### Texts

A text goes through the reader first. For a document of the language there are two cases, as the
reader gives up or reads the same entries; in the first of them the document has a fault already
(`not_clean_of_document?_eq_none`), so that the verdict is the same and only the first fault is not
named.
-/

/-- What a document without a fault is rejected for. -/
def zeroPollMessage : String :=
  "poll_interval_ms must be greater than zero"

/-- The wording tells a poll interval of zero from all else that a document is rejected for. -/
theorem Fault.reason_eq_zeroPollMessage_iff {document : String} {fault : Fault} :
    fault.reason document = zeroPollMessage ↔ fault = .zeroPollInterval := by
  have hstart (rest : String) : "Failed to parse " ++ rest ≠ zeroPollMessage := fun h ↦ by
    have hfirst := congrArg (fun s ↦ s.toList.head?) h
    simp [zeroPollMessage] at hfirst
  unfold Fault.reason
  cases fault with
  | zeroPollInterval => exact iff_of_true rfl rfl
  | _ => simp only [String.append_assoc, hstart, reduceCtorEq]

/-- A text is read through the entries of its document. -/
theorem ofText_of_document? {text : String} {es : Entries}
    (h : Toml.document? text.toList = some es) : ofText text = ofEntries es := by
  rw [ofText, h]

/-- Settings are read off a text just if it is a document and they are read off its entries. -/
theorem ofText_eq_ok_iff {text : String} {s : Settings} : ofText text = .ok s ↔
    ∃ es, Toml.document? text.toList = some es ∧ ofEntries es = .ok s := by
  rw [ofText]
  cases Toml.document? text.toList <;> simp

/-- A wording changes no settings, only the faults. -/
theorem mapError_eq_ok_iff {read : Except Fault Settings} {wording : Fault → TaskError}
    {s : Settings} : read.mapError wording = .ok s ↔ read = .ok s := by
  cases read <;> simp [Except.mapError]

/-- The reader of a text and the one that words its faults accept the same texts. -/
theorem ofToml_eq_ok_iff {text : String} {s : Settings} :
    ofToml text = .ok s ↔ ofText text = .ok s :=
  mapError_eq_ok_iff

theorem ofToml_of_fault {text : String} {fault : Fault} (h : ofText text = .error fault) :
    ofToml text = .error (fault.toError "config") := by
  rw [ofToml, h]
  rfl

/-- What becomes of a document of the language with the given entries. -/
structure Judged (text : String) (es : Entries) : Prop where
  /-- It is rejected if and only if an entry is a fault or the poll interval is zero. -/
  rejected_iff : (∃ error, ofToml text = .error error) ↔
    (∃ e ∈ es, ∃ fault, IsFault e fault) ∨ zeroPoll ∈ es
  /-- Within the bounds of the reader the first fault decides, whatever follows it. -/
  first : Toml.document? text.toList = some es → ∀ before e after fault,
    es = before ++ e :: after → Clean before → IsFault e fault →
      ofText text = .error fault ∧ ofToml text = .error (fault.toError "config")
  /-- Beyond them some entry is a fault as well, but it is not what is found. -/
  beyond : Toml.document? text.toList = none →
    (∃ e ∈ es, ∃ fault, IsFault e fault) ∧ ofText text = .error .malformed
  /-- The poll interval is what it is rejected for if and only if no entry is a fault. -/
  zero_iff : ofText text = .error .zeroPollInterval ↔ Clean es ∧ zeroPoll ∈ es
  /-- No other reason has the same wording. -/
  zero_message_iff : ofToml text = .error (.configuration zeroPollMessage) ↔
    Clean es ∧ zeroPoll ∈ es
  /-- The entries in another order give the same settings, or none again. -/
  rearranged : Toml.document? text.toList = some es → ∀ es', es'.Perm es →
    ∀ s, ofEntries es' = .ok s ↔ ofToml text = .ok s
  /-- So do all documents with such entries, whether or not they are within the bounds. -/
  rewritten : ∀ text' es', Toml.read? .lifted text'.toList = some es' → es'.Perm es →
    ∀ s, ofToml text' = .ok s ↔ ofToml text = .ok s

section Texts

variable {text : String} {es : Entries}

/-- What is not clean has an entry that is a fault. -/
theorem exists_isFault_of_not_clean (h : ¬ Clean es) : ∃ e ∈ es, ∃ fault, IsFault e fault := by
  obtain ⟨before, e, after, fault, rfl, -, hfault⟩ := exists_first_fault h
  exact ⟨e, by simp, fault, hfault⟩

/-- What the reader cannot take is no document without a fault. -/
theorem not_clean_of_document?_eq_none (h : Toml.read? .lifted text.toList = some es)
    (hnone : Toml.document? text.toList = none) : ¬ Clean es := by
  intro hclean
  rw [Toml.document?_of_isPlain h hclean.isPlain] at hnone
  cases hnone

/-- A text that is no document within bounds is malformed. -/
theorem ofText_of_document?_eq_none (h : Toml.document? text.toList = none) :
    ofText text = .error .malformed := by
  rw [ofText, h]

/-- The settings of a document reflect its entries, and it has some if no entry is a fault. -/
theorem ofText_eq_ok_iff_of_read? {s : Settings} (h : Toml.read? .lifted text.toList = some es) :
    ofText text = .ok s ↔ Clean es ∧ zeroPoll ∉ es ∧ Reflects es s := by
  rcases Toml.document?_eq_or h with hdocument | hdocument
  · rw [ofText_of_document? hdocument, ofEntries_eq_ok_iff (Toml.sound_of_document? hdocument)]
  · rw [ofText_of_document?_eq_none hdocument]
    exact iff_of_false nofun fun hs ↦ not_clean_of_document?_eq_none h hdocument hs.1

/-- For any document of the language the poll interval is what is wrong just if nothing else is.
Within bounds this is said of the entries that are read, and beyond them some entry is a fault. -/
theorem ofText_eq_zero_iff_of_read? (h : Toml.read? .lifted text.toList = some es) :
    ofText text = .error .zeroPollInterval ↔ Clean es ∧ zeroPoll ∈ es := by
  rcases Toml.document?_eq_or h with hdocument | hdocument
  · rw [ofText_of_document? hdocument, ofEntries_eq_zero_iff (Toml.sound_of_document? hdocument)]
  · rw [ofText_of_document?_eq_none hdocument]
    exact iff_of_false nofun fun hzero ↦ not_clean_of_document?_eq_none h hdocument hzero.1

/-- The message about a poll interval of zero is used for that fault alone. -/
theorem ofToml_eq_zero_iff :
    ofToml text = .error (.configuration zeroPollMessage) ↔
      ofText text = .error .zeroPollInterval := by
  rw [ofToml]
  cases ofText text with
  | ok s => simp [Except.mapError]
  | error fault => simp [Except.mapError, Fault.toError, Fault.reason_eq_zeroPollMessage_iff]

/-- A document is rejected if an entry is a fault or the poll interval is zero, and only then. -/
theorem exists_error_iff (h : Toml.read? .lifted text.toList = some es) :
    (∃ error, ofToml text = .error error) ↔
      (∃ e ∈ es, ∃ fault, IsFault e fault) ∨ zeroPoll ∈ es := by
  rcases Toml.document?_eq_or h with hdocument | hdocument
  · have hentries := ofText_of_document? hdocument
    rcases ofEntries_cases (Toml.sound_of_document? hdocument) with
      ⟨before, e, after, fault, rfl, -, hfault, herror⟩ | ⟨-, hzero, herror⟩ |
      ⟨hclean, hzero, s, hok, -⟩
    · exact iff_of_true ⟨_, ofToml_of_fault (hentries.trans herror)⟩
        (.inl ⟨e, by simp, fault, hfault⟩)
    · exact iff_of_true ⟨_, ofToml_of_fault (hentries.trans herror)⟩ (.inr hzero)
    · refine iff_of_false ?_ ?_
      · rw [ofToml_eq_ok_iff.2 (hentries.trans hok)]
        nofun
      · rintro (⟨e, he, fault, hfault⟩ | hzero')
        · exact hclean e he fault hfault
        · exact hzero hzero'
  · exact iff_of_true ⟨_, ofToml_of_fault (ofText_of_document?_eq_none hdocument)⟩
      (.inl (exists_isFault_of_not_clean (not_clean_of_document?_eq_none h hdocument)))

/-- The entries of a document decide what becomes of it. -/
theorem judged_of_entries (h : Toml.read? .lifted text.toList = some es) : Judged text es := by
  constructor
  case rejected_iff => exact exists_error_iff h
  case first =>
    rintro hdocument before e after fault rfl hbefore hfault
    have hrange := (Toml.sound_of_document? hdocument).inRange e (by simp)
    have herror : ofText text = .error fault := by
      rw [ofText_of_document? hdocument, ofEntries_of_isFault hbefore hrange hfault]
    exact ⟨herror, ofToml_of_fault herror⟩
  case beyond =>
    exact fun hnone ↦ ⟨exists_isFault_of_not_clean (not_clean_of_document?_eq_none h hnone),
      ofText_of_document?_eq_none hnone⟩
  case zero_iff => exact ofText_eq_zero_iff_of_read? h
  case zero_message_iff => exact ofToml_eq_zero_iff.trans (ofText_eq_zero_iff_of_read? h)
  case rearranged =>
    intro hdocument es' hes' s
    rw [ofToml_eq_ok_iff, ofText_of_document? hdocument,
      ofEntries_perm hes' (Toml.sound_of_document? hdocument)]
  case rewritten =>
    intro text' es' h' hes' s
    rw [ofToml_eq_ok_iff, ofToml_eq_ok_iff, ofText_eq_ok_iff_of_read? h',
      ofText_eq_ok_iff_of_read? h, Clean.perm hes', hes'.mem_iff, Reflects.perm hes']

/-- Two faults and a poll interval of zero: the first fault decides. -/
theorem judged_of_entries_two_faults :
    Judged "poll_interval_ms = 0\nkill_wait_ms = -1\nretries = 2\n"
      [zeroPoll, ("kill_wait_ms", .value (.integer (-1))), ("retries", .value (.integer 2))] :=
  judged_of_entries (by rfl)

/-- A document of the language that begins with an entry whose key is no field, and is not rejected
for it. -/
structure Unnamed (text : String) (key : String) : Prop where
  reads : ∃ node after, Toml.read? .lifted text.toList = some ((key, node) :: after)
  unknown : ∀ f : Field, f.key ≠ key
  malformed : ofText text = .error .malformed
  unnamed : ofToml text ≠ .error ((Fault.unknownKey key).toError "config")

/-- All that it takes is that the document is one of the language, and not one for the reader. -/
theorem unnamed_of_document?_eq_none {node : Node} {after : Entries}
    (h : Toml.read? .lifted text.toList = some (("x", node) :: after))
    (hnone : Toml.document? text.toList = none) : Unnamed text "x" where
  reads := ⟨node, after, h⟩
  unknown := by
    intro f
    cases f <;> decide
  malformed := ofText_of_document?_eq_none hnone
  unnamed := by
    rw [ofToml_of_fault (ofText_of_document?_eq_none hnone)]
    decide

/-- A key that is no field is named as long as the reader can take the document. It is not if the
value nests too deep, if the key has too many segments, and if the value is an integer or a float
out of range. -/
theorem unnamed_beyond_bounds :
    ofToml (String.ofList (Toml.nested 1)) = .error ((Fault.unknownKey "x").toError "config") ∧
      Unnamed (String.ofList (Toml.nested 300)) "x" ∧
      Unnamed (String.ofList (Toml.dottedPair 300)) "x" ∧
      Unnamed "x = 9223372036854775808" "x" ∧ Unnamed "x = 1e400" "x" := by
  refine ⟨?_, ?_, ?_, unnamed_of_document?_eq_none rfl rfl, unnamed_of_document?_eq_none rfl rfl⟩
  · refine ofToml_of_fault ?_
    rw [ofText, String.toList_ofList, Toml.document?_nested 0]
    rfl
  · apply unnamed_of_document?_eq_none
    · rw [String.toList_ofList]
      exact Toml.read?_nested_lifted 299
    · rw [String.toList_ofList]
      exact Toml.document?_nested 299
  · obtain ⟨node, hread⟩ := Toml.read?_dotted_lifted 300
    refine @unnamed_of_document?_eq_none _ node [] ?_ ?_
    · rwa [String.toList_ofList]
    · rw [String.toList_ofList]
      exact Toml.document?_dotted (by decide)

end Texts

end Offload.Settings
