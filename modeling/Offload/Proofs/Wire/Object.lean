import Offload.Proofs.Wire.Decoder
import Offload.Proofs.Wire.Form

/-!
# Objects

An object is a token in one of its forms and, behind it, as many objects as the token announces. So
the end of an object is known from the object alone: no object begins another one
(`Object.eq_of_append_eq`), and a reader that skips a value skips an object (`Object.reads_any`).

A reader *takes* `n` objects (`Takes`) if all that it reads is read from `n` objects at the front of
the bytes, whatever stands behind them. This is kept by everything that readers are made of, so the
law of a reader is put together as the reader is. A decoder is *exact* if it takes what its token
announces; then it takes one object from the token on (`Exact.item`).
-/

namespace Offload.Wire

namespace Token

/-- The number of objects that a token announces. -/
def children : Token → Nat
  | .array n => n
  | .map n => 2 * n
  | _ => 0

/-- The number of levels that a token closes. -/
def depth : Token → Nat
  | .array _ | .map _ | .extension .. => 1
  | _ => 0

end Token

/-- Bytes that are one object, with at most so many levels inside each other. -/
inductive Object : Nat → Bytes → Prop
  | mk {levels inner : Nat} {token : Token} {header : Bytes} {objects : List Bytes} :
    token.Form header → inner + token.depth ≤ levels → objects.length = token.children →
    (∀ object ∈ objects, Object inner object) → Object levels (header ++ objects.flatten)

/-- Bytes that are one object, however many levels it has. -/
def IsObject (bs : Bytes) : Prop :=
  ∃ levels, Object levels bs

namespace Decoder

variable {α β γ : Type} {d : Decoder α} {bs rest : Bytes} {token : Token}

/-! ### Skipping -/

/-- To skip a value is to skip its token and then what the token announces, if there are levels for
it. -/
theorem any_eq_of_depth_le {levels : Nat} (h : token.depth ≤ levels) (bs : Bytes) :
    any levels token bs =
      (dropItems (any (levels - token.depth)) token.children bs).map fun rest ↦ ((), rest) := by
  cases token with
  | array n | map n | extension kind payload =>
    obtain ⟨inner, rfl⟩ := Nat.exists_eq_add_of_le' h
    rfl
  | _ => cases levels <;> rfl

/-- Objects are dropped one by one. -/
theorem dropItems_flatten {d : Decoder Unit} {objects : List Bytes}
    (h : ∀ object ∈ objects, d.Reads object ()) (rest : Bytes) :
    dropItems d objects.length (objects.flatten ++ rest) = some rest := by
  induction objects with
  | nil => rfl
  | cons object objects ih =>
    rw [List.flatten_cons, List.append_assoc, List.length_cons, dropItems,
      h object List.mem_cons_self]
    exact ih fun o ho ↦ h o (List.mem_cons_of_mem _ ho)

end Decoder

namespace Object

open Decoder (any)

variable {levels : Nat} {bs : Bytes}

theorem mono {levels' : Nat} (h : Object levels bs) (hl : levels ≤ levels') :
    Object levels' bs := by
  cases h with
  | mk hform hdepth hlength hobjects => exact mk hform (Nat.le_trans hdepth hl) hlength hobjects

/-- An object is skipped where as many levels are open as it has. -/
theorem reads_any (h : Object levels bs) {free : Nat} (hl : levels ≤ free) :
    (any free).Reads bs () := by
  induction h generalizing free with
  | @mk levels inner token header objects hform hdepth hlength _ ih =>
    have hobjects : ∀ object ∈ objects, (any (free - token.depth)).Reads object () :=
      fun object ho ↦ ih object ho (by omega)
    refine Decoder.reads_of_spells hform.spells fun rest ↦ ?_
    rw [Decoder.any_eq_of_depth_le (by omega), ← hlength, Decoder.dropItems_flatten hobjects]
    rfl

end Object

/-- No object is the beginning of another one. -/
theorem IsObject.eq_of_append_eq {v w r s : Bytes} (hv : IsObject v) (hw : IsObject w)
    (h : v ++ r = w ++ s) : v = w := by
  obtain ⟨m, hv⟩ := hv
  obtain ⟨n, hw⟩ := hw
  have hskip := hv.reads_any (Nat.le_max_left m n) r
  rw [h, hw.reads_any (Nat.le_max_right m n) s] at hskip
  obtain rfl : s = r := by simpa using hskip
  exact List.append_cancel_right h

/-- A form of a token and objects behind it, as many as it announces, are an object. -/
theorem Token.Form.isObject {token : Token} {header : Bytes} {objects : List Bytes}
    (h : token.Form header) (hlength : objects.length = token.children)
    (hobjects : ∀ object ∈ objects, IsObject object) : IsObject (header ++ objects.flatten) := by
  -- the levels of the deepest of the objects do for all of them
  obtain ⟨inner, hinner⟩ : ∃ inner, ∀ object ∈ objects, Object inner object := by
    clear hlength
    induction objects with
    | nil => exact ⟨0, nofun⟩
    | cons object objects ih =>
      obtain ⟨m, hm⟩ := hobjects object List.mem_cons_self
      obtain ⟨n, hn⟩ := ih fun o ho ↦ hobjects o (List.mem_cons_of_mem _ ho)
      refine ⟨max m n, fun o ho ↦ ?_⟩
      rcases List.mem_cons.1 ho with rfl | ho
      · exact hm.mono (Nat.le_max_left ..)
      · exact (hn o ho).mono (Nat.le_max_right ..)
  exact ⟨_, .mk h (Nat.le_refl _) hlength hinner⟩

/-- A token that announces nothing is an object of its own. -/
theorem Token.Form.isObject_of_children {token : Token} {header : Bytes} (h : token.Form header)
    (hc : token.children = 0) : IsObject header := by
  have hobject : IsObject (header ++ [].flatten) := h.isObject hc.symm nofun
  rwa [List.flatten_nil, List.append_nil] at hobject

/-! ### Taking objects -/

/-- Whether all that a reader reads is read from `n` objects at the front of the bytes, whatever
stands behind them. -/
def Takes {α : Type} (n : Nat) (read : Bytes → Option (α × Bytes)) : Prop :=
  ∀ ⦃bs : Bytes⦄ ⦃a : α⦄ ⦃rest : Bytes⦄, read bs = some (a, rest) →
    ∃ objects : List Bytes, objects.length = n ∧ (∀ object ∈ objects, IsObject object) ∧
      bs = objects.flatten ++ rest ∧ ∀ more, read (objects.flatten ++ more) = some (a, more)

namespace Takes

variable {α β γ : Type} {m n : Nat} {read : Bytes → Option (α × Bytes)}

theorem pure (a : α) : Takes 0 fun bs ↦ some (a, bs) := by
  intro bs b rest h
  cases h
  exact ⟨[], rfl, nofun, rfl, fun _ ↦ rfl⟩

theorem none : Takes n fun _ ↦ (Option.none : Option (α × Bytes)) :=
  nofun

theorem ofMap {f : γ → α} (o : Option γ) : Takes 0 fun bs ↦ o.map fun c ↦ (f c, bs) := by
  cases o with
  | none => exact none
  | some c => exact pure (f c)

/-- Two readers in turn take what both take. -/
theorem bind {next : α → Bytes → Option (β × Bytes)} (h : Takes m read)
    (hnext : ∀ a, Takes n (next a)) :
    Takes (m + n) fun bs ↦ (read bs).bind fun (a, rest) ↦ next a rest := by
  intro bs b rest hread
  obtain ⟨⟨a, rest'⟩, ha, hb⟩ := Option.bind_eq_some_iff.1 hread
  obtain ⟨objects, rfl, hobjects, rfl, hall⟩ := h ha
  obtain ⟨objects', rfl, hobjects', rfl, hall'⟩ := hnext a hb
  refine ⟨objects ++ objects', List.length_append, fun o ho ↦ ?_, ?_, fun more ↦ ?_⟩
  · exact (List.mem_append.1 ho).elim (hobjects o) (hobjects' o)
  · rw [List.flatten_append, List.append_assoc]
  · simp only [List.flatten_append, List.append_assoc, hall, Option.bind_some, hall']

theorem map (h : Takes n read) (f : α → β) :
    Takes n fun bs ↦ (read bs).map fun (a, rest) ↦ (f a, rest) := by
  intro bs b rest hread
  obtain ⟨⟨a, rest'⟩, ha, heq⟩ := Option.map_eq_some_iff.1 hread
  cases heq
  obtain ⟨objects, hlength, hobjects, rfl, hall⟩ := h ha
  exact ⟨objects, hlength, hobjects, rfl, fun more ↦ by simp only [hall, Option.map_some]⟩

/-- A reader that depends on what may not be there. -/
theorem ofOption {next : γ → Bytes → Option (α × Bytes)} (o : Option γ)
    (hnext : ∀ c, o = some c → Takes n (next c)) : Takes n fun bs ↦ o.bind fun c ↦ next c bs := by
  cases o with
  | none => exact none
  | some c => exact hnext c rfl

/-- The reader of one object more. -/
theorem cons (h : Takes 1 read) {next : α → Bytes → Option (β × Bytes)}
    (hnext : ∀ a, Takes n (next a)) :
    Takes (n + 1) fun bs ↦ (read bs).bind fun (a, rest) ↦ next a rest :=
  Nat.add_comm n 1 ▸ h.bind hnext

/-- What is read behind the objects that are taken, if the bytes begin with these objects. -/
theorem eq_of_object (h : Takes 1 read) {object bs rest : Bytes} {a : α} (ho : IsObject object)
    (hread : read (object ++ bs) = some (a, rest)) : rest = bs := by
  obtain ⟨objects, hlength, hobjects, heq, -⟩ := h hread
  obtain ⟨o, rfl⟩ := List.length_eq_one_iff.1 hlength
  rw [List.flatten_singleton] at heq
  obtain rfl := ho.eq_of_append_eq (hobjects o List.mem_cons_self) heq
  exact (List.append_cancel_left heq).symm

end Takes

end Offload.Wire
