import Offload.Proofs.Wire.Dynamic
import Offload.Proofs.Wire.Outcome
import Offload.Proofs.Wire.Record
import Offload.Wire.Type

/-!
# Every value type is restored

`ValueType.nesting` counts the arrays and maps inside each other in what is written of a value,
without the map around the payload of a variant. A value is restored if this many levels are open
and its bytes fit 32 bits; a dynamic value must be one that travels too.
-/

namespace Offload.Wire

namespace ValueType

/-- The arrays and maps inside each other in the wire form of a value. -/
def nesting : (t : ValueType) → t.Value → Nat
  | int _, _ | bool, _ | unit, _ | char, _ | double, _ | text, _ => 0
  | optionInt, _ | optionText, _ => 0
  | octets, _ | pair, _ | numbers, _ | texts, _ | table, _ => 1
  | record, r => Record.nesting r
  | shape, s => Shape.nesting s
  | nest, n => Nest.height n
  | dynamic, d => Dynamic.nesting d

/-- Whether a value can make the journey. Dynamic values are the only ones that may not. -/
def Travels : (t : ValueType) → t.Value → Prop
  | dynamic, d => Dynamic.Travels d
  | _, _ => True

/-- A value that travels does not refuse to be written. -/
theorem refusal?_eq_none {t : ValueType} {v : t.Value} (h : t.Travels v) :
    t.codec.refusal? v = none := by
  cases t with
  | dynamic => exact Dynamic.refusal?_eq_none h
  | optionInt | optionText => cases v <;> rfl
  | octets | numbers | texts | table => exact List.findSome?_eq_none_iff.2 fun _ _ ↦ rfl
  | _ => rfl

/-- A value that travels is restored, if its levels are open and its bytes fit. -/
theorem restores {t : ValueType} {v : t.Value} (h : t.Travels v) {levels : Nat}
    (hl : t.nesting v ≤ levels) (hsize : (t.codec.write v).length < 2 ^ 32) :
    t.codec.Restores levels v := by
  cases t with
  | int kind => exact Codec.restores_int kind v levels
  | bool => exact Codec.restores_bool v levels
  | unit => exact Codec.restores_unit v levels
  | char => exact Codec.restores_char v levels
  | double => exact Codec.restores_double v levels
  | text => exact Codec.restores_text hsize levels
  | record => exact Record.restores v hl hsize
  | shape => exact Shape.restores v hl hsize
  | nest => exact Nest.restores v hl hsize
  | dynamic => exact Dynamic.restores h hl hsize
  | optionInt =>
    cases v with
    | none => exact Codec.restores_option_none levels
    | some n =>
      exact Codec.restores_option_some (Codec.spells_int .i64 n) (Codec.ofInteger_ne_nil _)
        (Codec.restores_int .i64 n levels)
  | optionText =>
    cases v with
    | none => exact Codec.restores_option_none levels
    | some s =>
      exact Codec.restores_option_some (Codec.spells_text hsize) (by simp)
        (Codec.restores_text hsize levels)
  | octets =>
    obtain ⟨levels, rfl⟩ : ∃ inner, levels = inner + 1 := Nat.exists_eq_add_of_le' hl
    exact Codec.restores_list (fun b _ ↦ Codec.restores_octet b levels) hsize
  | numbers =>
    obtain ⟨levels, rfl⟩ : ∃ inner, levels = inner + 1 := Nat.exists_eq_add_of_le' hl
    exact Codec.restores_list (fun n _ ↦ Codec.restores_int .u64 n levels) hsize
  | texts =>
    obtain ⟨levels, rfl⟩ : ∃ inner, levels = inner + 1 := Nat.exists_eq_add_of_le' hl
    exact Codec.restores_texts levels hsize
  | pair =>
    obtain ⟨levels, rfl⟩ : ∃ inner, levels = inner + 1 := Nat.exists_eq_add_of_le' hl
    obtain ⟨n, s⟩ := v
    have hs : (Codec.text.write s).length < 2 ^ 32 := by
      have hwrite : (pair.codec.write (n, s)).length = (Token.writeArray 2).length +
          (((Codec.int .i64).write n).length + (Codec.text.write s).length) := by
        rw [← List.length_append, ← List.length_append]
        rfl
      omega
    exact Codec.restores_pair (Codec.restores_int .i64 n levels) (Codec.restores_text hs levels)
  | table =>
    obtain ⟨levels, rfl⟩ : ∃ inner, levels = inner + 1 := Nat.exists_eq_add_of_le' hl
    exact Codec.restores_table (fun e _ ↦ Codec.restores_int .i64 e.2 levels) hsize

end ValueType

end Offload.Wire
