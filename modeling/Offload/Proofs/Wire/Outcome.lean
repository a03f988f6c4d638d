import Offload.Proofs.Wire.Codec
import Offload.Wire.Outcome

/-!
# Outcomes are restored

A failure takes two levels, one for its fields and one for its sources. An outcome takes those of
what it holds: the map around it takes none.

The levels of a failure do not depend on its contents, as all its parts are flat. So a failure can
always be carried if its bytes fit, and what stands in for an outcome that cannot be encoded comes
through.
-/

namespace Offload.Wire

namespace FailureKind

/-- The kind of a failure is restored at any number of levels. -/
theorem restores (kind : FailureKind) (levels : Nat) : codec.Restores levels kind := by
  cases kind with
  | error =>
    show (Decoder.variant names ofPosition? _).Reads (Codec.writeName "Error") .error
    exact Codec.reads_writeName (i := 0) (by decide) (by decide) rfl
  | panic =>
    show (Decoder.variant names ofPosition? _).Reads (Codec.writeName "Panic") .panic
    exact Codec.reads_writeName (i := 1) (by decide) (by decide) rfl

end FailureKind

namespace Failure

/-- A failure is restored if two levels are open. -/
theorem restores (f : Failure) {levels : Nat} (hl : 2 ≤ levels)
    (hsize : (write f).length < 2 ^ 32) : codec.Restores levels f := by
  obtain ⟨levels, rfl⟩ := Nat.exists_eq_add_of_le' hl
  simp only [write, List.length_append] at hsize
  have hkind := FailureKind.restores f.kind (levels + 1)
  have htype : (Codec.text.read (levels + 1)).Reads _ f.typeName :=
    Codec.restores_text (by omega) _
  have hmessage : (Codec.text.read (levels + 1)).Reads _ f.message :=
    Codec.restores_text (by omega) _
  have hsources : sources.Restores (levels + 1) f.sources := Codec.restores_texts levels (by
    rw [← sources]
    omega)
  show (read (levels + 2)).Reads (write f) f
  rw [write]
  refine Decoder.reads_of_spells (Token.spells_writeArray (by decide)) fun rest ↦ ?_
  show (guard (4 = 3 ∨ 4 = 4) >>= fun _ ↦ _) = _
  rw [Decoder.guard_eq_some (by decide)]
  simp only [List.append_assoc, Option.bind_eq_bind, Option.bind_some]
  rw [hkind]
  simp only [Option.bind_some]
  rw [htype]
  simp only [Option.bind_some]
  rw [hmessage]
  simp only [Option.bind_some]
  rw [if_neg (by decide), hsources]
  rfl

end Failure

namespace Outcome

variable {α : Type} {c : Codec α} {levels : Nat}

/-- A success is restored at the levels of its value. -/
theorem restores_success {value : α} (h : c.Restores levels value) :
    (codec c).Restores levels (.success value) := by
  have hpayload : (readPayload c levels 0).Reads _ (.success value) :=
    Decoder.Reads.map (f := some ∘ Outcome.success) h rfl
  exact Codec.reads_writeVariant (by decide) (by decide) hpayload

/-- A success is read from its value, behind the name of the variant. -/
theorem item_success (value : α) :
    ((codec c).read levels).item ((codec c).write (.success value)) =
      ((c.read levels).item (c.write value)).map fun r ↦ (.success r.1, r.2) := by
  have hitem : ((codec c).read levels).item ((codec c).write (.success value)) =
      (readPayload c levels 0).item (c.write value) :=
    Codec.item_writeVariant (i := 0) (by decide) (by decide) (c.write value)
  rw [hitem, readPayload, Decoder.item_filterMap]
  cases (c.read levels).item (c.write value) <;> rfl

theorem restores_failure {f : Failure} (h : Failure.codec.Restores levels f) :
    (codec c).Restores levels (.failure f) := by
  have hpayload : (readPayload c levels 1).Reads _ (.failure f) :=
    Decoder.Reads.map (f := some ∘ Outcome.failure) h rfl
  exact Codec.reads_writeVariant (by decide) (by decide) hpayload

end Outcome

end Offload.Wire
