import Offload.Limiter

/-!
# Families of limiters

Clones of a limiter count in one table. A family holds the tables and the references to them; a new
limiter adds a table, a clone adds a reference only.
-/

namespace Offload

/-- Tables, and the references that stand for them. -/
structure Limiters where
  tables : List Limiter := []
  references : List Nat := []
  deriving Repr, DecidableEq

namespace Limiters

/-- One limiter with nothing counted. -/
def single : Limiters := ⟨[.empty], [0]⟩

/-- The position of the table that a reference stands for. -/
def position? (ls : Limiters) (reference : Nat) : Option Nat :=
  ls.references[reference]?

/-- The table that a reference stands for. -/
def get? (ls : Limiters) (reference : Nat) : Option Limiter :=
  (ls.position? reference).bind fun p => ls.tables[p]?

/-- Replace the table that a reference stands for. -/
def set (ls : Limiters) (reference : Nat) (table : Limiter) : Limiters :=
  match ls.position? reference with
  | some p => { ls with tables := ls.tables.set p table }
  | none => ls

/-- Add a limiter. Its reference is the number of those before. -/
def new (ls : Limiters) : Nat × Limiters :=
  (ls.references.length, ⟨ls.tables ++ [.empty], ls.references ++ [ls.tables.length]⟩)

/-- Add a reference to the table of another one. -/
def clone (ls : Limiters) (reference : Nat) : Nat × Limiters :=
  (ls.references.length, { ls with
    references := ls.references ++ [(ls.position? reference).getD ls.tables.length] })

/-- Admit a call in the table of a reference. -/
def enter (ls : Limiters) (reference : Nat) (i : Identity) (limit : Limit) :
    Bool × Limiters :=
  match ls.get? reference with
  | some table =>
    let (admitted, table) := table.enter i limit
    (admitted, ls.set reference table)
  | none => (false, ls)

/-- Give a call back to the table of a reference. -/
def release (ls : Limiters) (reference : Nat) (i : Identity) : Limiters :=
  match ls.get? reference with
  | some table => ls.set reference (table.release i)
  | none => ls

/-- Try a number of admissions in the table of a reference. -/
def admitTimes (ls : Limiters) (reference : Nat) (i : Identity) (limit : Limit) (tries : Nat) :
    Nat × Limiters :=
  match ls.get? reference with
  | some table =>
    let (admitted, table) := table.admitTimes i limit tries
    (admitted, ls.set reference table)
  | none => (0, ls)

/-- The calls in flight in the table of a reference. -/
def inFlight (ls : Limiters) (reference : Nat) (i : Identity) : Nat :=
  ((ls.get? reference).map fun table => table.inFlight i).getD 0

/-- The identities with an entry in the table of a reference. -/
def tracked (ls : Limiters) (reference : Nat) : Nat :=
  ((ls.get? reference).map Limiter.tracked).getD 0

end Limiters

end Offload
