import Offload.Power
import Offload.TaskError

/-!
# Ids of processes

The system's process ids are the positive numbers of 31 bits. A caller names a process by a number
of 32 bits, which may be none of them.
-/

namespace Offload.Child

/-- The first number that is no process id. -/
def pidLimit : Nat :=
  2 ^ 31

/-- Whether a number can be the id of a process. -/
def isPid (n : Nat) : Bool :=
  n < pidLimit

/-- What the system is told when a process is to be killed: nothing for a number that is no process
id, which is an error. A process that is already gone is none. -/
def forceKillTarget (n : Nat) : Except (IoKind × String) Nat :=
  if isPid n then .ok n
  else .error (.invalidInput, "pid " ++ toString n ++ " out of range")

end Offload.Child
