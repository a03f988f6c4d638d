import Offload.Settings
import Offload.TaskError
import Offload.Toml.Document
import Offload.Wire.Bytes

/-!
# Settings from a document

A TOML document may set each of five fields; the others keep their defaults. The entries are looked
at in the order of the document and the first one that is no field, or has no value of the field's
type, is the fault of the document. Only a document without such a fault is rejected for a poll
interval of zero.
-/

namespace Offload

open Toml (Entries Node)

namespace Settings

/-- The fields of a document. -/
inductive Field
  | maxConcurrent
  | terminateOnReturn
  | pollInterval
  | gracePeriod
  | killWait
  deriving Repr, DecidableEq

namespace Field

/-- The fields in order. -/
def all : List Field :=
  [maxConcurrent, terminateOnReturn, pollInterval, gracePeriod, killWait]

/-- The key of a field. -/
def key : Field → String
  | maxConcurrent => "max_concurrent"
  | terminateOnReturn => "terminate_on_return"
  | pollInterval => "poll_interval_ms"
  | gracePeriod => "grace_period_ms"
  | killWait => "kill_wait_ms"

/-- The field of a key. -/
def ofKey? (key : String) : Option Field :=
  all.find? fun f => f.key == key

end Field

/-- Why a document is rejected. -/
inductive Fault
  /-- It is no TOML document, or defines a key twice. -/
  | malformed
  | unknownKey (key : String)
  /-- The value of the field is not of its type, or out of its range. -/
  | badValue (field : Field)
  | zeroPollInterval
  deriving Repr, DecidableEq

/-- A text between backticks. -/
def quote (s : String) : String :=
  "`" ++ s ++ "`"

/-- The wording of a fault of the document with the given name. -/
def Fault.reason (document : String) : Fault → String
  | .malformed | .badValue _ => "Failed to parse " ++ document
  | .unknownKey key =>
    "Failed to parse " ++ document ++ ": unknown field " ++ quote key ++ ", expected one of " ++
      ", ".intercalate (Field.all.map fun f => quote f.key)
  | .zeroPollInterval => "poll_interval_ms must be greater than zero"

/-- The fields that a document sets. -/
structure Draft where
  maxConcurrent : Option Nat := none
  terminateOnReturn : Option Bool := none
  pollInterval : Option UInt64 := none
  gracePeriod : Option UInt64 := none
  killWait : Option UInt64 := none
  deriving DecidableEq

/-- A value that counts something. -/
def count? : Node → Option Nat
  | .value (.integer n) => if 0 ≤ n then some n.toNat else none
  | _ => none

/-- A value that is a number of milliseconds. -/
def millisOf? (node : Node) : Option UInt64 :=
  (count? node).map UInt64.ofNat

/-- A truth value. -/
def truth? : Node → Option Bool
  | .value (.boolean b) => some b
  | _ => none

/-- Set a field, if the value is of its type. -/
def Draft.set? (d : Draft) (node : Node) : Field → Option Draft
  | .maxConcurrent => (count? node).map fun n => { d with maxConcurrent := some n }
  | .terminateOnReturn => (truth? node).map fun b => { d with terminateOnReturn := some b }
  | .pollInterval => (millisOf? node).map fun ms => { d with pollInterval := some ms }
  | .gracePeriod => (millisOf? node).map fun ms => { d with gracePeriod := some ms }
  | .killWait => (millisOf? node).map fun ms => { d with killWait := some ms }

/-- One entry of a document. -/
def Draft.entry (d : Draft) (key : String) (node : Node) : Except Fault Draft :=
  match Field.ofKey? key with
  | none => .error (.unknownKey key)
  | some field =>
    match d.set? node field with
    | none => .error (.badValue field)
    | some d => .ok d

/-- The entries of a document, until the first fault. -/
def Draft.ofEntries (d : Draft) : Entries → Except Fault Draft
  | [] => .ok d
  | (key, node) :: rest =>
    match d.entry key node with
    | .ok d => d.ofEntries rest
    | .error fault => .error fault

/-- The settings with the fields of a draft in place of the defaults. -/
def Draft.settings (d : Draft) : Except Fault Settings :=
  if d.pollInterval = some 0 then .error .zeroPollInterval
  else .ok {
    limit := (d.maxConcurrent.map Limit.atMost).getD default.limit
    terminateOnReturn := d.terminateOnReturn.getD default.terminateOnReturn
    pollInterval := (d.pollInterval.map Duration.ofMillis).getD default.pollInterval
    termination := {
      gracePeriod := (d.gracePeriod.map Duration.ofMillis).getD default.termination.gracePeriod
      killWait := (d.killWait.map Duration.ofMillis).getD default.termination.killWait } }

/-- The settings of a document's entries. -/
def ofEntries (es : Entries) : Except Fault Settings :=
  match Draft.ofEntries {} es with
  | .ok draft => draft.settings
  | .error fault => .error fault

/-- The settings of a document. -/
def ofText (text : String) : Except Fault Settings :=
  match Toml.document? text.toList with
  | none => .error .malformed
  | some es => ofEntries es

/-- A fault of the named document as the caller sees it. -/
def Fault.toError (document : String) (fault : Fault) : TaskError :=
  .configuration (fault.reason document)

/-- The settings of a TOML text. -/
def ofToml (text : String) : Except TaskError Settings :=
  (ofText text).mapError (Fault.toError "config")

/-- The settings of a file, given its bytes, or why it cannot be read if that is known. -/
def load (path : String) (content : Except (Option String) Wire.Bytes) :
    Except TaskError Settings :=
  match content with
  | .error reason =>
    let detail := (reason.map fun r => ": " ++ r).getD ""
    .error (.configuration ("Failed to read " ++ path ++ detail))
  | .ok bytes =>
    match Wire.ofUtf8? bytes with
    | none => .error (.configuration ("Failed to read " ++ path))
    | some text => (ofText text).mapError (Fault.toError path)

end Settings

end Offload
