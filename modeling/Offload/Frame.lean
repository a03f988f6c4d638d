import Offload.Source
import Offload.Wire.Outcome

/-!
# Frames

A frame is the length of a body as a big-endian number of four bytes, and the body, which is the
wire form of an outcome. Bodies longer than `Frame.limit` are not written, and a length beyond it
is taken for corruption.

`Frame.read` reads one frame from a source, read by read; `Frame.parse` says what it makes of plain
bytes.
-/

namespace Offload

open Wire (Bytes Codec)

variable {α : Type}

namespace Frame

/-- The longest body of a frame. -/
def limit : Nat :=
  256 * 1024 * 1024

/-- The bytes of the length. -/
def prefixLength : Nat :=
  4

/-- Why an outcome is not encoded, or a body or a length not accepted. -/
inductive Fault
  /-- The value refused to be encoded. -/
  | refused (reason : String)
  /-- The body would be longer than a frame allows. -/
  | oversized (length : Nat)
  /-- The body holds no outcome. -/
  | undecodable
  /-- The length is beyond the limit. -/
  | lengthBeyondLimit (length : Nat)
  deriving Repr, DecidableEq

/-- The wording of a fault. -/
def Fault.reason : Fault → String
  | refused reason => "Failed to encode outcome: " ++ reason
  | oversized length =>
    "Outcome of " ++ toString length ++ " bytes exceeds the " ++ toString limit ++
      " byte frame limit"
  | undecodable => "Failed to decode outcome"
  | lengthBeyondLimit length =>
    "Frame length " ++ toString length ++ " exceeds the " ++ toString limit ++ " byte limit"

/-- A fault as the caller sees it. -/
def Fault.toError (fault : Fault) : TaskError :=
  .codec fault.reason

/-- The frame of an outcome. -/
def encode (c : Codec α) (outcome : Outcome α) : Except Fault Bytes :=
  let c := Wire.Outcome.codec c
  match c.refusal? outcome with
  | some reason => .error (.refused reason)
  | none =>
    let length := c.size outcome
    if limit < length then .error (.oversized length)
    else .ok (Wire.bigEndian prefixLength length ++ c.write outcome)

/-- The outcome at the front of a body. What follows it does not matter. -/
def readBody (c : Codec α) (body : Bytes) : Except Fault (Outcome α) :=
  match ((Wire.Outcome.codec c).read Wire.levelLimit).item body with
  | some (outcome, _) => .ok outcome
  | none => .error .undecodable

/-- A body as the answer to a read. -/
def ofBody (c : Codec α) (body : Bytes) : Except TaskError (Option (Outcome α)) :=
  match readBody c body with
  | .ok outcome => .ok (some outcome)
  | .error fault => .error fault.toError

/-- Reads one frame. A stream that ends before the frame gives none; one that ends inside it is an
error, and so is a failing read. A length beyond the limit is an error after its four bytes. -/
def read (c : Codec α) (source : Source) : Except TaskError (Option (Outcome α)) × Source :=
  match source.fill prefixLength with
  | (.ended [], rest) => (.ok none, rest)
  | (.ended _, rest) => (.error (.io .unexpectedEof), rest)
  | (.failed kind, rest) => (.error (.io kind), rest)
  | (.all bytes, rest) =>
    let length := Wire.ofBigEndian bytes
    if limit < length then (.error (Fault.lengthBeyondLimit length).toError, rest)
    else match rest.fill length with
      | (.ended _, rest) => (.error (.io .unexpectedEof), rest)
      | (.failed kind, rest) => (.error (.io kind), rest)
      | (.all body, rest) => (ofBody c body, rest)

/-- What one read makes of plain bytes, and the bytes it leaves. -/
def parse (c : Codec α) (bs : Bytes) : Except TaskError (Option (Outcome α)) × Bytes :=
  if bs.isEmpty then (.ok none, [])
  else match Wire.take? prefixLength bs with
    | none => (.error (.io .unexpectedEof), [])
    | some (bytes, rest) =>
      let length := Wire.ofBigEndian bytes
      if limit < length then (.error (Fault.lengthBeyondLimit length).toError, rest)
      else match Wire.take? length rest with
        | none => (.error (.io .unexpectedEof), [])
        | some (body, rest) => (ofBody c body, rest)

/-- The answers of successive reads. -/
def readTimes (c : Codec α) : (times : Nat) → Source →
    List (Except TaskError (Option (Outcome α))) × Source
  | 0, source => ([], source)
  | times + 1, source =>
    let (answer, source) := read c source
    let (answers, source) := readTimes c times source
    (answer :: answers, source)

/-- The frame of an outcome or, if it cannot be encoded, of the failure that says why. -/
def encodeOrStandIn (c : Codec α) (outcome : Outcome α) : Except Fault Bytes :=
  match encode c outcome with
  | .ok frame => .ok frame
  | .error fault => encode c (.failure (.standIn fault.reason))

end Frame

end Offload
