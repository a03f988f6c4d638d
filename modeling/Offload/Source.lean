import Offload.TaskError
import Offload.Wire.Bytes

/-!
# Byte sources

A source is what a stream will answer to the reads made on it. A chunk is handed out over as many
reads as the reader's buffers need; an empty chunk is one read that finds the end of the stream;
a failing read answers its error. Behind the last answer every read finds the end.

A reader wants a number of bytes and reads until it has them (`Source.fill`). It goes on after an
interrupted read and stops at the end of the stream and at any other error.
-/

namespace Offload

open Wire (Bytes)

/-- An answer to reads. -/
inductive ReadAnswer
  | chunk (bytes : Bytes)
  | fails (kind : IoKind)
  deriving Repr, DecidableEq

/-- The answers that a stream will give. -/
abbrev Source := List ReadAnswer

/-- How reading a number of bytes ends. -/
inductive Filled
  /-- All the bytes. -/
  | all (bytes : Bytes)
  /-- The stream ended after these bytes. -/
  | ended (bytes : Bytes)
  | failed (kind : IoKind)
  deriving Repr, DecidableEq

namespace Source

/-- The source that hands out the given bytes and then ends. -/
def ofBytes (bs : Bytes) : Source :=
  if bs.isEmpty then [] else [.chunk bs]

/-- One read into a buffer with room for so many bytes: the bytes that it answers, none of them at
the end of the stream, or its error. -/
def readOnce (room : Nat) : Source → Except IoKind Bytes × Source
  | [] => (.ok [], [])
  | .chunk bytes :: rest =>
    if room < bytes.length then (.ok (bytes.take room), .chunk (bytes.drop room) :: rest)
    else (.ok bytes, rest)
  | .fails kind :: rest => (.error kind, rest)

/-- Reads the bytes still wanted; `got` are those read before. -/
def fillOnto (got : Bytes) (wanted : Nat) (source : Source) : Filled × Source :=
  if wanted = 0 then (.all got, source)
  else match source with
    | [] => (.ended got, [])
    | .chunk bytes :: rest =>
      if bytes.isEmpty then (.ended got, rest)
      else if wanted < bytes.length then
        (.all (got ++ bytes.take wanted), .chunk (bytes.drop wanted) :: rest)
      else fillOnto (got ++ bytes) (wanted - bytes.length) rest
    | .fails .interrupted :: rest => fillOnto got wanted rest
    | .fails kind :: rest => (.failed kind, rest)

/-- Reads `wanted` bytes. -/
def fill (wanted : Nat) (source : Source) : Filled × Source :=
  fillOnto [] wanted source

end Source

end Offload
