/-!
# Segments of a path

Names of functions and of types are paths whose segments are joined by two colons. The last
segment is what follows the rightmost pair of colons, or the whole name.
-/

namespace Offload.Text

/-- What follows the rightmost pair of colons, if there is a pair. -/
def afterLastPair : List Char → Option (List Char)
  | ':' :: ':' :: cs => (afterLastPair (':' :: cs)).orElse fun _ => some cs
  | _ :: cs => afterLastPair cs
  | [] => none

/-- The last segment of a path. -/
def lastSegment (cs : List Char) : List Char :=
  (afterLastPair cs).getD cs

end Offload.Text
