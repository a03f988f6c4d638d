/-!
# Scanning a TOML document

A scanner looks at the front of a text and answers what it found and the rest, or nothing. This
module holds what all scanners share: blanks, comments, the ends of lines, and runs of digits.
-/

namespace Offload.Toml

/-- Finds an `α` at the front of a text. -/
abbrev Scan (α : Type) := List Char → Option (α × List Char)

/-- A blank within a line. -/
def isBlank (c : Char) : Bool :=
  c == ' ' || c == '\t'

/-- A character beyond ASCII. -/
def isForeign (c : Char) : Bool :=
  0x80 ≤ c.val

/-- A character of a comment: any but the control characters, tabs excepted. -/
def isCommentChar (c : Char) : Bool :=
  c == '\t' || (0x20 ≤ c.val && c.val ≤ 0x7E) || isForeign c

/-- The text behind its blanks. -/
def skipBlanks (cs : List Char) : List Char :=
  cs.dropWhile isBlank

/-- The text behind one line break, which is a line feed with or without a carriage return. -/
def lineBreak? : List Char → Option (List Char)
  | '\n' :: cs => some cs
  | '\r' :: '\n' :: cs => some cs
  | _ => none

/-- The text behind a comment, if there is one. -/
def skipComment : List Char → List Char
  | '#' :: cs => cs.dropWhile isCommentChar
  | cs => cs

/-- The text behind the rest of a line, which may hold blanks and a comment. -/
def lineEnd? (cs : List Char) : Option (List Char) :=
  match skipComment (skipBlanks cs) with
  | [] => some []
  | cs => lineBreak? cs

/-- The text behind blanks, line breaks and comments. It stops in a comment at a character that no
comment has. -/
def skipLayout : (inComment : Bool) → List Char → List Char
  | _, '\n' :: cs => skipLayout false cs
  | _, '\r' :: '\n' :: cs => skipLayout false cs
  | false, '#' :: cs => skipLayout true cs
  | false, c :: cs => if isBlank c then skipLayout false cs else c :: cs
  | true, c :: cs => if isCommentChar c then skipLayout true cs else c :: cs
  | _, [] => []

/-- The value of a hexadecimal digit. -/
def hexDigit? (c : Char) : Option Nat :=
  if c.isDigit then some (c.toNat - '0'.toNat)
  else if 'a' ≤ c ∧ c ≤ 'f' then some (c.toNat - 'a'.toNat + 10)
  else if 'A' ≤ c ∧ c ≤ 'F' then some (c.toNat - 'A'.toNat + 10)
  else none

/-- The value of a digit of the base. -/
def digit? (base : Nat) (c : Char) : Option Nat :=
  (hexDigit? c).filter (· < base)

/-- The digits that go on a run. A single underscore may stand between two of them. -/
def moreDigits (base : Nat) : List Char → List Nat × List Char
  | '_' :: c :: cs =>
    match digit? base c with
    | some d =>
      let (ds, rest) := moreDigits base cs
      (d :: ds, rest)
    | none => ([], '_' :: c :: cs)
  | c :: cs =>
    match digit? base c with
    | some d =>
      let (ds, rest) := moreDigits base cs
      (d :: ds, rest)
    | none => ([], c :: cs)
  | [] => ([], [])

/-- A run of digits. -/
def digits? (base : Nat) : Scan (List Nat)
  | c :: cs => (digit? base c).map fun d =>
    let (ds, rest) := moreDigits base cs
    (d :: ds, rest)
  | [] => none

/-- The number that digits stand for. -/
def ofDigits (base : Nat) (ds : List Nat) : Nat :=
  ds.foldl (fun n d => n * base + d) 0

end Offload.Toml
