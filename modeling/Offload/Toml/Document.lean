import Offload.Toml.Expression

/-!
# TOML documents

A document is read line by line. A key with a value goes into the table of the last header, or into
the document itself in front of the first header. The table of a header takes its place in the
document when the next header comes, or at the end. A header in double brackets adds a table to a
list.

A header may name a table that other headers only implied. Its entries are kept, and it moves to the
place of the new header.

What the language takes for a document is what is read without bounds. A reader keeps its bounds
(`document?`), and gives up at the first place where the text goes beyond them, whatever stands in
front of it and behind it.
-/

namespace Offload.Toml

/-- What is known between two lines. -/
structure Reading where
  /-- The document without the table that is being read. -/
  root : Entries := []
  /-- The table that is being read. -/
  current : Entries := []
  /-- The header of that table: the path to it, its key, and whether it goes into a list. Without a
  header it is the document itself. -/
  header : Option (List String × String × Bool) := none

namespace Reading

/-- Put the table that is being read into its place. -/
def close (r : Reading) : Option Entries :=
  match r.header with
  | none => some r.current
  | some (path, key, false) =>
    r.root.update .implied (fun _ es => some (es ++ [(key, .table .explicit r.current)]))
      path .explicit
  | some (path, key, true) =>
    r.root.update .implied
      (fun _ es => match es.find? key with
        | some (.tables ts) => some (es.replace key (.tables (ts ++ [r.current])))
        | _ => none)
      path .explicit

/-- A key with a value. -/
def pair (r : Reading) (path : List String) (key : String) (value : Value) : Option Reading :=
  (r.current.defineAt path key value).map fun current => { r with current }

/-- What stands under a key at the end of a path, if anything does. -/
def existing? (root : Entries) (path : List String) (key : String) : Option Node :=
  match path with
  | [] => root.find? key
  | p :: path =>
    match root.find? p with
    | some (.table _ es) => existing? es path key
    | some (.tables ts) => ts.getLast?.bind fun es => existing? es path key
    | _ => none

/-- A header of a table. -/
def openTable (r : Reading) (path : List String) (key : String) : Option Reading := do
  let root ← r.close
  let current ← match existing? root path key with
    | none => some []
    | some (.table .implied es) => some es
    | some _ => none
  let root ← root.update .implied (fun _ es => some (es.remove key)) path .explicit
  return { root, current, header := some (path, key, false) }

/-- A header of a table in a list. -/
def openListed (r : Reading) (path : List String) (key : String) : Option Reading := do
  let root ← r.close
  let root ← root.update .implied
    (fun _ es => match es.find? key with
      | none => some (es ++ [(key, .tables [])])
      | some (.tables _) => some es
      | some _ => none)
    path .explicit
  return { root, current := [], header := some (path, key, true) }

end Reading

/-- One line: what is known after it, and the lines behind it. -/
def line? (bounds : Bounds) (r : Reading) (cs : List Char) : Option (Reading × List Char) :=
  match cs with
  | '#' :: _ => (lineEnd? cs).map fun rest => (r, rest)
  | '[' :: '[' :: cs => do
    let ((path, key), cs) ← key? bounds cs
    let cs ← expect? ']' cs
    let cs ← expect? ']' cs
    let rest ← lineEnd? cs
    let r ← r.openListed path key
    return (r, rest)
  | '[' :: cs => do
    let ((path, key), cs) ← key? bounds cs
    let cs ← expect? ']' cs
    let rest ← lineEnd? cs
    let r ← r.openTable path key
    return (r, rest)
  | cs =>
    match lineBreak? cs with
    | some rest => some (r, rest)
    | none => do
      let ((path, key, value), cs) ← pair? bounds (value? bounds (bounds.levels cs)) cs
      let rest ← lineEnd? cs
      let r ← r.pair path key value
      return (r, rest)

/-- The lines of a document, of which there are at most `fuel`. -/
def lines? (bounds : Bounds) : (fuel : Nat) → Reading → List Char → Option Reading
  | 0, _, _ => none
  | fuel + 1, r, cs =>
    match skipBlanks cs with
    | [] => some r
    | cs => (line? bounds r cs).bind fun (r, rest) => lines? bounds fuel r rest

/-- The text without the mark that may stand at its start to tell the order of bytes. -/
def skipMark : List Char → List Char
  | '\uFEFF' :: cs => cs
  | cs => cs

/-- The entries of a document, read within bounds or not. -/
def read? (bounds : Bounds) (cs : List Char) : Option Entries :=
  (lines? bounds ((skipMark cs).length + 1) {} (skipMark cs)).bind Reading.close

/-- The entries of a document that keeps the bounds of the reader. -/
def document? (cs : List Char) : Option Entries :=
  read? .kept cs

end Offload.Toml
