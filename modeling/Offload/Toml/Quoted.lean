import Offload.Toml.Scan

/-!
# Texts of a TOML document

A text stands in double quotes, where a backslash starts an escape, or in single quotes, where
nothing does. Three quotes instead of one let the text run over several lines. Up to two quotes in a
row belong to such a text, also in front of the three that end it.
-/

namespace Offload.Toml

/-- A character that stands for itself between double quotes. -/
def isPlain (c : Char) : Bool :=
  isBlank c || c == '!' || ('#' ≤ c && c ≤ '[') || (']' ≤ c && c ≤ '~') || isForeign c

/-- A character that stands for itself between single quotes. -/
def isLiteral (c : Char) : Bool :=
  c == '\t' || (' ' ≤ c && c ≤ '&') || ('(' ≤ c && c ≤ '~') || isForeign c

/-- The character that a letter behind a backslash stands for. -/
def escaped? (c : Char) : Option Char :=
  match c with
  | 'b' => some '\x08'
  | 'f' => some '\x0c'
  | 'n' => some '\n'
  | 'r' => some '\r'
  | 't' => some '\t'
  | '\\' => some '\\'
  | '"' => some '"'
  | _ => none

/-- The character of a code point in hexadecimal digits. -/
def codePoint? (cs : List Char) : Option Char :=
  (cs.mapM hexDigit?).bind fun ds =>
    let n := ofDigits 16 ds
    if n.isValidChar then some (Char.ofNat n) else none

/-- The rest of a text in double quotes. -/
def basicBody : List Char → Option (List Char × List Char)
  | '"' :: rest => some ([], rest)
  | '\\' :: 'u' :: a :: b :: c :: d :: rest =>
    (codePoint? [a, b, c, d]).bind fun x =>
      (basicBody rest).map fun (text, rest) => (x :: text, rest)
  | '\\' :: 'U' :: a :: b :: c :: d :: e :: f :: g :: h :: rest =>
    (codePoint? [a, b, c, d, e, f, g, h]).bind fun x =>
      (basicBody rest).map fun (text, rest) => (x :: text, rest)
  | '\\' :: e :: rest =>
    (escaped? e).bind fun x => (basicBody rest).map fun (text, rest) => (x :: text, rest)
  | c :: rest =>
    if isPlain c then (basicBody rest).map fun (text, rest) => (c :: text, rest) else none
  | [] => none

/-- The rest of a text in single quotes. -/
def literalBody : List Char → Option (List Char × List Char)
  | '\'' :: rest => some ([], rest)
  | c :: rest =>
    if isLiteral c then (literalBody rest).map fun (text, rest) => (c :: text, rest) else none
  | [] => none

/-- Whether a backslash in front of this text takes the line break away. -/
def breaksLine (cs : List Char) : Bool :=
  (lineBreak? (skipBlanks cs)).isSome

/-- The rest of a text in three double quotes. Behind a backslash that takes a line break away,
blanks and line breaks are dropped (`dropping`). -/
def longBasicBody : (dropping : Bool) → List Char → Option (List Char × List Char)
  | true, '\n' :: rest => longBasicBody true rest
  | true, '\r' :: '\n' :: rest => longBasicBody true rest
  | true, ' ' :: rest => longBasicBody true rest
  | true, '\t' :: rest => longBasicBody true rest
  | _, '"' :: '"' :: '"' :: '"' :: '"' :: rest => some (['"', '"'], rest)
  | _, '"' :: '"' :: '"' :: '"' :: rest => some (['"'], rest)
  | _, '"' :: '"' :: '"' :: rest => some ([], rest)
  | _, '"' :: rest => (longBasicBody false rest).map fun (text, rest) => ('"' :: text, rest)
  | _, '\n' :: rest => (longBasicBody false rest).map fun (text, rest) => ('\n' :: text, rest)
  | _, '\r' :: '\n' :: rest =>
    (longBasicBody false rest).map fun (text, rest) => ('\n' :: text, rest)
  | _, '\\' :: 'u' :: a :: b :: c :: d :: rest =>
    (codePoint? [a, b, c, d]).bind fun x =>
      (longBasicBody false rest).map fun (text, rest) => (x :: text, rest)
  | _, '\\' :: 'U' :: a :: b :: c :: d :: e :: f :: g :: h :: rest =>
    (codePoint? [a, b, c, d, e, f, g, h]).bind fun x =>
      (longBasicBody false rest).map fun (text, rest) => (x :: text, rest)
  | _, '\\' :: e :: rest =>
    if breaksLine (e :: rest) then longBasicBody true (e :: rest)
    else (escaped? e).bind fun x =>
      (longBasicBody false rest).map fun (text, rest) => (x :: text, rest)
  | _, c :: rest =>
    if isPlain c then (longBasicBody false rest).map fun (text, rest) => (c :: text, rest) else none
  | _, [] => none

/-- The rest of a text in three single quotes. -/
def longLiteralBody : List Char → Option (List Char × List Char)
  | '\'' :: '\'' :: '\'' :: '\'' :: '\'' :: rest => some (['\'', '\''], rest)
  | '\'' :: '\'' :: '\'' :: '\'' :: rest => some (['\''], rest)
  | '\'' :: '\'' :: '\'' :: rest => some ([], rest)
  | '\'' :: rest => (longLiteralBody rest).map fun (text, rest) => ('\'' :: text, rest)
  | '\n' :: rest => (longLiteralBody rest).map fun (text, rest) => ('\n' :: text, rest)
  | '\r' :: '\n' :: rest => (longLiteralBody rest).map fun (text, rest) => ('\n' :: text, rest)
  | c :: rest =>
    if isLiteral c then (longLiteralBody rest).map fun (text, rest) => (c :: text, rest) else none
  | [] => none

/-- The text behind the line break that may follow three opening quotes. -/
def skipFirstBreak (cs : List Char) : List Char :=
  (lineBreak? cs).getD cs

/-- A text in quotes on one line. -/
def quoted? : Scan String
  | '"' :: cs => (basicBody cs).map fun (text, rest) => (String.ofList text, rest)
  | '\'' :: cs => (literalBody cs).map fun (text, rest) => (String.ofList text, rest)
  | _ => none

/-- A text in any quotes. -/
def text? : Scan String
  | '"' :: '"' :: '"' :: cs =>
    (longBasicBody false (skipFirstBreak cs)).map fun (text, rest) => (String.ofList text, rest)
  | '\'' :: '\'' :: '\'' :: cs =>
    (longLiteralBody (skipFirstBreak cs)).map fun (text, rest) => (String.ofList text, rest)
  | cs => quoted? cs

end Offload.Toml
