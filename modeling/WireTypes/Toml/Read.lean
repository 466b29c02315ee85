import WireTypes.Toml.Document

/-!
# Toml text — reading

`Toml.parse?` reads a document. Numbers with a fraction, dates and arrays of tables are refused: no setting
has such a value.
-/

namespace WireTypes
namespace Toml

/-! ## Characters -/

def isSpace (c : Char) : Bool := c == ' ' || c == '\t'

/-- A character of a line of text or of a comment. -/
def isTextChar (c : Char) : Bool := c == '\t' || (0x20 ≤ c.toNat && c.toNat ≠ 0x7F)

def isBareKeyChar (c : Char) : Bool := c.isAlphanum || c == '_' || c == '-'

def skipSpaces (cs : List Char) : List Char := cs.dropWhile isSpace

/-- Drops a line feed with the carriage return before it. -/
def lineFeed? : List Char → Option (List Char)
  | '\n' :: rest => some rest
  | '\r' :: '\n' :: rest => some rest
  | _ => none

/-- Drops a comment without the end of its line. -/
def skipComment? : List Char → Option (List Char)
  | '#' :: rest =>
      match rest.dropWhile isTextChar with
      | [] => some []
      | rest => (lineFeed? rest).map fun _ => rest
  | cs => some cs

/-- The next line, after blanks and a comment. -/
def endLine? (cs : List Char) : Option (List Char) :=
  match skipComment? (skipSpaces cs) with
  | none => none
  | some [] => some []
  | some rest => lineFeed? rest

/-- Drops blanks, comments and line ends. -/
def skipLines? : Nat → List Char → Option (List Char)
  | 0, _ => none
  | fuel + 1, cs =>
      match skipComment? (skipSpaces cs) with
      | none => none
      | some rest =>
          match lineFeed? rest with
          | some rest => skipLines? fuel rest
          | none => some rest

/-! ## Strings -/

def hexDigit? (c : Char) : Option Nat :=
  if c.isDigit then some (c.toNat - '0'.toNat)
  else if 'a' ≤ c ∧ c ≤ 'f' then some (c.toNat - 'a'.toNat + 10)
  else if 'A' ≤ c ∧ c ≤ 'F' then some (c.toNat - 'A'.toNat + 10)
  else none

/-- The number that hexadecimal digits write. -/
def hexNumber? (digits : List Char) : Option Nat :=
  digits.foldlM (fun n c => (hexDigit? c).map fun d => n * 16 + d) 0

/-- The character with a number, if there is one. -/
def scalar? (digits : List Char) : Option Char :=
  (hexNumber? digits).bind fun n => if n.isValidChar then some (Char.ofNat n) else none

def simpleEscape? : Char → Option Char
  | 'b' => some '\x08'
  | 't' => some '\t'
  | 'n' => some '\n'
  | 'f' => some '\x0c'
  | 'r' => some '\r'
  | '"' => some '"'
  | '\\' => some '\\'
  | _ => none

/-- What follows a backslash. -/
def escape? : List Char → Option (Char × List Char)
  | 'u' :: a :: b :: c :: d :: rest => (scalar? [a, b, c, d]).map fun ch => (ch, rest)
  | 'U' :: a :: b :: c :: d :: e :: f :: g :: h :: rest =>
      (scalar? [a, b, c, d, e, f, g, h]).map fun ch => (ch, rest)
  | c :: rest => (simpleEscape? c).map fun ch => (ch, rest)
  | [] => none

/-- The text of a basic string up to the closing quotation mark. -/
def basicBody : Nat → List Char → List Char → Option (String × List Char)
  | 0, _, _ => none
  | fuel + 1, acc, cs =>
      match cs with
      | [] => none
      | '"' :: rest => some (String.ofList acc.reverse, rest)
      | '\\' :: rest => do
          let (c, rest) ← escape? rest
          basicBody fuel (c :: acc) rest
      | c :: rest => if isTextChar c then basicBody fuel (c :: acc) rest else none

/-- The text of a literal string up to the closing apostrophe. -/
def literalBody (cs : List Char) : Option (String × List Char) :=
  match cs.dropWhile fun c => isTextChar c && c != '\'' with
  | '\'' :: rest =>
      some (String.ofList (cs.takeWhile fun c => isTextChar c && c != '\''), rest)
  | _ => none

/-- The marks at the end of a text of several lines: up to two belong to the text. -/
def closing? (mark : Char) (cs : List Char) : Option (List Char × List Char) :=
  let run := (cs.takeWhile (· == mark)).length
  if run < 3 then none
  else some (List.replicate (min run 5 - 3) mark, cs.drop (min run 5))

/-- Drops the line end that a backslash hides, with the blanks around it. -/
def hiddenLineEnd? (cs : List Char) : Option (List Char) :=
  (lineFeed? (skipSpaces cs)).map skip
where
  skip (cs : List Char) : List Char :=
    match cs with
    | [] => []
    | c :: rest =>
        if isSpace c || c == '\n' then skip rest
        else
          match c, rest with
          | '\r', '\n' :: more => skip more
          | _, _ => c :: rest

/-- The text of a string of several lines, with escapes if the mark is a quotation mark. -/
def longBody (mark : Char) : Nat → List Char → List Char → Option (String × List Char)
  | 0, _, _ => none
  | fuel + 1, acc, cs =>
      match closing? mark cs with
      | some (last, rest) => some (String.ofList (acc.reverse ++ last), rest)
      | none =>
          match lineFeed? cs with
          | some rest => longBody mark fuel ('\n' :: acc) rest
          | none =>
              match cs with
              | [] => none
              | c :: rest =>
                  if c == '\\' && mark == '"' then
                    match hiddenLineEnd? rest with
                    | some rest => longBody mark fuel acc rest
                    | none => do
                        let (c, rest) ← escape? rest
                        longBody mark fuel (c :: acc) rest
                  else if isTextChar c then longBody mark fuel (c :: acc) rest
                  else none

/-- A line end right after the opening marks does not count. -/
def longString? (mark : Char) (cs : List Char) : Option (String × List Char) :=
  longBody mark (cs.length + 1) [] ((lineFeed? cs).getD cs)

def string? : List Char → Option (String × List Char)
  | '"' :: '"' :: '"' :: rest => longString? '"' rest
  | '\'' :: '\'' :: '\'' :: rest => longString? '\'' rest
  | '"' :: rest => basicBody (rest.length + 1) [] rest
  | '\'' :: rest => literalBody rest
  | _ => none

/-! ## Whole numbers -/

def digitValue? (base : Nat) (c : Char) : Option Nat := (hexDigit? c).filter (· < base)

/-- The number that digits write after a number; one underscore may stand between digits. -/
def moreDigits (base : Nat) (n : Nat) : List Char → Nat × List Char
  | '_' :: c :: rest =>
      match digitValue? base c with
      | some d => moreDigits base (n * base + d) rest
      | none => (n, '_' :: c :: rest)
  | c :: rest =>
      match digitValue? base c with
      | some d => moreDigits base (n * base + d) rest
      | none => (n, c :: rest)
  | [] => (n, [])

def digits? (base : Nat) : List Char → Option (Nat × List Char)
  | c :: rest => (digitValue? base c).map fun d => moreDigits base d rest
  | [] => none

/-- A decimal number has no digit after a leading zero. -/
def decimal? : List Char → Option (Nat × List Char)
  | '0' :: rest => some (0, rest)
  | cs => digits? 10 cs

def fitsWord (n : Int) : Bool := -(Int.pow 2 63) ≤ n && n < Int.pow 2 63

def integer? (cs : List Char) : Option (Int × List Char) := do
  let (n, rest) ←
    match cs with
    | '0' :: 'x' :: rest => natural (digits? 16 rest)
    | '0' :: 'o' :: rest => natural (digits? 8 rest)
    | '0' :: 'b' :: rest => natural (digits? 2 rest)
    | '-' :: rest => (decimal? rest).map fun (n, rest) => (-(n : Int), rest)
    | '+' :: rest => natural (decimal? rest)
    | rest => natural (decimal? rest)
  if fitsWord n then some (n, rest) else none
where
  natural (parsed : Option (Nat × List Char)) : Option (Int × List Char) :=
    parsed.map fun (n, rest) => ((n : Int), rest)

/-! ## Keys -/

/-- One segment of a key. -/
def segment? (cs : List Char) : Option (String × List Char) :=
  match cs with
  | '"' :: rest => basicBody (rest.length + 1) [] rest
  | '\'' :: rest => literalBody rest
  | cs =>
      let name := cs.takeWhile isBareKeyChar
      if name.isEmpty then none else some (String.ofList name, cs.dropWhile isBareKeyChar)

/-- The segments of a key and what follows it. -/
def key? : Nat → List Char → Option (List String × List Char)
  | 0, _ => none
  | fuel + 1, cs => do
      let (first, rest) ← segment? (skipSpaces cs)
      match skipSpaces rest with
      | '.' :: rest =>
          let (more, rest) ← key? fuel rest
          some (first :: more, rest)
      | rest => some ([first], rest)

/-- A key in front of an equals sign. -/
def assigned? (cs : List Char) : Option (List String × List Char) := do
  let (segments, rest) ← key? (cs.length + 1) cs
  match rest with
  | '=' :: rest => some (segments, skipSpaces rest)
  | _ => none

/-! ## Values -/

mutual

def value? : Nat → List Char → Option (Value × List Char)
  | 0, _ => none
  | fuel + 1, cs =>
      match cs with
      | 't' :: 'r' :: 'u' :: 'e' :: rest => some (.boolean true, rest)
      | 'f' :: 'a' :: 'l' :: 's' :: 'e' :: rest => some (.boolean false, rest)
      | '[' :: rest => do
          let (items, rest) ← items? fuel rest
          some (.array items, rest)
      | '{' :: rest =>
          match skipSpaces rest with
          | '}' :: rest => some (.table [], rest)
          | rest => do
              let (members, rest) ← members? fuel [] rest
              some (.table members.values, rest)
      | '"' :: _ => (string? cs).map fun (s, rest) => (.text s, rest)
      | '\'' :: _ => (string? cs).map fun (s, rest) => (.text s, rest)
      | cs => (integer? cs).map fun (n, rest) => (.integer n, rest)

/-- The items up to the closing bracket; a comma may follow the last one. -/
def items? : Nat → List Char → Option (List Value × List Char)
  | 0, _ => none
  | fuel + 1, cs =>
      match skipLines? (cs.length + 1) cs with
      | none => none
      | some (']' :: rest) => some ([], rest)
      | some rest => do
          let (item, rest) ← value? fuel rest
          match ← skipLines? (rest.length + 1) rest with
          | ']' :: rest => some ([item], rest)
          | ',' :: rest =>
              let (items, rest) ← items? fuel rest
              some (item :: items, rest)
          | _ => none

/-- The members of a table on one line, up to the closing brace. -/
def members? : Nat → Document → List Char → Option (Document × List Char)
  | 0, _, _ => none
  | fuel + 1, d, cs => do
      let (segments, rest) ← assigned? cs
      let (v, rest) ← value? fuel rest
      let d ← d.insertKey? segments.dropLast (segments.getLastD "") v
      match skipSpaces rest with
      | '}' :: rest => some (d, rest)
      | ',' :: rest => members? fuel d rest
      | _ => none

end

/-! ## Documents -/

/-- A header between brackets, and the lines after it. -/
def header? (cs : List Char) : Option (List String × List Char) := do
  let (segments, rest) ← key? (cs.length + 1) cs
  match rest with
  | ']' :: rest => some (segments, ← endLine? rest)
  | _ => none

/-- The document that the lines add up to, below the last header. -/
def lines? : Nat → Document → List String → List Char → Option Document
  | 0, _, _, _ => none
  | fuel + 1, d, current, cs => do
      match ← skipLines? (cs.length + 1) cs with
      | [] => some d
      | '[' :: rest =>
          let (segments, rest) ← header? rest
          lines? fuel (← d.insertHeader? segments) segments rest
      | cs =>
          let (segments, rest) ← assigned? cs
          let (v, rest) ← value? (rest.length + 1) rest
          let d ← d.insertBelow? current segments.dropLast (segments.getLastD "") v
          lines? fuel d current (← endLine? rest)

/-- A byte order mark at the start does not count. -/
def parse? (text : String) : Option Document :=
  let cs :=
    match text.toList with
    | '\ufeff' :: rest => rest
    | cs => cs
  lines? (cs.length + 1) [] [] cs

end Toml
end WireTypes
