import WireTypes.Text.Blank

/-!
# Docstring — normal form of documentation text

The first line is trimmed. The other lines lose the indentation that all of them share, counted in
characters, and their trailing blanks. Empty lines at the start and at the end are dropped.
-/

namespace WireTypes
namespace Python
namespace Docstring

open Text

def indentation (line : List Char) : Nat := (line.takeWhile isBlank).length

def isBlankLine (line : List Char) : Bool := line.all isBlank

/-- The least indentation of the lines that are not blank. -/
def margin (lines : List (List Char)) : Nat :=
  (((lines.filter (!isBlankLine ·)).map indentation).min?).getD 0

/-- Drops at most `n` leading blanks. -/
def dropIndent : Nat → List Char → List Char
  | 0, line => line
  | _ + 1, [] => []
  | n + 1, c :: rest => if isBlank c then dropIndent n rest else c :: rest

def dropEmptyEnds (lines : List (List Char)) : List (List Char) :=
  ((lines.dropWhile List.isEmpty).reverse.dropWhile List.isEmpty).reverse

def cleanLines : List (List Char) → List (List Char)
  | [] => []
  | first :: rest =>
      dropEmptyEnds (trim first :: rest.map fun line => trimRight (dropIndent (margin rest) line))

def cleanChars (cs : List Char) : List Char := ['\n'].intercalate (cleanLines (lines cs))

def clean (text : String) : String := String.ofList (cleanChars text.toList)

end Docstring
end Python
end WireTypes
