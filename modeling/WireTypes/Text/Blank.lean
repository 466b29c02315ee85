/-!
# Blank — white space and lines

`isBlank` is the Unicode property `White_Space`. Lines end at a line feed, and a carriage return right
before it belongs to the end of the line; text after the last line end is a line if it is not empty.
-/

namespace WireTypes
namespace Text

def isBlank (c : Char) : Bool :=
  let n := c.toNat
  (9 ≤ n && n ≤ 13) || n == 0x20 || n == 0x85 || n == 0xA0 || n == 0x1680
    || (0x2000 ≤ n && n ≤ 0x200A) || n == 0x2028 || n == 0x2029 || n == 0x202F || n == 0x205F
    || n == 0x3000

/-! ## Trimming -/

def trimLeft (cs : List Char) : List Char := cs.dropWhile isBlank

def trimRight (cs : List Char) : List Char := (cs.reverse.dropWhile isBlank).reverse

def trim (cs : List Char) : List Char := trimRight (trimLeft cs)

/-- Removes every blank. -/
def compact (s : String) : String := String.ofList (s.toList.filter (!isBlank ·))

/-! ## Lines -/

/-- Drops the carriage return at the end of a line. -/
def dropReturn (line : List Char) : List Char :=
  if line.getLast? = some '\r' then line.dropLast else line

/-- The pieces between line feeds; there is one more of them than line feeds. -/
def splitLines : List Char → List (List Char)
  | [] => [[]]
  | c :: rest =>
      if c == '\n' then [] :: splitLines rest
      else
        match splitLines rest with
        | [] => [[c]]
        | line :: lines => (c :: line) :: lines

/-- A carriage return is part of a line end only before a line feed. -/
def linesOf : List (List Char) → List (List Char)
  | [] => []
  | [last] => if last.isEmpty then [] else [last]
  | line :: rest => dropReturn line :: linesOf rest

def lines (cs : List Char) : List (List Char) := linesOf (splitLines cs)

end Text
end WireTypes
