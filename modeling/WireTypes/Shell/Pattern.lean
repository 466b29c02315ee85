/-!
# Pattern — texts with wildcards

A pattern is a list of marks: characters, wildcards and sets of characters.

- `Pattern.parse` reads a pattern, in which a backslash makes the character after it stand for itself;
- `Pattern.accepts` says whether a whole text matches;
- `Pattern.trim` takes the shortest or the longest matching part off one end of a text.
-/

namespace WireTypes
namespace Shell

inductive Mark
  | char (c : Char)
  | anyChar
  | anyText
  /-- A character in one of the ranges, or in none of them. -/
  | oneOf (negated : Bool) (ranges : List (Char × Char))
  deriving DecidableEq, Repr

abbrev Pattern := List Mark

namespace Pattern

/-! ## Reading -/

/-- The ranges of a set up to its closing bracket. -/
def ranges? : List Char → Option (List (Char × Char) × List Char)
  | [] => none
  | ']' :: rest => some ([], rest)
  | a :: '-' :: b :: rest =>
      if b == ']' then some ([(a, a), ('-', '-')], rest)
      else (ranges? rest).map fun (more, rest) => ((a, b) :: more, rest)
  | a :: rest => (ranges? rest).map fun (more, rest) => ((a, a) :: more, rest)

/-- A set after its opening bracket; a bracket that closes nothing is a member of the set. -/
def set? (cs : List Char) : Option (Mark × List Char) :=
  let (negated, body) :=
    match cs with
    | '!' :: rest => (true, rest)
    | '^' :: rest => (true, rest)
    | cs => (false, cs)
  match body with
  | ']' :: rest =>
      (ranges? rest).map fun (more, rest) => (.oneOf negated ((']', ']') :: more), rest)
  | body => (ranges? body).map fun (found, rest) => (.oneOf negated found, rest)

def parseFrom : Nat → List Char → Pattern
  | 0, _ => []
  | _ + 1, [] => []
  | fuel + 1, c :: rest =>
      match c, rest with
      | '\\', d :: more => .char d :: parseFrom fuel more
      | '*', rest => .anyText :: parseFrom fuel rest
      | '?', rest => .anyChar :: parseFrom fuel rest
      | '[', rest =>
          match set? rest with
          | some (mark, more) => mark :: parseFrom fuel more
          | none => .char '[' :: parseFrom fuel rest
      | c, rest => .char c :: parseFrom fuel rest

def parse (text : String) : Pattern := parseFrom (text.length + 1) text.toList

/-- The text of a pattern that matches a text only. -/
def escape (text : String) : String :=
  String.ofList (text.toList.flatMap fun c => if "*?[]\\!^-".contains c then ['\\', c] else [c])

/-! ## Matching -/

/-- Whether a mark other than `anyText` matches a character. -/
def admits (c : Char) : Mark → Bool
  | .char d => c == d
  | .anyChar => true
  | .anyText => false
  | .oneOf negated ranges => (ranges.any fun r => r.1 ≤ c && c ≤ r.2) != negated

/-- Whether the text matches from one of its places on. -/
def acceptsSomewhere (accepts : List Char → Bool) : List Char → Bool
  | [] => accepts []
  | c :: rest => accepts (c :: rest) || acceptsSomewhere accepts rest

/-- Whether the whole text matches. -/
def accepts : Pattern → List Char → Bool
  | [], text => text.isEmpty
  | .anyText :: marks, text => acceptsSomewhere (accepts marks) text
  | mark :: marks, text =>
      match text with
      | [] => false
      | c :: rest => admits c mark && accepts marks rest

/-- The lengths that may be taken off, in order of preference. -/
def candidateLengths (longest : Bool) (length : Nat) : List Nat :=
  if longest then (List.range (length + 1)).reverse else List.range (length + 1)

/-- Takes a matching part off the start or the end of a text. -/
def trim (p : Pattern) (atEnd longest : Bool) (text : List Char) : List Char :=
  let part := fun (n : Nat) => if atEnd then text.drop (text.length - n) else text.take n
  match (candidateLengths longest text.length).find? fun n => p.accepts (part n) with
  | some n => if atEnd then text.take (text.length - n) else text.drop n
  | none => text

end Pattern
end Shell
end WireTypes
