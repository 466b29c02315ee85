/-!
# Script — commands of a small shell

A script is a list of commands. Words are lists of pieces, which are expanded when a command runs.
-/

namespace WireTypes
namespace Shell

/-- What stands for a parameter in braces with a word after its name. -/
structure Substitution where
  /-- The word stands for the parameter if that is set; otherwise if it is not set. -/
  ifSet : Bool
  /-- An empty value counts as set. -/
  keepsEmpty : Bool
  /-- The word becomes the value of the parameter. -/
  assigns : Bool
  deriving DecidableEq, Repr

mutual

/-- A part of a word. What stands in quotation marks is not split into fields. -/
inductive Piece
  | text (s : String) (quoted : Bool)
  | parameter (name : String) (quoted : Bool)
  /-- The number of characters of a parameter. -/
  | length (name : String)
  | substitute (name : String) (rule : Substitution) (pieces : List Piece) (quoted : Bool)
  /-- A parameter without the part at one end that matches a pattern. -/
  | trimmed (name : String) (atEnd longest : Bool) (pattern : List Piece) (quoted : Bool)
  | arithmetic (expression : String)
  /-- What commands write. -/
  | output (body : List Command) (quoted : Bool)

inductive Redirect
  | toFile (fd : Nat) (append : Bool) (target : List Piece)
  | fromFile (source : List Piece)
  | duplicate (fd other : Nat)
  /-- Lines of the script itself. -/
  | document (pieces : List Piece)

inductive Command
  | simple (line : Nat) (assignments : List (String × List Piece)) (words : List (List Piece))
      (redirects : List Redirect)
  | pipe (left right : Command)
  | negated (command : Command)
  | both (left right : Command)
  | either (left right : Command)
  /-- Conditions with their bodies, and the body for the other case. -/
  | branches (cases : List (List Command × List Command)) (otherwise : List Command)
  /-- Bodies with the patterns that lead to them. -/
  | choice (subject : List Piece) (cases : List (List (List Piece) × List Command))
  | loop (untilTrue : Bool) (condition body : List Command)
  | forEach (name : String) (words : List (List Piece)) (body : List Command)
  | group (isolated : Bool) (body : List Command)
  | redirected (command : Command) (redirects : List Redirect)
  | define (name : String) (body : Command)

end

abbrev Word := List Piece

end Shell
end WireTypes
