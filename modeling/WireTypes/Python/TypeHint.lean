import WireTypes.Python.Literal
import WireTypes.Python.Script

/-!
# TypeHint — the types that a module writes

- `TypeHint.ofTerm` reads a term as a type;
- `TypeHint.parse` reads a type from text, such as the text of a forward reference: it must be one
  statement, and only an expression gives more than its text.
-/

namespace WireTypes
namespace Python

inductive TypeHint
  | name (name : String)
  | subscript (base : String) (args : List TypeHint)
  | union (members : List TypeHint)
  /-- A string: a forward reference, except among literal values. -/
  | str (text : String)
  | int (value : Int)
  | bool (value : Bool)
  | ellipsis
  | list (items : List TypeHint)
  /-- Only the name of the function is kept. -/
  | call (function : String)
  | other (text : String)

namespace TypeHint

def asName? : TypeHint → Option String
  | .name n => some n
  | _ => none

/-- The alternatives of a member of a union. -/
def alternatives : TypeHint → List TypeHint
  | .union members => members
  | a => [a]

/-- The minus sign in front of a whole number. -/
def negated (operator : String) (operand : TypeHint) (text : String) : TypeHint :=
  match operator, operand with
  | "-", .int n => .int (-n)
  | _, _ => .other text

mutual

def ofTerm : Term → TypeHint
  | .identifier text => .name (Text.compact text)
  | .attribute text => .name (Text.compact text)
  | .string tokens text =>
      match decodeStrings? tokens with
      | some s => .str s
      | none => .other text
  | .integer text =>
      match decodeDecimal? text with
      | some n => .int n
      | none => .other text
  | .float text => .other text
  | .boolean value => .bool value
  | .none => .name "None"
  | .ellipsis => .ellipsis
  | .unary operator operand text => negated operator (ofTerm operand) text
  | .group inner => ofTerm inner
  | .list items => .list (ofTerms items)
  | .set _ text => .other text
  | .tuple _ text => .other text
  | .dict _ text => .other text
  | .call function _ _ _ _ => .call (Text.compact function)
  | .subscript base args => .subscript (Text.compact base) (ofTerms args)
  | .binary operator left right text =>
      if operator = "|" then .union ((ofTerm left).alternatives ++ (ofTerm right).alternatives)
      else .other text
  | .union members => .union (ofMembers members)
  | .starred _ text => .other text
  | .other text => .other text

def ofTerms : List Term → List TypeHint
  | [] => []
  | t :: rest => ofTerm t :: ofTerms rest

def ofMembers : List Term → List TypeHint
  | [] => []
  | t :: rest => (ofTerm t).alternatives ++ ofMembers rest

end

/-! ## Text -/

/-- Why a text is no type. -/
inductive ParseError
  | invalid (text : String)
  | notSingle (text : String)

def ParseError.message : ParseError → String
  | .invalid text => "syntax error: invalid type `" ++ text ++ "`"
  | .notSingle text => "parse error: expected a single type expression, found `" ++ text ++ "`"

/-- A statement that is no expression is kept as text. -/
def ofStatement (s : Statement) (text : String) : TypeHint :=
  match s with
  | .expression t => ofTerm t
  | _ => .other text

/-- A comment counts as a statement. -/
def parse (text : String) : Except ParseError TypeHint :=
  let source := Text.trim text.toList
  let shown := String.ofList source
  match Script.parse source with
  | .error _ => .error (.invalid shown)
  | .ok parsed =>
      match parsed.statements, parsed.comments with
      | [(s, text)], 0 => .ok (ofStatement s text)
      | [], 1 => .ok (.other shown)
      | _, _ => .error (.notSingle shown)

end TypeHint

end Python
end WireTypes
