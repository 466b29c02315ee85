import WireTypes.Python.TypeHint

/-!
# Expr — constants, names and calls on the right of assignments

- `Expr.ofTerm` reads a term as a value;
- `Expr.toJson?` is the JSON value of a constant.
-/

namespace WireTypes
namespace Python

inductive Expr
  /-- A name or a dotted name. -/
  | name (name : String)
  | literal (value : Json)
  | list (items : List Expr)
  | tuple (items : List Expr)
  | dict (entries : List (Expr × Expr))
  | call (function : String) (args : List Expr) (named : List (String × Expr))
  /-- A subscript or a union, which is a type. -/
  | type (type : TypeHint)
  | ellipsis
  | other (text : String)

namespace Expr

/-! ## Views -/

mutual

def toJson? : Expr → Option Json
  | .literal value => some value
  | .list items => (itemsToJson? items).map .arr
  | .tuple items => (itemsToJson? items).map .arr
  | .dict entries => (entriesToJson? [] entries).map .obj
  | _ => none

def itemsToJson? : List Expr → Option (List Json)
  | [] => some []
  | e :: rest =>
      match toJson? e, itemsToJson? rest with
      | some j, some js => some (j :: js)
      | _, _ => none

/-- Keys must be strings; a repeated key keeps its first place and its last value. -/
def entriesToJson? (acc : List (String × Json)) :
    List (Expr × Expr) → Option (List (String × Json))
  | [] => some acc
  | (k, v) :: rest =>
      match k, toJson? v with
      | .literal (.str key), some value => entriesToJson? (Json.insert key value acc) rest
      | _, _ => none

end

def asString? : Expr → Option String
  | .literal (.str s) => some s
  | _ => none

def asName? : Expr → Option String
  | .name n => some n
  | _ => none

/-- What follows the last point of a name. -/
def lastSegmentOf (name : String) : String := (name.splitOn ".").getLastD name

def lastSegment? (e : Expr) : Option String := e.asName?.map lastSegmentOf

/-- The first argument of that name. -/
def named? (key : String) (named : List (String × Expr)) : Option Expr := named.lookup key

/-! ## Reading -/

/-- A sign in front of a number. -/
def signed (operator : String) (operand : Expr) (text : String) : Expr :=
  match operator, operand with
  | "-", .literal (.num (.int n)) => .literal (.num (.int (-n)))
  | "-", .literal (.num (.float x)) => .literal (.num (.float x.negate))
  | "+", .literal (.num n) => .literal (.num n)
  | _, _ => .other text

mutual

def ofTerm : Term → Expr
  | .identifier text => .name (Text.compact text)
  | .attribute text => .name (Text.compact text)
  | .string tokens text =>
      match decodeStrings? tokens with
      | some s => .literal (.str s)
      | none => .other text
  | .integer text =>
      match decodeInteger? text with
      | some n => .literal (.num (.int n))
      | none => .other text
  | .float text =>
      match decodeFloat? text with
      | some x => .literal (.num (.float x))
      | none => .other text
  | .boolean value => .literal (.bool value)
  | .none => .literal .null
  | .ellipsis => .ellipsis
  | .unary operator operand text => signed operator (ofTerm operand) text
  | .group inner => ofTerm inner
  | .list items => .list (ofTerms items)
  | .set items _ => .list (ofTerms items)
  | .tuple items _ => .tuple (ofTerms items)
  | .dict entries _ => .dict (ofEntries entries)
  | .call function plain args named text =>
      if plain then .call (Text.compact function) (ofTerms args) (ofNamed named) else .other text
  | .subscript base args => .type (TypeHint.ofTerm (.subscript base args))
  | .binary operator left right text =>
      if operator = "|" then .type (TypeHint.ofTerm (.binary operator left right text))
      else .other text
  | .union members => .type (TypeHint.ofTerm (.union members))
  | .starred _ text => .other text
  | .other text => .other text

def ofTerms : List Term → List Expr
  | [] => []
  | t :: rest => ofTerm t :: ofTerms rest

def ofEntries : List (Term × Term) → List (Expr × Expr)
  | [] => []
  | (k, v) :: rest => (ofTerm k, ofTerm v) :: ofEntries rest

def ofNamed : List (String × Term) → List (String × Expr)
  | [] => []
  | (key, t) :: rest => (key, ofTerm t) :: ofNamed rest

end

end Expr

end Python
end WireTypes
