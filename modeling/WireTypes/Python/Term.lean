import WireTypes.Text.Letters

/-!
# Term — expressions of a module, as far as they are read

A term keeps the structure that annotations and constants are read from. Every other expression is
`other`, with its source text. Statements keep what declares a name.
-/

namespace WireTypes
namespace Python

inductive Term
  | identifier (text : String)
  | attribute (text : String)
  /-- One string token, or several side by side. -/
  | string (tokens : List String) (text : String)
  | integer (text : String)
  | float (text : String)
  | boolean (value : Bool)
  | none
  | ellipsis
  | unary (operator : String) (operand : Term) (text : String)
  | group (inner : Term)
  | list (items : List Term)
  | set (items : List Term) (text : String)
  | tuple (items : List Term) (text : String)
  /-- Key and value of each entry. -/
  | dict (entries : List (Term × Term)) (text : String)
  /-- `plain` when the function is a name or a dotted name. -/
  | call (function : String) (plain : Bool) (args : List Term) (named : List (String × Term))
      (text : String)
  | subscript (base : String) (args : List Term)
  | binary (operator : String) (left right : Term) (text : String)
  /-- Alternatives of an annotation. -/
  | union (members : List Term)
  | starred (inner : Term) (text : String)
  | other (text : String)

mutual

/-- Whether a term may stand on the left of an assignment. -/
def Term.isTarget : Term → Bool
  | .identifier _ => true
  | .attribute _ => true
  | .subscript _ _ => true
  | .starred inner _ => inner.isTarget
  | .group inner => inner.isTarget
  | .list items => Term.areTargets items
  | .tuple items _ => Term.areTargets items
  | _ => false

def Term.areTargets : List Term → Bool
  | [] => true
  | t :: rest => t.isTarget && Term.areTargets rest

end

/-! ## Statements -/

/-- A name in an import with the name it is given. -/
structure ImportedName where
  name : String
  alias? : Option String

def ImportedName.binding (n : ImportedName) : String := n.alias?.getD n.name

/-- An identifier as it stands in a source text. -/
structure Word where
  text : String
  isName : Text.isName text = true

inductive Statement
  | importModules (modules : List ImportedName)
  /-- `level` counts the leading dots. -/
  | importFrom (level : Nat) (module : Option String) (names : List ImportedName) (star : Bool)
  | classDef (name : Word) (bases : List Term) (keywords : List (String × Term))
      (body : List Statement)
  | function (name : String) (returns : Option Term) (body : List Statement)
  | decorated (decorators : List Term) (definition : Statement)
  /-- The target is present when it is a plain name. -/
  | assignment (target : Option String) (hint : Option Term) (value : Option Term)
  | expression (term : Term)
  /-- The bodies of a conditional or of an attempt with handlers. -/
  | branches (bodies : List (List Statement))
  | other

end Python
end WireTypes
