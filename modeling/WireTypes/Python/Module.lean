import WireTypes.Python.Docstring
import WireTypes.Python.Expr

/-!
# Module — what a source text declares

Imports, classes and plain assignments of a module. Bodies of conditionals and of attempts at module
level belong to the module, since that is where imports for other versions stand.
-/

namespace WireTypes
namespace Python

/-- An import, before any name is looked up. -/
inductive Import
  | modules (path : String) (alias? : Option String)
  | names (level : Nat) (module : Option String) (names : List ImportedName) (star : Bool)

/-- An annotated name in a class. -/
structure Attribute where
  name : String
  hint : TypeHint
  value : Option Expr

/-- A property whose value is computed. -/
structure Computed where
  name : String
  returns : Option TypeHint
  docstring : Option String
  options : List (String × Expr)

structure ClassDecl where
  name : String
  bases : List Expr
  keywords : List (String × Expr)
  docstring : Option String
  attributes : List Attribute
  assignments : List (String × Expr)
  /-- Assignments of a nested class named `Config`. -/
  config : Option (List (String × Expr))
  computed : List Computed

structure Module where
  imports : List Import
  classes : List ClassDecl
  aliases : List (String × Expr)

namespace Module

def empty : Module := ⟨[], [], []⟩

/-- The last class of that name. -/
def class? (m : Module) (name : String) : Option ClassDecl :=
  m.classes.reverse.find? fun c => c.name == name

def append (a b : Module) : Module :=
  ⟨a.imports ++ b.imports, a.classes ++ b.classes, a.aliases ++ b.aliases⟩

end Module

/-! ## Classes -/

/-- A string that is the first statement of a body. -/
def docstringOf (body : List Statement) : Option String :=
  match body with
  | .expression (.string tokens _) :: _ =>
      match decodeStrings? tokens with
      | some s =>
          let text := Docstring.clean s
          if text.isEmpty then none else some text
      | none => none
  | _ => none

def attributeOf? : Statement → Option Attribute
  | .assignment (some name) (some hint) value =>
      some ⟨name, TypeHint.ofTerm hint, value.map Expr.ofTerm⟩
  | _ => none

def plainAssignment? : Statement → Option (String × Expr)
  | .assignment (some name) none (some value) => some (name, Expr.ofTerm value)
  | _ => none

/-- The assignments of a nested `Config` class. -/
def configOf? : Statement → Option (List (String × Expr))
  | .classDef name _ _ body =>
      if name.text = "Config" then some (body.filterMap plainAssignment?) else none
  | _ => none

/-- The options of a decorator that marks a computed property. -/
def computedOptions? (decorator : Term) : Option (List (String × Expr)) :=
  match Expr.ofTerm decorator with
  | .name name => if Expr.lastSegmentOf name = "computed_field" then some [] else none
  | .call function _ named =>
      if Expr.lastSegmentOf function = "computed_field" then some named else none
  | _ => none

def computedOf? : Statement → Option Computed
  | .decorated decorators (.function name returns body) =>
      match (decorators.filterMap computedOptions?).getLast? with
      | some options => some ⟨name, returns.map TypeHint.ofTerm, docstringOf body, options⟩
      | none => none
  | _ => none

def classOf? : Statement → Option ClassDecl
  | .classDef name bases keywords body =>
      some
        { name := name.text
          bases := Expr.ofTerms bases
          keywords := Expr.ofNamed keywords
          docstring := docstringOf body
          attributes := body.filterMap attributeOf?
          assignments := body.filterMap plainAssignment?
          config := (body.filterMap configOf?).getLast?
          computed := body.filterMap computedOf? }
  | _ => none

/-! ## Modules -/

mutual

def ofStatement : Statement → Module
  | .importModules modules =>
      { Module.empty with imports := modules.map fun m => .modules m.name m.alias? }
  | .importFrom level module names star =>
      { Module.empty with imports := [.names level module names star] }
  | .classDef name bases keywords body =>
      { Module.empty with classes := (classOf? (.classDef name bases keywords body)).toList }
  | .decorated _ definition => { Module.empty with classes := (classOf? definition).toList }
  | .assignment target hint value =>
      { Module.empty with
        aliases := (plainAssignment? (.assignment target hint value)).toList }
  | .branches bodies => ofBodies bodies
  | _ => Module.empty

def ofStatements : List Statement → Module
  | [] => Module.empty
  | s :: rest => (ofStatement s).append (ofStatements rest)

def ofBodies : List (List Statement) → Module
  | [] => Module.empty
  | body :: rest => (ofStatements body).append (ofBodies rest)

end

namespace Module

/-- A text that cannot be read, with the line that shows it. -/
structure SyntaxError where
  line : Nat

def SyntaxError.message (e : SyntaxError) : String :=
  "syntax error: invalid syntax near line " ++ toString e.line

def read (source : String) : Except SyntaxError Module :=
  match Script.parse source.toList with
  | .ok parsed => .ok (ofStatements (parsed.statements.map Prod.fst))
  | .error line => .error ⟨line⟩

end Module

end Python
end WireTypes
