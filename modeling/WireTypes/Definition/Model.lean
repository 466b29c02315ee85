import WireTypes.Definition.FieldType

/-!
# Models, enumerations and the catalog of definitions

A model is a class with fields; an enumeration is a list of values. The catalog holds what was found
from one entry module: the models in scope, the models they depend on, and the enumerations.
-/

namespace WireTypes

/-- What becomes of properties that a model does not declare. -/
inductive ExtraFields
  | allow
  | forbid
  | ignore
  deriving DecidableEq, Repr

def ExtraFields.parse? : String → Option ExtraFields
  | "allow" => some .allow
  | "forbid" => some .forbid
  | "ignore" => some .ignore
  | _ => none

/-! ## Fields -/

inductive FieldDefault
  | required
  | literal (value : Json)
  /-- A function makes the value. -/
  | factory
  /-- A value that is not a constant. -/
  | dynamic

def FieldDefault.isRequired : FieldDefault → Bool
  | .required => true
  | _ => false

structure Constraints where
  minimum : Option Json
  exclusiveMinimum : Option Json
  maximum : Option Json
  exclusiveMaximum : Option Json
  minLength : Option Nat
  maxLength : Option Nat
  pattern : Option String

namespace Constraints

def none : Constraints := ⟨.none, .none, .none, .none, .none, .none, .none⟩

def isEmpty (c : Constraints) : Bool :=
  c.minimum.isNone && c.exclusiveMinimum.isNone && c.maximum.isNone && c.exclusiveMaximum.isNone
    && c.minLength.isNone && c.maxLength.isNone && c.pattern.isNone

end Constraints

structure Field where
  name : String
  /-- The name on the wire, if it differs. -/
  alias? : Option String
  type : FieldType
  default : FieldDefault
  description : Option String
  title : Option String
  constraints : Constraints
  /-- A computed property, which is always present on the wire. -/
  computed : Bool

namespace Field

def required (name : String) (type : FieldType) : Field :=
  ⟨name, none, type, .required, none, none, .none, false⟩

def wireName (f : Field) : String := f.alias?.getD f.name

def hasDefault (f : Field) : Bool := !f.default.isRequired

end Field

/-! ## Definitions -/

structure Model where
  id : DefinitionId
  name : String
  /-- The dotted name of the module and the name of the class. -/
  qualname : String
  docs : Option String
  fields : List Field
  extra : Option ExtraFields

/-- The definitions that the fields of a model refer to. -/
def Model.refs (m : Model) : List DefinitionId := m.fields.flatMap fun f => f.type.refs

structure Enumeration where
  id : DefinitionId
  name : String
  qualname : String
  docs : Option String
  values : List Json

structure Catalog where
  models : List Model
  dependencies : List Model
  enums : List Enumeration

namespace Catalog

def empty : Catalog := ⟨[], [], []⟩

/-- The models in scope, then those they depend on. -/
def allModels (c : Catalog) : List Model := c.models ++ c.dependencies

def model? (c : Catalog) (id : DefinitionId) : Option Model :=
  c.allModels.find? fun m => m.id == id

def enum? (c : Catalog) (id : DefinitionId) : Option Enumeration :=
  c.enums.find? fun e => e.id == id

end Catalog

end WireTypes
