import WireTypes.Json.Print
import WireTypes.Resolution.ClassKind
import WireTypes.Text.Hidden

/-!
# Field types — the types that annotations stand for

- `label` writes a type as the name of an applied generic model shows it;
- `ClassifiedProgram.apply` refers to a generic model with its arguments, and records the application
  so that the model is built later;
- `ClassifiedProgram.resolveType` reads an annotation.
-/

namespace WireTypes

/-! ## Text of types -/

/-- The name of a format in the language of the models. -/
def StringFormat.label : StringFormat → String
  | .dateTime => "datetime"
  | .date => "date"
  | .time => "time"
  | .duration => "timedelta"
  | .uuid => "UUID"
  | .email => "EmailStr"
  | .uri => "AnyUrl"
  | .path => "Path"
  | .ipv4 => "IPv4Address"
  | .ipv6 => "IPv6Address"

namespace FieldType

/-- Parts in brackets after a name. -/
def bracketed (name : String) (parts : List String) : String :=
  name ++ "[" ++ ", ".intercalate parts ++ "]"

mutual

def label : FieldType → String
  | .any => "Any"
  | .null => "None"
  | .bool => "bool"
  | .int => "int"
  | .float => "float"
  | .str => "str"
  | .bytes => "bytes"
  | .decimal => "Decimal"
  | .formatted format => format.label
  | .list item => bracketed "List" [label item]
  | .set item => bracketed "Set" [label item]
  | .tuple items variadic =>
      -- The ellipsis stands behind all items.
      bracketed "Tuple" (if variadic then [", ".intercalate (labels items), "..."] else labels items)
  | .dict key value => bracketed "Dict" [label key, label value]
  | .optional inner => bracketed "Optional" [label inner]
  | .union members => bracketed "Union" (labels members)
  | .literal values => bracketed "Literal" (values.map Json.compact)
  -- The module of a definition is not shown.
  | .ref id => id.name
  | .unresolved name => name

def labels : List FieldType → List String
  | [] => []
  | ty :: rest => label ty :: labels rest

end

end FieldType

namespace Python.TypeHint

/-- A character of a string in quotation marks; one that would not be seen is written as its code point. -/
def quotedChar (c : Char) : String :=
  match c with
  | '"' => "\\\""
  | '\\' => "\\\\"
  | '\n' => "\\n"
  | '\r' => "\\r"
  | '\t' => "\\t"
  | '\x00' => "\\0"
  | c =>
      if Text.isHidden c || Text.isCombining c then
        "\\u\x7b" ++ String.ofList (Nat.toDigits 16 c.toNat) ++ "\x7d"
      else String.singleton c

/-- A short text for a type that is not resolved. -/
def describe : TypeHint → String
  | .name n => n
  | .call function => function
  | .subscript base _ => base ++ "[...]"
  | .str text => "\"" ++ String.join (text.toList.map quotedChar) ++ "\""
  | .int n => toString n
  | .bool true => "True"
  | .bool false => "False"
  | .ellipsis => "..."
  | .union _ => "union"
  | .list _ => "[...]"
  | .other text => text

end Python.TypeHint

namespace Resolution

open Discovery Python

/-! ## Generic models with arguments -/

/-- The types of type parameters; of a repeated name the last one counts. -/
abbrev TypeArgs := List (String × FieldType)

namespace TypeArgs

def get? (args : TypeArgs) (name : String) : Option FieldType := args.reverse.lookup name

/-- Missing types are `any`, and superfluous ones are left out. -/
def bind (parameters : List String) (types : List FieldType) : TypeArgs :=
  match parameters, types with
  | [], _ => []
  -- An argument is missing.
  | p :: ps, [] => (p, .any) :: bind ps []
  | p :: ps, t :: ts => (p, t) :: bind ps ts

end TypeArgs

/-- A generic model with arguments, under an identity of its own. -/
structure Instance where
  id : DefinitionId
  generic : DefinitionId
  args : TypeArgs

/-- The number of instances that are recorded. -/
def instanceLimit : Nat := 256

/-- The identity of a generic model with arguments: they are part of the name. -/
def instanceId (generic : DefinitionId) (types : List FieldType) : DefinitionId :=
  if types.isEmpty then generic
  else ⟨generic.module, FieldType.bracketed generic.name (types.map FieldType.label)⟩

abbrev Resolving := StateM (List Instance)

namespace ClassifiedProgram

def bindParameters (c : ClassifiedProgram) (generic : DefinitionId) (types : List FieldType) :
    TypeArgs :=
  TypeArgs.bind (c.parameters Program.stepLimit generic) types

/-- A reference to a generic model with arguments. The first arguments of an identity are recorded. -/
def apply (c : ClassifiedProgram) (generic : DefinitionId) (types : List FieldType) :
    Resolving FieldType := do
  let id := instanceId generic types
  let known ← get
  -- The arguments of an identity that is known are not looked at again.
  if known.any (·.id == id) then return .ref id
  -- A full table takes no further identities.
  else if instanceLimit ≤ known.length then return .unresolved id.name
  else
    set (known ++ [⟨id, generic, c.bindParameters generic types⟩])
    return .ref id

end ClassifiedProgram

/-! ## Literals and containers -/

/-- The values of `Literal[...]`, and whether `None` is among them. -/
def literalValues? : List TypeHint → Option (List Json × Bool)
  | [] => some ([], false)
  | hint :: rest =>
      match literalValues? rest with
      | none => none
      | some (values, nullable) =>
          match hint with
          | .str s => some (.str s :: values, nullable)
          | .int n => some (Json.ofInt n :: values, nullable)
          | .bool b => some (.bool b :: values, nullable)
          -- `None` is no value of the literal.
          | .name "None" => some (values, true)
          | _ => none

/-- A `None` member makes the literal optional. -/
def literal? (params : List TypeHint) : Option FieldType :=
  (literalValues? params).map fun (values, nullable) =>
    let ty := if values.isEmpty then .null else .literal values
    if nullable then ty.orNull else ty

/-- The parameter at a position; a missing one is `any`. -/
def parameterAt (resolve : TypeHint → Resolving FieldType) (params : List TypeHint) (i : Nat) :
    Resolving FieldType :=
  match params[i]? with
  | some hint => resolve hint
  | none => pure .any

/-- The type of a container with parameters, written as `base`. -/
def Container.typeOf (resolve : TypeHint → Resolving FieldType) (base : String)
    (params : List TypeHint) : Container → Resolving FieldType
  | .optional => do return (← parameterAt resolve params 0).orNull
  | .union => do return .unionOf (← params.mapM resolve)
  | .list => do return .list (← parameterAt resolve params 0)
  | .set => do return .set (← parameterAt resolve params 0)
  | .tuple =>
      match params with
      -- Any number of one item.
      | [item, .ellipsis] => do return .tuple [← resolve item] true
      | _ => do return .tuple (← params.mapM resolve) false
  | .dict => do
      let key ← parameterAt resolve params 0
      let value ← parameterAt resolve params 1
      return .dict key value
  | .literal => pure ((literal? params).getD (.unresolved base))
  | .wrapper => parameterAt resolve params 0

/-! ## Annotations -/

namespace ClassifiedProgram

/-- The text for a class that is no definition. -/
def plainName (c : ClassifiedProgram) (id : DefinitionId) (name : String) : String :=
  match c.modules.classDecl? id with
  | some (m, _) => Program.qualname m id.name
  | none => name

/-- The type of a name without arguments, where `expand` reads the type of an alias. -/
def namedType (c : ClassifiedProgram) (expand : SourceModule → TypeHint → Resolving FieldType)
    (m : SourceModule) (args : TypeArgs) (name : String) : Resolving FieldType :=
  match c.resolve m name with
  | .typeVar => pure ((args.get? name).getD .any)
  | .classDef id =>
      -- A generic model without arguments is applied to none.
      match c.kind id with
      | .genericModel => c.apply id []
      | .plain => pure (.unresolved (c.plainName id name))
      | _ => pure (.ref id)
  | .external qualified =>
      -- What is not known outside the tree keeps its whole name.
      pure ((External.scalar? (External.shortName qualified)).getD (.unresolved qualified))
  | .typeAlias home hint => expand home hint
  | .module _ => pure (.unresolved name)

/-- The type of a name with parameters. -/
def subscriptType (c : ClassifiedProgram) (resolve : TypeHint → Resolving FieldType)
    (m : SourceModule) (base : String) (params : List TypeHint) : Resolving FieldType :=
  match c.resolve m base with
  | .external qualified =>
      match Container.named? (External.shortName qualified) with
      | some container => container.typeOf resolve base params
      | none => pure (.unresolved (External.shortName qualified))
  | .classDef id =>
      match c.kind id with
      | .genericModel => do c.apply id (← params.mapM resolve)
      -- Arguments of a model without parameters mean nothing.
      | .model => pure (.ref id)
      | _ => pure (.unresolved base)
  | _ => pure (.unresolved base)

/-- The type of an annotation. Nesting is followed for a limited number of steps. -/
def resolveType (c : ClassifiedProgram) :
    Nat → SourceModule → TypeArgs → TypeHint → Resolving FieldType
  | 0, _, _, hint => pure (.unresolved hint.describe)
  | steps + 1, m, args, hint =>
      match hint with
      | .name name =>
          if name = "None" then pure .null
          else c.namedType (fun home => resolveType c steps home args) m args name
      | .str text =>
          match TypeHint.parse text with
          | .ok inner => resolveType c steps m args inner
          | .error _ => pure (.unresolved text)
      | .union members => do return .unionOf (← members.mapM (resolveType c steps m args))
      | .subscript base params => c.subscriptType (resolveType c steps m args) m base params
      | other => pure (.unresolved other.describe)

/-- The type of an annotation in a class. -/
def typeOf (c : ClassifiedProgram) (m : SourceModule) (args : TypeArgs) (hint : TypeHint) :
    Resolving FieldType :=
  c.resolveType Program.stepLimit m args hint

end ClassifiedProgram

end Resolution
end WireTypes
