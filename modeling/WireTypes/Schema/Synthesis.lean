import WireTypes.Definition.Model
import WireTypes.Schema.Document
import WireTypes.Schema.Naming

/-!
# Synthesis — a schema document from retained models

Every retained model becomes a titled definition. Enumerations are defined when a retained model refers
to them. A model that is not retained is written in place, without a title; one that refers to itself
that way has no schema.

- `Synthesis.typeSchema` is the schema of a type, `fieldSchema` that of a property;
- `Synthesis.objectSchema` is the schema of a model;
- `synthesize` puts the document together.
-/

namespace WireTypes
namespace Schema

/-! ## Failures -/

inductive Failure
  /-- Two definitions claim one name. -/
  | nameClash (name : String) (owner other : DefinitionId)
  | keyNotString
  | unresolved (name : String)
  | unknownDefinition (id : DefinitionId)
  /-- A model that is not retained refers to itself. -/
  | selfReference (model : String)

def Failure.reason : Failure → String
  | .nameClash name owner other =>
      "definition name `" ++ name ++ "` is used by both " ++ owner.display ++ " and "
        ++ other.display
  | .keyNotString => "dictionary keys must serialize to strings"
  | .unresolved name => "type `" ++ name ++ "` cannot be expressed in JSON Schema"
  | .unknownDefinition id => "reference to unknown definition " ++ id.display
  | .selfReference model =>
      "excluded model `" ++ model ++ "` references itself and cannot be inlined"

/-- A failure with the model and the field where it arose. -/
structure SynthesisError where
  model : String
  field : Option String
  failure : Failure

def SynthesisError.message (e : SynthesisError) : String :=
  let field :=
    match e.field with
    | some f => "." ++ f
    | none => ""
  "cannot generate schema for `" ++ e.model ++ field ++ "`: " ++ e.failure.reason

namespace Synthesis

/-- The inputs of a synthesis: `retained` gives the definition name of each retained model, the last
one first. -/
structure Context where
  catalog : Catalog
  options : Options
  retained : List (DefinitionId × String)

/-- The names claimed so far with their owners, and the enumerations met so far. -/
structure State where
  owners : List (String × DefinitionId)
  enums : List (String × Json)

abbrev Build := StateT State (Except SynthesisError)

/-- The field being written. -/
structure Place where
  model : String
  field : String

def refuse {α : Type} (p : Place) (f : Failure) : Build α := throw ⟨p.model, some p.field, f⟩

/-- Reserves a definition name. -/
def claim (name : String) (id : DefinitionId) (model : String) (field : Option String) :
    Build Unit := do
  let s ← get
  match s.owners.lookup name with
  -- A name may be claimed again by its owner, as by a model that is referred to twice.
  | some owner => if owner = id then return () else throw ⟨model, field, .nameClash name owner id⟩
  | none => set { s with owners := s.owners ++ [(name, id)] }

/-! ## Values -/

/-- The type keyword of a literal value. -/
def kindOf : Json → Option String
  | .str _ => some "string"
  | .bool _ => some "boolean"
  | .num (.int _) => some "integer"
  | .num (.float _) => some "number"
  | _ => none

/-- The type keyword that all values share. -/
def commonType (values : List Json) : Option String :=
  match values with
  | [] => none
  | first :: _ =>
      -- Whole numbers and others have no common type here.
      match kindOf first with
      | some kind => if values.all (fun v => kindOf v == some kind) then some kind else none
      | none => none

/-- The members of a schema that lists its values. -/
def valuesSchema (values : List Json) : List (String × Json) :=
  ("enum", .arr values)
    :: (match commonType values with
        | some kind => [("type", .str kind)]
        | none => [])

def enumSchema (e : Enumeration) : Json :=
  .obj
    (("title", .str e.name)
      :: (match e.docs with
          | some docs => [("description", .str docs)]
          | none => [])
      ++ valuesSchema e.values)

mutual

/-- Whether values of the type are written as strings when they are keys. -/
def isStringKey (catalog : Catalog) : FieldType → Bool
  | .any => true
  | .bool => true
  | .int => true
  | .float => true
  | .str => true
  | .bytes => true
  | .decimal => true
  | .formatted _ => true
  | .literal _ => true
  | .union members => areStringKeys catalog members
  -- The values of an enumeration are written as they are, and a model is no key.
  | .ref id => (catalog.enum? id).isSome
  | _ => false

def areStringKeys (catalog : Catalog) : List FieldType → Bool
  | [] => true
  | ty :: rest => isStringKey catalog ty && areStringKeys catalog rest

end

/-! ## Types -/

def typed (kind : String) : Json := .obj [("type", .str kind)]

def formatted (format : String) : Json := .obj [("type", .str "string"), ("format", .str format)]

def anyOf (members : List Json) : Json := .obj [("anyOf", .arr members)]

/-- A list of fixed length. -/
def tupleOf (draft : Draft) (items : List Json) : Json :=
  -- The same schemas stand under another keyword in the older draft.
  let key :=
    match draft with
    | .draft2020 => "prefixItems"
    | .draft07 => "items"
  .obj
    [("type", .str "array"), (key, .arr items), ("minItems", Json.ofNat items.length),
      ("maxItems", Json.ofNat items.length)]

/-- A reference to a retained model or an enumeration, or the model in place. `inline` writes a model
that is not being written already. -/
def reference (c : Context) (inline : Model → Build Json) (stack : List DefinitionId) (p : Place)
    (id : DefinitionId) : Build Json := do
  match c.retained.lookup id with
  | some name => return refTo c.options.draft name
  | none =>
      match c.catalog.enum? id with
      | some e =>
          -- An enumeration gets its name when it is met for the first time.
          claim e.name id p.model (some p.field)
          modify fun s =>
            if s.enums.any (·.1 == e.name) then s
            else { s with enums := s.enums ++ [(e.name, enumSchema e)] }
          return refTo c.options.draft e.name
      | none =>
          match c.catalog.model? id with
          | none => refuse p (.unknownDefinition id)
          | some m => if stack.contains id then refuse p (.selfReference m.name) else inline m

mutual

def typeSchema (c : Context) (inline : Model → Build Json) (stack : List DefinitionId) (p : Place) :
    FieldType → Build Json
  | .any => return .obj []
  | .null => return typed "null"
  | .bool => return typed "boolean"
  | .int => return typed "integer"
  | .float => return typed "number"
  | .str => return typed "string"
  | .decimal => return typed "string"
  | .bytes => return formatted "binary"
  | .formatted f => return formatted f.keyword
  | .list item => do
      let item ← typeSchema c inline stack p item
      return .obj [("type", .str "array"), ("items", item)]
  | .set item => do
      let item ← typeSchema c inline stack p item
      return .obj [("type", .str "array"), ("items", item), ("uniqueItems", .bool true)]
  -- Any number of anything, and below any number of the first item.
  | .tuple [] true => return .obj [("type", .str "array"), ("items", .obj [])]
  | .tuple (item :: _) true => do
      let item ← typeSchema c inline stack p item
      return .obj [("type", .str "array"), ("items", item)]
  | .tuple items false => do return tupleOf c.options.draft (← typeSchemas c inline stack p items)
  | .dict key value => do
      if isStringKey c.catalog key then
        let values ←
          -- Values of any type are `true` and not an empty schema.
          match value with
          | .any => pure (.bool true)
          | value => typeSchema c inline stack p value
        return .obj [("type", .str "object"), ("additionalProperties", values)]
      else refuse p .keyNotString
  | .optional inner => do
      let inner ← typeSchema c inline stack p inner
      return anyOf [inner, typed "null"]
  | .union members => do return anyOf (← typeSchemas c inline stack p members)
  | .literal values => return .obj (valuesSchema values)
  | .ref id => reference c inline stack p id
  | .unresolved name => refuse p (.unresolved name)

def typeSchemas (c : Context) (inline : Model → Build Json) (stack : List DefinitionId)
    (p : Place) : List FieldType → Build (List Json)
  | [] => return []
  | ty :: rest => do
      let first ← typeSchema c inline stack p ty
      return first :: (← typeSchemas c inline stack p rest)

end

/-! ## Fields -/

/-- Adds a keyword. In draft 07 a reference takes no keywords beside it and is wrapped first. -/
def annotate (draft : Draft) (key : String) (value : Json) (schema : Json) : Json :=
  let wrapped :=
    match draft with
    | .draft07 => if (schema.get? "$ref").isSome then Json.obj [("allOf", .arr [schema])] else schema
    | .draft2020 => schema
  match wrapped with
  | .obj members => .obj (Json.insert key value members)
  | other => other

/-- Adds a keyword if there is a value for it. -/
def annotate? (draft : Draft) (key : String) (value : Option Json) (schema : Json) : Json :=
  match value with
  | some value => annotate draft key value schema
  | none => schema

def isStringSchema (schema : Json) : Bool :=
  match schema.get? "type" with
  | some (.str "string") => true
  | _ => false

/-- The bounds as keywords, in the order in which they are added; a length counts characters or
items. -/
def constraintKeywords (c : Constraints) (isString : Bool) : List (String × Option Json) :=
  [("minimum", c.minimum), ("exclusiveMinimum", c.exclusiveMinimum), ("maximum", c.maximum),
    ("exclusiveMaximum", c.exclusiveMaximum),
    (if isString then "minLength" else "minItems", c.minLength.map Json.ofNat),
    (if isString then "maxLength" else "maxItems", c.maxLength.map Json.ofNat),
    ("pattern", c.pattern.map .str)]

def constrain (draft : Draft) (c : Constraints) (schema : Json) : Json :=
  (constraintKeywords c (isStringSchema schema)).foldl (fun s k => annotate? draft k.1 k.2 s) schema

def literalDefault? : FieldDefault → Option Json
  | .literal value => some value
  | _ => none

/-- What follows the type: bounds, `null`, and the annotations. -/
def decorate (o : Options) (f : Field) (nullable : Bool) (schema : Json) : Json :=
  let bounded := constrain o.draft f.constraints schema
  -- The bounds are those of the values other than `null`.
  let withNull :=
    match nullable, o.nullable with
    | true, .union => anyOf [bounded, typed "null"]
    | _, _ => bounded
  let described := annotate? o.draft "description" (f.description.map .str) withNull
  let defaulted := annotate? o.draft "default" (literalDefault? f.default) described
  if f.computed then annotate o.draft "readOnly" (.bool true) defaulted else defaulted

def fieldSchema (c : Context) (inline : Model → Build Json) (stack : List DefinitionId)
    (model : String) (f : Field) : Build Json := do
  let p : Place := ⟨model, f.name⟩
  match f.type with
  | .optional inner => return decorate c.options f true (← typeSchema c inline stack p inner)
  | ty => return decorate c.options f false (← typeSchema c inline stack p ty)

def propertyName (o : Options) (f : Field) : String :=
  match f.alias? with
  | some name => name
  | none => if o.toCamel then toCamel f.name else f.name

def isRequired (o : Options) (f : Field) : Bool :=
  -- A computed field is always written.
  f.computed
    || match o.nullable with
      | .union => !f.hasDefault
      | .optional => !f.hasDefault && !f.type.isOptional

/-! ## Models -/

def additionalProperties (o : Options) (extra : Option ExtraFields) : List (String × Json) :=
  match extra with
  | some .allow => [("additionalProperties", .bool true)]
  | some .forbid => [("additionalProperties", .bool false)]
  -- The policy to ignore other names is not a keyword, and neither is the lack of a policy.
  | _ => if o.forbidUnlessAllowed then [("additionalProperties", .bool false)] else []

/-- The members of an object schema around its properties. -/
def objectMembers (o : Options) (m : Model) (titled : Bool) (properties : List (String × Json)) :
    List (String × Json) :=
  let required := (m.fields.filter (isRequired o)).map (propertyName o)
  (if titled then [("title", .str m.name)] else [])
    ++ (match m.docs with
        | some docs => [("description", .str docs)]
        | none => [])
    ++ [("type", .str "object"), ("properties", .obj (Json.insertAll [] properties))]
    ++ (if required.isEmpty then [] else [("required", Json.strings required)])
    ++ additionalProperties o m.extra

def properties (c : Context) (inline : Model → Build Json) (stack : List DefinitionId)
    (model : String) : List Field → Build (List (String × Json))
  | [] => return []
  | f :: rest => do
      let schema ← fieldSchema c inline stack model f
      return (propertyName c.options f, schema) :: (← properties c inline stack model rest)

/-- `depth` bounds how many models are written inside each other; `stack` holds those that are. -/
def objectSchema (c : Context) (titled : Bool) (stack : List DefinitionId) (m : Model) :
    Nat → Build Json
  | 0 => throw ⟨m.name, none, .selfReference m.name⟩
  | depth + 1 => do
      let inline := fun (inner : Model) => objectSchema c false (inner.id :: stack) inner depth
      return .obj (objectMembers c.options m titled (← properties c inline stack m.name m.fields))

/-- No more models can be inside each other than the catalog holds. -/
def modelSchema (c : Context) (m : Model) : Build Json :=
  objectSchema c true [] m (c.catalog.allModels.length + 1)

def claimAll : List Model → Build Unit
  | [] => return ()
  | m :: rest => do
      claim m.name m.id m.name none
      claimAll rest

def modelSchemas (c : Context) : List Model → Build (List (String × Json))
  | [] => return []
  | m :: rest => do
      let schema ← modelSchema c m
      return (m.name, schema) :: (← modelSchemas c rest)

end Synthesis

/-! ## Documents -/

/-- Enumerations follow the models, ordered by name. -/
def definitionsOf (models enums : List (String × Json)) : List (String × Json) :=
  Json.insertAll (Json.insertAll [] models)
    (enums.mergeSort fun a b => decide (a.1 ≤ b.1))

def synthesize (models : List Model) (catalog : Catalog) (options : Options) :
    Except SynthesisError Document := do
  let c : Synthesis.Context :=
    { catalog, options, retained := (models.map fun m => (m.id, m.name)).reverse }
  let build : Synthesis.Build (List (String × Json)) := do
    -- All names of models are claimed before an enumeration is met.
    Synthesis.claimAll models
    Synthesis.modelSchemas c models
  let (schemas, state) ← build.run ⟨[], []⟩
  -- The name of the whole document is none of the names in it: that of `uniqueName`, while this can count.
  let aggregator := titleName options.aggregatorName (state.owners.map Prod.fst)
  return {
    draft := options.draft
    root := aggregateRoot aggregator (models.map (·.name)) options.draft options.inclusion
    definitions := definitionsOf schemas state.enums
    inclusion := options.inclusion
    aggregator }

end Schema
end WireTypes
