import WireTypes.Resolution.FieldOptions
import WireTypes.Resolution.FieldTypes
import WireTypes.Text.Case

/-!
# Models — the definitions of classes

- `ClassifiedProgram.model` builds the model of a class from its bases and its own fields, with types
  for the type parameters;
- `ClassifiedProgram.enumeration?` lists the values of an enumeration.

Fields of bases come first, those of the last base in front; a field that is declared again keeps its
place and takes the new declaration.
-/

namespace WireTypes

namespace Field

/-- Puts a field in the place of the one of that name, or at the end. -/
def upsert (fields : List Field) (f : Field) : List Field :=
  match fields with
  | [] => [f]
  | g :: rest => if g.name = f.name then f :: rest else g :: upsert rest f

def upsertAll (fields new : List Field) : List Field := new.foldl upsert fields

end Field

namespace Resolution

open Discovery Python

/-- What is kept while models are built: instances to build, and finished models without arguments. -/
structure Building where
  instances : List Instance
  finished : List (DefinitionId × Model)

namespace Building

def empty : Building := ⟨[], []⟩

/-- Resolves a type while models are built. -/
def resolving {α : Type} (act : Resolving α) : StateM Building α := fun b =>
  let (a, instances) := act.run b.instances
  (a, { b with instances })

end Building

namespace ClassifiedProgram

/-! ## Fields -/

/-- Whether an annotation, perhaps in quotation marks, is `ClassVar`. The text inside quotation marks is
shorter than the text around them. -/
def isClassVarWithin (c : ClassifiedProgram) (m : SourceModule) : Nat → TypeHint → Bool
  | _, .name name => marks name
  | _, .subscript base _ => marks base
  -- A string may be the text of an annotation again.
  | length + 1, .str text =>
      match TypeHint.parse text with
      | .ok inner => isClassVarWithin c m length inner
      | .error _ => false
  | _, _ => false
where
  marks (name : String) : Bool :=
    match c.resolve m name with
    | .external qualified => External.shortName qualified == "ClassVar"
    | _ => false

def isClassVar (c : ClassifiedProgram) (m : SourceModule) (hint : TypeHint) : Bool :=
  match hint with
  | .str text => c.isClassVarWithin m (text.length + 1) (.str text)
  | hint => c.isClassVarWithin m 0 hint

/-- Whether a name of a class is a field. -/
def isFieldName (name : String) : Bool := !name.startsWith "_" && name != "model_config"

/-- The first version of pydantic gives optional fields the default `None`. -/
def withImplicitDefault (isLegacy : Bool) (value : Option Expr) (f : Field) : Field :=
  if isLegacy && f.default.isRequired && f.type.isOptional && !isMarkedRequired value then
    { f with default := .literal .null }
  else f

def field? (c : ClassifiedProgram) (m : SourceModule) (args : TypeArgs) (isLegacy : Bool)
    (a : Attribute) : Resolving (Option Field) := do
  -- Neither names with an underscore nor class variables are fields.
  if !isFieldName a.name || c.isClassVar m a.hint then return none
  let type ← c.typeOf m args a.hint
  return some (withImplicitDefault isLegacy a.value (fieldOf a.name type a.value))

/-- A computed property. Its own description comes before its documentation. -/
def computedField (c : ClassifiedProgram) (m : SourceModule) (args : TypeArgs) (d : Computed) :
    Resolving Field := do
  let type ←
    match d.returns with
    | some hint => c.typeOf m args hint
    | none => pure .any
  return { Field.required d.name type with
    alias? := FieldOptions.text? d.options "alias"
    description := FieldOptions.text? d.options "description" <|> d.docstring
    title := FieldOptions.text? d.options "title"
    computed := true }

/-! ## Policies -/

/-- Whether a chain of bases leads to the first version of pydantic. -/
def isLegacy (c : ClassifiedProgram) : Nat → DefinitionId → Bool
  | 0, _ => false
  | steps + 1, id =>
      match c.modules.classDecl? id with
      | none => false
      | some (m, d) =>
          d.bases.any fun base =>
            -- A base without arguments or with them; other expressions name no class.
            let name? :=
              match base with
              | .name name => some name
              | .type (.subscript name _) => some name
              | _ => none
            match name?.map (c.resolve m) with
            | some (.external qualified) => qualified.startsWith "pydantic.v1."
            | some (.classDef b) => isLegacy c steps b
            | _ => false

/-- The policy of a value of `model_config`. -/
def configPolicy? : Expr → Option ExtraFields
  | .call _ _ named => (Expr.named? "extra" named).bind extraPolicy?
  -- `model_config` is a call with named arguments or a dictionary.
  | .dict entries =>
      (entries.find? fun e => e.1.asString? == some "extra").bind fun e => extraPolicy? e.2
  | _ => none

/-- The policy of a nested `Config` class, or of the class that `Config` names. -/
def configClassPolicy? (c : ClassifiedProgram) (m : SourceModule) (d : ClassDecl) :
    Option ExtraFields :=
  match d.config with
  | some options => (Expr.named? "extra" options).bind extraPolicy?
  | none => do
      let name ← (← Expr.named? "Config" d.assignments).asName?
      match c.resolve m name with
      | .classDef id =>
          let (_, config) ← c.modules.classDecl? id
          extraPolicy? (← Expr.named? "extra" config.assignments)
      | _ => none

/-- The policy that a class sets itself: by keyword, by `model_config`, by `Config`. -/
def ownPolicy? (c : ClassifiedProgram) (m : SourceModule) (d : ClassDecl) : Option ExtraFields :=
  -- The first of the three that gives a policy counts.
  (Expr.named? "extra" d.keywords).bind extraPolicy?
    <|> (Expr.named? "model_config" d.assignments).bind configPolicy?
    <|> c.configClassPolicy? m d

/-! ## Models -/

/-- A base that is a model, with the types of its parameters. -/
def modelBase? (c : ClassifiedProgram) (m : SourceModule) (args : TypeArgs) (base : Expr) :
    Resolving (Option (DefinitionId × TypeArgs)) :=
  match base with
  | .name name =>
      match c.resolve m name with
      -- A base without arguments takes those of the class itself.
      | .classDef id => pure (if (c.kind id).isModel then some (id, args) else none)
      | _ => pure none
  | .type (.subscript name params) =>
      match c.resolve m name with
      | .classDef id => do
          if (c.kind id).isModel then
            let types ← params.mapM (c.typeOf m args)
            return some (id, c.bindParameters id types)
          else return none
      | _ => pure none
  | _ => pure none

/-- The fields of a class: inherited ones, annotated ones, computed ones. -/
def fieldsOf (c : ClassifiedProgram) (m : SourceModule) (id : DefinitionId) (d : ClassDecl)
    (args : TypeArgs) (bases : List Model) : Resolving (List Field) := do
  -- The last base is put in first, so that the first base has the last word.
  let inherited := bases.reverse.foldl (fun fields base => Field.upsertAll fields base.fields) []
  let isLegacy := c.isLegacy Program.stepLimit id
  let own ← d.attributes.filterMapM (c.field? m args isLegacy)
  let computed ← d.computed.mapM (c.computedField m args)
  return Field.upsertAll (Field.upsertAll inherited own) computed

/-- The model of a class of the tree whose bases are built. -/
def assemble (c : ClassifiedProgram) (m : SourceModule) (id : DefinitionId) (d : ClassDecl)
    (args : TypeArgs) (bases : List Model) : Resolving Model := do
  let fields ← c.fieldsOf m id d args bases
  return {
    id
    name := d.name
    qualname := Program.qualname m d.name
    docs := d.docstring
    fields
    -- Without a policy of its own a class has that of the first base with one.
    extra := c.ownPolicy? m d <|> bases.findSome? (·.extra) }

/-- Remembers a model without arguments. -/
def remember (id : DefinitionId) (args : TypeArgs) (model : Model) : StateM Building Unit :=
  modify fun b => if args.isEmpty then { b with finished := (id, model) :: b.finished } else b

/-- The model of a class with types for its parameters. A class has no model while its own bases are
built. -/
def model (c : ClassifiedProgram) :
    Nat → List DefinitionId → DefinitionId → TypeArgs → StateM Building (Option Model)
  | 0, _, _, _ => pure none
  | depth + 1, above, id, args => do
      let known ← get
      -- Only models without arguments are kept.
      match if args.isEmpty then known.finished.lookup id else none with
      | some model => return some model
      | none =>
          -- A class above itself contributes nothing.
          if id ∈ above then return none
          match c.modules.classDecl? id with
          | none => return none
          | some (m, d) =>
              let bases ← d.bases.filterMapM fun base => do
                match ← Building.resolving (c.modelBase? m args base) with
                | some (b, types) => model c depth (id :: above) b types
                | none => return none
              let model ← Building.resolving (c.assemble m id d args bases)
              remember id args model
              return some model

/-- The model of a class with types for its parameters. -/
def modelOf (c : ClassifiedProgram) (id : DefinitionId) (args : TypeArgs) :
    StateM Building (Option Model) :=
  c.model c.modules.classDepth [] id args

/-- A referenced model: an instance of a generic one, or a plain one. -/
def referenced (c : ClassifiedProgram) (id : DefinitionId) : StateM Building (Option Model) := do
  match (← get).instances.find? (·.id == id) with
  | some i =>
      match c.modules.classDecl? i.generic with
      | none => return none
      | some (m, _) =>
          let model? ← c.modelOf i.generic i.args
          return model?.map fun model =>
            -- The model of the class, under the name that shows the arguments.
            { model with id, name := id.name, qualname := Program.qualname m id.name }
  | none => if c.kind id = .model then c.modelOf id [] else return none

/-! ## Enumerations -/

/-- The values so far, and the last whole number among the members. -/
structure Members where
  values : List Json
  lastInt : Int

namespace Members

/-- A member with a value; a value that was there before is another name for its member. -/
def add (s : Members) (value : Json) : Members :=
  { values := if s.values.any (Json.same · value) then s.values else s.values ++ [value]
    lastInt :=
      match value with
      | .num (.int n) => n
      | _ => s.lastInt }

/-- The number after a number of 64 bits; the greatest one has none. -/
def following? (n : Int) : Option Int := if fitsSigned (n + 1) then some (n + 1) else none

/-- An automatic value: the name in lower case, or the number after the last one. -/
def automatic? (byName : Bool) (name : String) (s : Members) : Option Json :=
  if byName then some (.str (Text.lower name)) else (following? s.lastInt).map Json.ofInt

def isAutomatic : Expr → Bool
  | .call function _ _ => Expr.lastSegmentOf function == "auto"
  | _ => false

/-- Only texts and numbers are values. -/
def constant? (e : Expr) : Option Json :=
  match e.toJson? with
  | some (.str s) => some (.str s)
  | some (.num n) => some (.num n)
  | _ => none

/-- Takes in a member. There are no members any more if its number does not fit. -/
def step (byName : Bool) (s : Members) (member : String × Expr) : Option Members :=
  -- Names with an underscore are no members.
  if member.1.startsWith "_" then some s
  else if isAutomatic member.2 then (automatic? byName member.1 s).map s.add
  else
    match constant? member.2 with
    | some value => some (s.add value)
    | none => some s

end Members

/-- The values of an enumeration, in order of their members, if its numbers fit. -/
def enumValues? (byName : Bool) (members : List (String × Expr)) : Option (List Json) :=
  (members.foldlM (Members.step byName) ⟨[], 0⟩).map Members.values

/-- The values of the enumeration that a class is. -/
def valuesOf? (c : ClassifiedProgram) (id : DefinitionId) (d : ClassDecl) : Option (List Json) :=
  enumValues? (c.kind id = .strEnum) d.assignments

/-- An enumeration. If its numbers do not fit, the program stops (`ClassifiedProgram.located?`), and its values
do not matter. -/
def enumeration? (c : ClassifiedProgram) (id : DefinitionId) : Option Enumeration :=
  if (c.kind id).isEnum then
    match c.modules.classDecl? id with
    | none => none
    | some (m, d) =>
        some
          { id
            name := d.name
            qualname := Program.qualname m d.name
            docs := d.docstring
            values := (c.valuesOf? id d).getD [] }
  else none

/-- The numbers of the enumeration fit. -/
def isCounted (c : ClassifiedProgram) (id : DefinitionId) : Bool :=
  match c.modules.classDecl? id with
  | none => true
  | some (_, d) => (c.valuesOf? id d).isSome

end ClassifiedProgram

end Resolution
end WireTypes
