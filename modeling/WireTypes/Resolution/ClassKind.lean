import WireTypes.Resolution.External
import WireTypes.Resolution.Symbol

/-!
# ClassKind — which classes are models and which are enumerations

The kind of a class follows from its bases: those of pydantic and of `enum`, and the kinds of classes of
the tree. A model with type parameters that are not bound is generic.

- `Program.classKinds` classifies every class;
- `Program.typeVars` lists the type variables of a type;
- `ClassifiedProgram.parameters` lists the type parameters of a generic model.
-/

namespace WireTypes
namespace Resolution

open Discovery Python

inductive ClassKind
  | model
  /-- A model with type parameters. -/
  | genericModel
  | enum
  /-- An enumeration whose automatic values are the names of its members. -/
  | strEnum
  | plain
  deriving DecidableEq, Repr

namespace ClassKind

def isModel : ClassKind → Bool
  | .model => true
  | .genericModel => true
  | _ => false

def isEnum : ClassKind → Bool
  | .enum => true
  | .strEnum => true
  | _ => false

/-- The kind of a class from outside the tree. -/
def ofExternal : String → ClassKind
  | "pydantic.BaseModel" | "pydantic.main.BaseModel" | "pydantic.v1.BaseModel"
  | "pydantic.v1.main.BaseModel" => .model
  | "pydantic.generics.GenericModel" | "pydantic.v1.generics.GenericModel" => .genericModel
  | "enum.Enum" | "enum.IntEnum" | "enum.Flag" | "enum.IntFlag" => .enum
  | "enum.StrEnum" => .strEnum
  | _ => .plain

end ClassKind

/-! ## Type variables -/

namespace Program

/-- The type variables in a type, also in the text of forward references. -/
def typeVars (p : Program) (m : SourceModule) : Nat → TypeHint → List String
  | 0, _ => []
  | steps + 1, hint =>
      match hint with
      | .name name => if (p.resolve m name).isTypeVar then [name] else []
      | .subscript _ items => items.flatMap (typeVars p m steps)
      | .union items => items.flatMap (typeVars p m steps)
      | .list items => items.flatMap (typeVars p m steps)
      | .str text =>
          match TypeHint.parse text with
          | .ok inner => typeVars p m steps inner
          | .error _ => []
      | _ => []

def mentionsTypeVar (p : Program) (m : SourceModule) (hint : TypeHint) : Bool :=
  !(p.typeVars m stepLimit hint).isEmpty

/-- Whether a name is the `Generic` of the standard library. -/
def isGenericMarker (p : Program) (m : SourceModule) (name : String) : Bool :=
  match p.resolve m name with
  | .external qualified => External.shortName qualified == "Generic"
  | _ => false

end Program

/-! ## Classification -/

/-- What the bases of a class add up to: its kind, and whether it has type parameters. -/
structure Ancestry where
  kind : ClassKind
  isGeneric : Bool

namespace Ancestry

def none : Ancestry := ⟨.plain, false⟩

/-- The first base that is no plain class decides, and `StrEnum` says more than `Enum`. -/
def add (a base : Ancestry) : Ancestry :=
  -- The kind so far, and that of one more base.
  match a.kind, base.kind with
  | _, .genericModel => ⟨.model, true⟩
  | .plain, kind => ⟨kind, a.isGeneric || base.isGeneric⟩
  -- Automatic values are names as soon as one base says so.
  | .enum, .strEnum => ⟨.strEnum, a.isGeneric || base.isGeneric⟩
  | kind, _ => ⟨kind, a.isGeneric || base.isGeneric⟩

def result (a : Ancestry) : ClassKind :=
  if a.kind = .model ∧ a.isGeneric then .genericModel else a.kind

end Ancestry

/-- The kinds that are known, and the classes whose bases are being looked at. -/
structure Classification where
  kinds : List (DefinitionId × ClassKind)
  visiting : List DefinitionId

namespace Program

/-- What a base contributes, where `classify` gives the kind of a class of the tree. -/
def baseAncestry (p : Program) (m : SourceModule)
    (classify : DefinitionId → StateM Classification ClassKind) :
    Expr → StateM Classification Ancestry
  | .name name =>
      match p.resolve m name with
      | .external qualified => pure ⟨.ofExternal qualified, false⟩
      | .classDef id => do return ⟨← classify id, false⟩
      | _ => pure .none
  | .type (.subscript base args) =>
      match p.resolve m base with
      -- The marker `Generic` makes a class generic, and no other class with arguments says anything.
      | .external qualified => pure ⟨.plain, External.shortName qualified == "Generic"⟩
      | .classDef id => do
          let kind ← classify id
          -- A generic model with arguments is a model again, unless they mention type variables.
          if kind.isModel then return ⟨.model, args.any (p.mentionsTypeVar m)⟩
          else return ⟨kind, false⟩
      | _ => pure .none
  | _ => pure .none

/-- The kind of a class. A class that is met again while its bases are looked at is plain. -/
def classify (p : Program) : Nat → DefinitionId → StateM Classification ClassKind
  | 0, _ => pure .plain
  | depth + 1, id => do
      let known ← get
      match known.kinds.lookup id with
      | some kind => return kind
      | none =>
          -- A class among its own bases.
          if id ∈ known.visiting then return .plain
          -- The class stays marked, also after its bases were looked at.
          set { known with visiting := id :: known.visiting }
          match p.classDecl? id with
          | none => return .plain
          | some (m, c) =>
              let ancestry ← c.bases.foldlM
                (fun a base => do return a.add (← p.baseAncestry m (classify p depth) base))
                Ancestry.none
              modify fun s => { s with kinds := s.kinds ++ [(id, ancestry.result)] }
              return ancestry.result

/-- No chain of bases without repetition is longer. -/
def classDepth (p : Program) : Nat := p.classIds.length + 1

/-- The kinds after one more class was classified. -/
def classifyNext (p : Program) (kinds : List (DefinitionId × ClassKind)) (id : DefinitionId) :
    List (DefinitionId × ClassKind) :=
  ((p.classify p.classDepth id).run ⟨kinds, []⟩).2.kinds

def classKinds (p : Program) : List (DefinitionId × ClassKind) :=
  p.classIds.foldl p.classifyNext []

end Program

/-- Modules with the kinds of their classes. -/
structure ClassifiedProgram where
  modules : Program
  kinds : List (DefinitionId × ClassKind)

def Program.classified (p : Program) : ClassifiedProgram := ⟨p, p.classKinds⟩

namespace ClassifiedProgram

def kind (c : ClassifiedProgram) (id : DefinitionId) : ClassKind :=
  (c.kinds.lookup id).getD .plain

def resolve (c : ClassifiedProgram) (m : SourceModule) (dotted : String) : Symbol :=
  c.modules.resolve m dotted

/-! ## Type parameters -/

/-- The arguments of `Generic[...]`, if that is a base. -/
def markedParameters? (c : ClassifiedProgram) (m : SourceModule) : Expr → Option (List String)
  | .type (.subscript base args) =>
      if c.modules.isGenericMarker m base then some (args.filterMap TypeHint.asName?) else none
  | _ => none

/-- The parameters of `Generic[...]`, else the type variables of the bases in order. -/
def parameters (c : ClassifiedProgram) : Nat → DefinitionId → List String
  | 0, _ => []
  | steps + 1, id =>
      match c.modules.classDecl? id with
      | none => []
      | some (m, d) =>
          -- The order in `Generic[...]` is that of the arguments.
          match d.bases.findSome? (c.markedParameters? m) with
          | some names => names
          | none =>
              (d.bases.flatMap fun base =>
                match base with
                | .type (.subscript _ args) =>
                    args.flatMap (c.modules.typeVars m (steps + 1))
                | .name name =>
                    match c.resolve m name with
                    | .classDef b => if c.kind b = .genericModel then parameters c steps b else []
                    | _ => []
                | _ => []).eraseDups

end ClassifiedProgram

end Resolution
end WireTypes
