import WireTypes.Discovery.SourceModule

/-!
# Symbol — what names stand for

- `Program.lookup` finds a name of a module, through aliases, imports and star imports;
- `Program.resolve` finds a dotted name; a name that leads nowhere is external;
- `Program.classDecl?` finds the class of an identity.

Chains of aliases and re-exports are followed for a limited number of steps, so that circular ones end.
-/

namespace WireTypes
namespace Resolution

open Discovery Python

/-- The modules that were loaded, in order of their visit. -/
abbrev Program := List SourceModule

inductive Symbol
  | classDef (id : DefinitionId)
  | module (key : Path)
  | external (name : String)
  /-- A subscript or a union, and the module that writes it. -/
  | typeAlias (home : SourceModule) (hint : TypeHint)
  | typeVar

def Symbol.isTypeVar : Symbol → Bool
  | .typeVar => true
  | _ => false

/-! ## Aliases -/

/-- What the right side of a plain assignment stands for. -/
inductive AliasTarget
  /-- A name, inside a number of new types. -/
  | named (levels : Nat) (name : String)
  | type (hint : TypeHint)
  | typeVar

def AliasTarget.deeper : AliasTarget → AliasTarget
  | .named levels name => .named (levels + 1) name
  | target => target

/-- `TypeVar(...)` is a variable, and `NewType(name, type)` stands for its type. -/
def aliasTarget? : Expr → Option AliasTarget
  | .name name => some (.named 0 name)
  | .type hint => some (.type hint)
  | .call function args _ =>
      if Expr.lastSegmentOf function = "TypeVar" then some .typeVar
      else if Expr.lastSegmentOf function = "NewType" then
        -- The first argument of `NewType` is its own name.
        match args with
        | _ :: inner :: _ => (aliasTarget? inner).map AliasTarget.deeper
        | _ => none
      else none
  | _ => none

namespace Program

/-! ## Modules and classes -/

def module? (p : Program) (key : Path) : Option SourceModule := p.find? (·.key = key)

/-- The class of an identity, with its module. -/
def classDecl? (p : Program) (id : DefinitionId) : Option (SourceModule × ClassDecl) := do
  let m ← p.find? (·.key.display = id.module)
  let c ← m.class? id.name
  return (m, c)

/-- The place where a module stands in its package. -/
def placeOf (m : SourceModule) : Path := m.packageDirectory.getD m.key.withoutExtension

/-- A loaded module directly below a package. -/
def submodule? (p : Program) (m : SourceModule) (name : String) : Option Symbol := do
  let directory ← m.packageDirectory
  let found ← p.find? (placeOf · = directory ++ [name])
  return .module found.key

/-! ## Look-up -/

/-- The number of steps that are taken from one name to another. -/
def stepLimit : Nat := 33

mutual

/-- A name of a module. Names that start with an underscore do not pass through star imports, and of
several star imports the first one that has the name counts. -/
def lookup (p : Program) (steps : Nat) (m : SourceModule) (name : String) : Option Symbol :=
  match steps with
  | 0 => none
  | rest + 1 =>
      match m.binding? name with
      | some .classDef => some (.classDef (m.classId name))
      | some (.alias value) =>
          match aliasTarget? value with
          | some (.named levels target) =>
              -- A new type inside another one takes a step of its own.
              some ((resolveAt p (rest - levels) m target).getD (.external target))
          | some (.type hint) => some (.typeAlias m hint)
          | some .typeVar => some .typeVar
          | none => none
      -- The name is looked up where it was imported from.
      | some (.imported key target) => member p rest key target
      | some (.module key) => some (.module key)
      | some (.external qualified) => some (.external qualified)
      | none =>
          if name.startsWith "_" then none else m.stars.findSome? fun key => member p rest key name
termination_by 2 * steps

/-- A dotted name: each further segment is a member of the module before it. -/
def resolveAt (p : Program) (steps : Nat) (m : SourceModule) (dotted : String) : Option Symbol :=
  match steps with
  | 0 => none
  | rest + 1 =>
      match dotted.splitOn "." with
      | [] => none
      | head :: segments =>
          -- The first segment is a name of the module itself.
          (lookup p (rest + 1) m head).bind fun first =>
            segments.foldlM
              (fun symbol segment =>
                match symbol with
                | .module key => member p rest key segment
                -- What is outside is not looked into.
                | .external qualified => some (.external (qualified ++ "." ++ segment))
                | _ => none)
              first
termination_by 2 * steps + 1

/-- A member of a module of the tree: one of its names, else a submodule. -/
def member (p : Program) (steps : Nat) (key : Path) (name : String) : Option Symbol :=
  match p.module? key with
  | none => none
  | some m =>
      match lookup p steps m name with
      -- A name of a package comes before a submodule.
      | some symbol => some symbol
      | none => p.submodule? m name
termination_by 2 * steps + 1

end

/-- A dotted name as a module sees it. -/
def resolve (p : Program) (m : SourceModule) (dotted : String) : Symbol :=
  (p.resolveAt stepLimit m dotted).getD (.external dotted)

/-! ## Names in scope -/

/-- The names that a star import of a module brings, through its own star imports. -/
def starNames (p : Program) : Nat → Path → List String
  | 0, _ => []
  | steps + 1, key =>
      match p.module? key with
      | none => []
      | some m =>
          (m.bindings.map (·.1)).filter (!·.startsWith "_") ++ m.stars.flatMap (p.starNames steps)

/-- The names that a module binds, its own classes left out, in order. -/
def boundNames (p : Program) (m : SourceModule) : List String :=
  -- The classes of the module are listed apart.
  let own := (m.bindings.map (·.1)).filter fun name => !(m.binding? name).any Binding.isClass
  (own ++ m.stars.flatMap (p.starNames stepLimit)).eraseDups.mergeSort fun a b => decide (a ≤ b)

/-- The names of classes, each at its last definition. -/
def lastNames : List ClassDecl → List String
  | [] => []
  | c :: rest => if rest.any (·.name == c.name) then lastNames rest else c.name :: lastNames rest

/-- The classes that a module defines. -/
def ownClassIds (m : SourceModule) : List DefinitionId :=
  (lastNames m.content.classes).map m.classId

/-- The classes of all modules. -/
def classIds (p : Program) : List DefinitionId := p.flatMap ownClassIds

/-- The classes that a module binds by import or alias. -/
def boundClassIds (p : Program) (m : SourceModule) : List DefinitionId :=
  (p.boundNames m).filterMap fun name =>
    match p.lookup stepLimit m name with
    | some (.classDef id) => some id
    | _ => none

/-- The classes that the modules in scope define or bind, each once. -/
def scopeIds (p : Program) : List DefinitionId :=
  ((p.filter (·.inScope)).flatMap fun m => ownClassIds m ++ p.boundClassIds m).eraseDups

/-- The dotted name of the module and the name. -/
def qualname (m : SourceModule) (name : String) : String :=
  if m.dotted.isEmpty then name else m.dotted ++ "." ++ name

end Program

end Resolution
end WireTypes
