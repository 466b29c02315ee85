import WireTypes.Definition.Id
import WireTypes.Discovery.Frontier
import WireTypes.Discovery.Layout
import WireTypes.Python.Module

/-!
# SourceModule — a module with the meaning of its names

- `LoadError` says why a module cannot be used;
- `SourceModule.load` reads a module and binds the names that it imports or defines, together with
  the modules that it needs.

Names are bound in the order of the imports, then by plain assignments, then by classes: the last
binding of a name counts.
-/

namespace WireTypes
namespace Discovery

/-- What a name of a module stands for. -/
inductive Binding
  /-- A class of the module itself. -/
  | classDef
  | alias (value : Python.Expr)
  /-- A name of another module of the tree. -/
  | imported (key : Path) (name : String)
  | module (key : Path)
  /-- A qualified name from outside the roots. -/
  | external (name : String)

def Binding.isClass : Binding → Bool
  | .classDef => true
  | _ => false

structure SourceModule where
  key : Path
  dotted : String
  /-- The directory of its submodules, if it is a package. -/
  packageDirectory : Option Path
  content : Python.Module
  /-- The latest binding of a name comes first. -/
  bindings : List (String × Binding)
  /-- Modules whose names are all imported. -/
  stars : List Path
  /-- The entry module or a module of its package. -/
  inScope : Bool

namespace SourceModule

def binding? (m : SourceModule) (name : String) : Option Binding := m.bindings.lookup name

/-- The identity of a class of the module. -/
def classId (m : SourceModule) (name : String) : DefinitionId := ⟨m.key.display, name⟩

def class? (m : SourceModule) (name : String) : Option Python.ClassDecl := m.content.class? name

end SourceModule

inductive LoadError
  | notFound (entry : String) (roots : List Path)
  /-- The file is no text. -/
  | unreadable (key : Path)
  | malformed (key : Path) (error : Python.Module.SyntaxError)
  /-- A relative import without a target. -/
  | unresolvedImport (key : Path) (target : String)

def LoadError.message : LoadError → String
  | .notFound entry roots =>
      "module `" ++ entry ++ "` not found (searched "
        ++ ", ".intercalate (roots.map Path.display) ++ ")"
  | .unreadable key =>
      "failed to read " ++ key.display ++ ": stream did not contain valid UTF-8"
  | .malformed key e => "cannot load " ++ key.display ++ ": " ++ e.message
  | .unresolvedImport key target => "unresolved import `" ++ target ++ "` in " ++ key.display

/-! ## Imports -/

/-- What the imports of a module add up to. -/
structure Links where
  bindings : List (String × Binding)
  stars : List Path
  edges : List (Path × Edge)

namespace Links

def empty : Links := ⟨[], [], []⟩

def bind (l : Links) (name : String) (b : Binding) : Links :=
  { l with bindings := (name, b) :: l.bindings }

def needs (l : Links) (target : Path) : Links :=
  { l with edges := l.edges ++ [(target, .imported)] }

def needsAll (l : Links) (targets : List Path) : Links := targets.foldl needs l

/-- A module of the tree or an external name. -/
def moduleOr (target : Option Path) (name : String) : Binding :=
  match target with
  | some key => .module key
  | none => .external name

/-- The packages around a dotted name, outermost first. -/
def enclosing (segments : List String) : List (List String) :=
  (List.range segments.length).tail.map fun n => segments.take n

/-- `import a.b.c` needs `a` and `a.b` too, and binds `a` unless it has an alias. -/
def importModule (t : FileTree) (roots : List Path) (l : Links) (name : String)
    (rename : Option String) : Links :=
  let segments := name.splitOn "."
  let target := findModule? t roots segments
  -- The packages around the module are loaded before it.
  let l := l.needsAll ((enclosing segments).filterMap (findModule? t roots) ++ target.toList)
  match rename with
  | some new => l.bind new (moduleOr target name)
  | none =>
      -- Without another name, only the outermost package is bound.
      let head := segments.headD name
      l.bind head (moduleOr (findModule? t roots [head]) head)

/-- A submodule comes before a name of the package. -/
def importName (t : FileTree) (target : Path) (l : Links) (n : Python.ImportedName) : Links :=
  -- Only a package has submodules.
  match (packageDirectory? t target).bind fun directory => moduleAt? t directory [n.name] with
  | some submodule => (l.needs submodule).bind n.binding (.module submodule)
  | none => l.bind n.binding (.imported target n.name)

/-- `from target import ...` with a module of the tree. -/
def importNames (t : FileTree) (l : Links) (target : Path) (names : List Python.ImportedName)
    (star : Bool) : Links :=
  let l := names.foldl (importName t target) (l.needs target)
  if star then { l with stars := l.stars ++ [target] } else l

/-- `from target import ...` with a module outside the roots. -/
def importExternal (l : Links) (target : String) (names : List Python.ImportedName) : Links :=
  names.foldl (fun l n => l.bind n.binding (.external (target ++ "." ++ n.name))) l

end Links

/-- The directory that a relative import starts from: one dot is the package of the module. -/
def relativeBase? (t : FileTree) (key : Path) (level : Nat) : Option Path :=
  match packageDirectory? t key with
  | some directory => climb (level - 1) directory
  -- A plain module stands in its package.
  | none => key.parent?.bind (climb (level - 1))
where
  climb : Nat → Path → Option Path
    | 0, directory => some directory
    | n + 1, directory => directory.parent?.bind (climb n)

/-- The segments of a dotted name that may be missing. -/
def segmentsOf (name : Option String) : List String :=
  match name with
  | some n => n.splitOn "."
  | none => []

/-- Adds one import. Only a relative import must have a target. -/
def link (t : FileTree) (roots : List Path) (key : Path) (l : Links) :
    Python.Import → Except LoadError Links
  | .modules name rename => .ok (l.importModule t roots name rename)
  -- An absolute import may lead out of the tree, and a relative one may not.
  | .names 0 name names star =>
      match findModule? t roots (segmentsOf name) with
      | some target => .ok (l.importNames t target names star)
      | none => .ok (l.importExternal (name.getD "") names)
  | .names (level + 1) name names star =>
      match (relativeBase? t key (level + 1)).bind fun base =>
          moduleAt? t base (segmentsOf name) with
      | some target => .ok (l.importNames t target names star)
      | none =>
          .error (.unresolvedImport key
            (String.ofList (List.replicate (level + 1) '.') ++ name.getD ""))

/-! ## Loading -/

/-- The content of a module; a directory has none. -/
def readContent (t : FileTree) (key : Path) : Except LoadError Python.Module :=
  -- A package without a file.
  if t.isDirectory key then .ok Python.Module.empty
  else
    match t.readText? key with
    | none => .error (.unreadable key)
    | some text =>
        match Python.Module.read text with
        | .ok content => .ok content
        | .error e => .error (.malformed key e)

/-- What assignments and classes bind, latest first. -/
def ownBindings (content : Python.Module) : List (String × Binding) :=
  (content.aliases.map (fun a => (a.1, Binding.alias a.2))
    ++ content.classes.map (fun c => (c.name, Binding.classDef))).reverse

/-- A module and the modules that it needs. -/
def SourceModule.load (t : FileTree) (roots : List Path) (inScope : Path → Bool) (key : Path) :
    Except LoadError (SourceModule × List (Path × Edge)) := do
  let content ← readContent t key
  -- The imports are linked in their order, since later bindings hide earlier ones.
  let links ← content.imports.foldlM (link t roots key) Links.empty
  return (
    { key
      dotted := dottedName t key
      packageDirectory := packageDirectory? t key
      content
      bindings := ownBindings content ++ links.bindings
      stars := links.stars
      inScope := inScope key },
    links.edges)

/-! ## The modules of an entry -/

/-- The modules in the package of a module, breadth first. -/
def packageTree (t : FileTree) (key : Path) : List Path :=
  -- The module itself comes first, and is left out.
  ((Frontier.start t.paths key).drain (submodules t)).tail

/-- Loads an entry module, the modules of its package, and what these import. -/
def traverse (t : FileTree) (roots : List Path) (entry : Path) :
    Except LoadError (List SourceModule) :=
  let scope := packageTree t entry
  -- The children are queued before anything is loaded.
  let start := (Frontier.start t.paths entry).followAll (scope.map fun key => (key, .child))
  start.explore (SourceModule.load t roots fun key => key == entry || scope.contains key)

/-- The roots and the directory around the package of the entry. -/
def rootsFor (t : FileTree) (roots : List Path) (entry : Path) : List Path :=
  match enclosingRoot? t entry with
  | some directory => if roots.contains directory then roots else roots ++ [directory]
  | none => roots

/-- The modules that an entry, named by path or by dotted name, leads to. -/
def modulesOf (t : FileTree) (namedRoots : List String) (entry : String) :
    Except LoadError (List SourceModule) :=
  let roots := searchRoots t namedRoots
  match entryKey? t roots entry with
  | some key => traverse t (rootsFor t roots key) key
  | none => .error (.notFound entry roots)

end Discovery
end WireTypes
