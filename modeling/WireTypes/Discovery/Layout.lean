import WireTypes.Files.Tree
import WireTypes.Text.Letters

/-!
# Layout — where the modules of a source tree are

A module is known by its `key`: the path of its file, of the `__init__.py` of a package, or of the
directory of a package without one. Keys have no links in them, so that a module has one key however it
is reached.

- `moduleAt?` finds a dotted name below a directory;
- `entryKey?` finds the module that a user names by path or by dotted name;
- `packageChildren` lists the modules directly in a package.
-/

namespace WireTypes
namespace Discovery

def fileExtension : String := "py"

/-- The file of a package. -/
def packageFile : String := "__init__." ++ fileExtension

/-- The file of a package in a directory. -/
def packageFileIn (directory : Path) : Path := directory ++ [packageFile]

def isPackageFile (key : Path) : Bool := key.fileName? = some packageFile

/-- The directory of the modules that belong to a module, if it is a package. -/
def packageDirectory? (t : FileTree) (key : Path) : Option Path :=
  if t.isDirectory key then some key
  else if isPackageFile key then key.parent?
  else none

/-! ## Names to modules -/

/-- The file beside a directory of the same name. -/
def fileFor? (directory : Path) (segments : List String) : Option Path :=
  segments.getLast?.map fun last =>
    (directory ++ segments).withFileName (last ++ "." ++ fileExtension)

/-- A package file comes before a plain file, and that before a directory. -/
def moduleAt? (t : FileTree) (directory : Path) (segments : List String) : Option Path :=
  let place := directory ++ segments
  -- A package hides a module of the same name beside it.
  if t.isFile (packageFileIn place) then t.canonical? (packageFileIn place)
  else
    match (fileFor? directory segments).filter t.isFile with
    | some file => t.canonical? file
    | none => if t.isDirectory place then t.canonical? place else none

/-- The first root that has the module decides. -/
def findModule? (t : FileTree) (roots : List Path) (segments : List String) : Option Path :=
  if segments.isEmpty then none else roots.findSome? fun root => moduleAt? t root segments

/-! ## Roots -/

/-- The directories that are searched: the named ones that exist, each once. -/
def searchRoots (t : FileTree) (named : List String) : List Path :=
  let places := if named.isEmpty then [t.workingDirectory] else named.filterMap t.find?
  (places.filter t.isDirectory).eraseDups

/-- Leaves the directories that have a package file; there is none above the root of the tree. -/
def leavePackages? (t : FileTree) (directory : Path) : Option Path :=
  if t.isFile (packageFileIn directory) then
    -- The root of the tree has no directory around it.
    if _h : directory = [] then none else leavePackages? t directory.dropLast
  else some directory
termination_by directory.length
decreasing_by
  have : 0 < directory.length := List.length_pos_iff.mpr (by assumption)
  simp only [List.length_dropLast]
  omega

/-- The directory around the outermost package of a module. -/
def enclosingRoot? (t : FileTree) (key : Path) : Option Path :=
  if t.isDirectory key then leavePackages? t key
  else key.parent?.bind (leavePackages? t)

/-! ## The entry module -/

def isIdentifier (s : String) : Bool :=
  match s.toList with
  | [] => false
  | c :: rest =>
      (Text.isAlphabetic c || c == '_') && rest.all fun c => Text.isAlphanumeric c || c == '_'

/-- The module at a place that exists. -/
def keyOf (t : FileTree) (place : Path) : Path :=
  if t.isDirectory place && t.isFile (packageFileIn place) then packageFileIn place else place

/-- A path that exists, else a dotted name below the roots. -/
def entryKey? (t : FileTree) (roots : List Path) (entry : String) : Option Path :=
  match t.find? entry with
  | some place => some (keyOf t place)
  | none =>
      -- What is no path may be a dotted name.
      let segments := entry.splitOn "."
      if segments.all isIdentifier then findModule? t roots segments else none

/-! ## Packages -/

/-- Names that are no modules. -/
def isHidden (name : String) : Bool := name.startsWith "." || name.startsWith "__pycache__"

/-- The module that an entry of a package directory stands for. -/
def childKey? (t : FileTree) (directory : Path) (name : String) (entry : FileTree.Entry) :
    Option Path :=
  let place := directory ++ [name]
  if isHidden name then none
  else if entry.isDirectory then
    -- A directory without a package file is not listed.
    if t.isFile (packageFileIn place) then t.canonical? (packageFileIn place) else none
  else if name != packageFile && Path.extensionOf? name == some fileExtension then
    t.canonical? place
  else none

/-- The modules directly in a package directory, in order of names. -/
def packageChildren (t : FileTree) (directory : Path) : List Path :=
  (t.children directory).filterMap fun (name, entry) => childKey? t directory name entry

/-- The modules directly in a module. -/
def submodules (t : FileTree) (key : Path) : List Path :=
  match packageDirectory? t key with
  | some directory => packageChildren t directory
  | none => []

/-! ## Dotted names -/

/-- The names of the packages around a directory, innermost first. -/
def packageNames (t : FileTree) (directory : Path) : List String :=
  if t.isFile (packageFileIn directory) then
    match _h : directory.getLast? with
    | none => []
    | some name => name :: packageNames t directory.dropLast
  else []
termination_by directory.length
decreasing_by
  have : directory ≠ [] := by
    intro hnil
    simp_all
  have : 0 < directory.length := List.length_pos_iff.mpr this
  simp only [List.length_dropLast]
  omega

/-- The names of the packages around a module and its own. -/
def dottedName (t : FileTree) (key : Path) : String :=
  -- A package is named by its directory, and another module by its file.
  let base := (packageDirectory? t key).getD key.withoutExtension
  let around :=
    match base.parent? with
    | some directory => packageNames t directory
    | none => []
  ".".intercalate (around.reverse ++ base.fileName?.toList)

end Discovery
end WireTypes
