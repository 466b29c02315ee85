/-!
# DefinitionId — which class a definition comes from

A definition is identified by the file of its module and its name in that module. Identities are
ordered by the path, component by component, and then by the name: `/a/z.py` comes before `/a.b/c.py`.
-/

namespace WireTypes

structure DefinitionId where
  module : String
  name : String
  deriving DecidableEq, Repr

namespace DefinitionId

/-- A component of a path with its rank: the root, then `.`, then `..`, then a name. -/
def componentKey (s : String) : Nat × String :=
  if s = "." then (1, s) else if s = ".." then (2, s) else (3, s)

/-- Empty components, and `.` other than at the start, do not count. -/
def pathKey (path : String) : List (Nat × String) :=
  match path.splitOn "/" with
  | [""] => []
  | "" :: rest => (0, "") :: (rest.filter fun s => s ≠ "" ∧ s ≠ ".").map componentKey
  | first :: rest =>
      componentKey first :: (rest.filter fun s => s ≠ "" ∧ s ≠ ".").map componentKey
  | [] => []

def compareComponent (a b : Nat × String) : Ordering :=
  (compare a.1 b.1).then (compare a.2 b.2)

def comparePath : List (Nat × String) → List (Nat × String) → Ordering
  | [], [] => .eq
  | [], _ :: _ => .lt
  | _ :: _, [] => .gt
  | a :: as, b :: bs => (compareComponent a b).then (comparePath as bs)

def compareId (a b : DefinitionId) : Ordering :=
  ((comparePath (pathKey a.module) (pathKey b.module)).then (compare a.module b.module)).then
    (compare a.name b.name)

def precedes (a b : DefinitionId) : Bool := (compareId a b).isLE

/-- The name and, in parentheses, the path. -/
def display (id : DefinitionId) : String := id.name ++ " (" ++ id.module ++ ")"

end DefinitionId

end WireTypes
