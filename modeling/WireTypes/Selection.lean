import WireTypes.Definition.Model

/-!
# Selection — which models are retained

Excluded models are dropped, repetitions of one definition count once, and the rest is ordered by name.
Two definitions of one name are a collision.
-/

namespace WireTypes

/-- Definitions that share a name, in order. -/
structure NameCollision where
  name : String
  locations : List DefinitionId

def NameCollision.message (c : NameCollision) : String :=
  "multiple models named `" ++ c.name ++ "`: "
    ++ ", ".intercalate (c.locations.map DefinitionId.display) ++ "; rename one or exclude it"

namespace Selection

/-- A model is excluded by its name or by its qualified name. -/
def isExcluded (excluded : List String) (m : Model) : Bool :=
  excluded.contains m.name || excluded.contains m.qualname

/-- Whether two models repeat one definition under one name. -/
def repeats (a b : Model) : Bool := a.name == b.name && a.id == b.id

/-- The first of the models that repeat one definition. -/
def distinct (models : List Model) : List Model :=
  models.foldl (fun acc m => if acc.any (repeats · m) then acc else acc ++ [m]) []

/-- The names of models, each once, in order. -/
def sortedNames (models : List Model) : List String :=
  ((models.map (·.name)).eraseDups).mergeSort fun a b => decide (a ≤ b)

def named (name : String) (models : List Model) : List Model :=
  models.filter (·.name == name)

/-- The model of that name, unless there are several. -/
def single (models : List Model) (name : String) : Except NameCollision (List Model) :=
  let group := named name models
  if 1 < group.length then
    .error ⟨name, (group.map (·.id)).mergeSort DefinitionId.precedes⟩
  else .ok group

end Selection

open Selection in
def select (models : List Model) (excluded : List String) : Except NameCollision (List Model) := do
  let kept := distinct (models.filter (!isExcluded excluded ·))
  let groups ← (sortedNames kept).mapM (single kept)
  return groups.flatten

end WireTypes
