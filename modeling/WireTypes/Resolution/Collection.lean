import WireTypes.Resolution.Models

/-!
# Collection — the catalog of an entry module

The models and enumerations in scope, and everything that their fields refer to.
-/

namespace WireTypes
namespace Resolution

open Discovery

/-- The definitions found so far, the identities that were met, and what models share. -/
structure Collection where
  catalog : Catalog
  seen : List DefinitionId
  building : Building

namespace Collection

def empty : Collection := ⟨Catalog.empty, [], Building.empty⟩

def addModel (s : Collection) (id : DefinitionId) (model : Model) : Collection :=
  { s with
    catalog := { s.catalog with models := s.catalog.models ++ [model] }
    seen := id :: s.seen }

def addDependency (s : Collection) (model : Model) : Collection :=
  { s with catalog := { s.catalog with dependencies := s.catalog.dependencies ++ [model] } }

def addEnum (s : Collection) (e : Enumeration) : Collection :=
  { s with catalog := { s.catalog with enums := s.catalog.enums ++ [e] } }

def see (s : Collection) (id : DefinitionId) : Collection := { s with seen := id :: s.seen }

/-- Takes in a class in scope; generic models and plain classes are left out. -/
def addInScope (c : ClassifiedProgram) (s : Collection) (id : DefinitionId) : Collection :=
  match c.kind id with
  | .model =>
      -- What is built on the way is kept for other models.
      let (model?, building) := (c.modelOf id []).run s.building
      let s := { s with building }
      match model? with
      | some model => s.addModel id model
      | none => s
  | .enum | .strEnum =>
      match c.enumeration? id with
      | some e => (s.addEnum e).see id
      | none => s
  | _ => s

/-- Takes in a referenced definition, and gives the identities that it refers to. -/
def addReferenced (c : ClassifiedProgram) (s : Collection) (id : DefinitionId) :
    Collection × List DefinitionId :=
  let (model?, building) := (c.referenced id).run s.building
  let s := { s.see id with building }
  match model? with
  | some model => (s.addDependency model, model.refs)
  | none =>
      match c.enumeration? id with
      | some e => (s.addEnum e, [])
      | none => (s, [])

/-- Takes in everything that is referred to, breadth first. At most `budget` identities are new. -/
def close (c : ClassifiedProgram) (budget : Nat) (s : Collection) (queue : List DefinitionId) :
    Collection :=
  match queue with
  | [] => s
  | id :: rest =>
      -- What was seen before takes no budget.
      if id ∈ s.seen then close c budget s rest
      else
        match budget with
        | 0 => s
        | budget + 1 =>
            let (s, refs) := addReferenced c s id
            close c budget s (rest ++ refs)
termination_by (budget, queue.length)

end Collection

namespace ClassifiedProgram

/-- The number of different identities: those of classes and those of instances. -/
def idCount (c : ClassifiedProgram) : Nat := c.modules.classIds.length + instanceLimit

def catalog (c : ClassifiedProgram) : Catalog :=
  let inScope := c.modules.scopeIds.foldl (Collection.addInScope c) Collection.empty
  (Collection.close c c.idCount inScope (inScope.catalog.models.flatMap Model.refs)).catalog

/-- What is found in the end. The program stops at an enumeration whose numbers do not fit. -/
def located? (c : ClassifiedProgram) : Option Catalog :=
  if c.catalog.enums.all (c.isCounted ·.id) then some c.catalog else none

end ClassifiedProgram

end Resolution

/-- Why no definitions are found. -/
inductive LocateError
  | load (e : Discovery.LoadError)
  /-- The program stops: the sum of two numbers does not fit. -/
  | overflow

def LocateError.message : LocateError → String
  | .load e => e.message
  | .overflow => "attempt to add with overflow"

/-- The definitions that an entry module leads to. -/
def locate (t : FileTree) (roots : List String) (entry : String) : Except LocateError Catalog :=
  match Discovery.modulesOf t roots entry with
  | .error e => .error (.load e)
  | .ok modules =>
      match (Resolution.Program.classified modules).located? with
      | some catalog => .ok catalog
      | none => .error .overflow

end WireTypes
