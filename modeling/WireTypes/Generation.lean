import WireTypes.Declarations.Output
import WireTypes.Generator.Basic
import WireTypes.Resolution.Collection
import WireTypes.Schema.Synthesis
import WireTypes.Selection

/-!
# Generation — from an entry module to declarations

Models are located, selected and put into a schema; the generator renders it once, and the text is finished.
Where no model is retained the generator is not asked.
-/

namespace WireTypes

/-- What to generate from. -/
structure Task where
  /-- The entry module, by path or by dotted name. -/
  entry : String
  roots : List String
  /-- Names of models that are left out. -/
  excluded : List String
  schema : Schema.Options

inductive GenerationError
  | generator (e : GeneratorError)
  | locate (e : LocateError)
  | collision (e : NameCollision)
  | synthesis (e : Schema.SynthesisError)
  | aggregator (e : Declarations.MissingAggregator)

def GenerationError.message : GenerationError → String
  | .generator e => e.message
  | .locate e => e.message
  | .collision e => e.message
  | .synthesis e => e.message
  | .aggregator e => e.message

/-- The schema of a task; none if no model is retained. -/
def schemaOf (t : FileTree) (task : Task) : Except GenerationError (Option Schema.Document) := do
  let catalog ← (locate t task.roots task.entry).mapError .locate
  let models ← (select catalog.allModels task.excluded).mapError .collision
  if models.isEmpty then return none
  return some (← (Schema.synthesize models catalog task.schema).mapError .synthesis)

/-- The rendered text without the aggregator. -/
def finishDocument (d : Schema.Document) (raw : String) :
    Except GenerationError Declarations.Output :=
  (Declarations.finish raw d.aggregator d.inclusion).mapError .aggregator

/-- Asks the generator whether it is there, then what there is to render, and then the generator to render
it. -/
def generateFrom {m : Type → Type} [Monad m] (g : Generator m)
    (discover : m (Except GenerationError (Option Schema.Document))) :
    m (Except GenerationError Declarations.Output) := do
  match ← g.check with
  | .error e => return .error (.generator e)
  | .ok () =>
      match ← discover with
      | .error e => return .error e
      -- There is nothing to render.
      | .ok none => return .ok Declarations.Output.empty
      | .ok (some d) =>
          match ← g.render d with
          | .error e => return .error (.generator e)
          | .ok raw => return finishDocument d raw

/-- Generates from a tree that the generator does not act on. -/
def generate {m : Type → Type} [Monad m] (g : Generator m) (t : FileTree) (task : Task) :
    m (Except GenerationError Declarations.Output) :=
  generateFrom g (pure (schemaOf t task))

end WireTypes
