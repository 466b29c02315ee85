import WireTypes.Schema.Options

/-!
# Document — a schema with its root and its definitions
-/

namespace WireTypes
namespace Schema

structure Document where
  draft : Draft
  /-- The members of the root object. -/
  root : List (String × Json)
  definitions : List (String × Json)
  inclusion : Inclusion
  /-- The title of the root object. -/
  aggregator : String

def refTo (draft : Draft) (name : String) : Json := .obj [("$ref", .str (draft.reference name))]

/-- One required reference per model, or an object without properties. -/
def aggregateRoot (name : String) (models : List String) (draft : Draft) (inclusion : Inclusion) :
    List (String × Json) :=
  let references :=
    match inclusion with
    | .aggregator =>
        [("properties", Json.obj (Json.insertAll [] (models.map fun m => (m, refTo draft m))))]
          ++ (if models.isEmpty then [] else [("required", Json.strings models)])
    | .unreachable => []
  [("title", .str name), ("type", .str "object")] ++ references
    ++ [("additionalProperties", .bool false)]

namespace Document

/-- The whole document: dialect, root, definitions. -/
def toJson (d : Document) : Json :=
  .obj
    (Json.insert d.draft.defsKey (.obj d.definitions)
      (Json.insertAll [("$schema", .str d.draft.uri)] d.root))

def definition? (d : Document) (name : String) : Option Json := Json.lookup name d.definitions

end Document

end Schema
end WireTypes
