import WireTypes.Json.Basic

/-!
# Schema options — what a schema document looks like

The dialect (`Draft`), how optional fields are expressed (`NullableStyle`), and how the generator is made
to see every definition (`Inclusion`).
-/

namespace WireTypes
namespace Schema

inductive NullableStyle
  /-- A union with `null`; the field is required unless it has a default. -/
  | union
  /-- The field may be absent; `null` is left out. -/
  | optional
  deriving DecidableEq, Repr

inductive Draft
  | draft2020
  | draft07
  deriving DecidableEq, Repr

namespace Draft

/-- The member that holds the definitions. -/
def defsKey : Draft → String
  | .draft2020 => "$defs"
  | .draft07 => "definitions"

def uri : Draft → String
  | .draft2020 => "https://json-schema.org/draft/2020-12/schema"
  | .draft07 => "http://json-schema.org/draft-07/schema#"

/-- The target of a reference to a definition. -/
def reference (d : Draft) (name : String) : String := "#/" ++ d.defsKey ++ "/" ++ name

end Draft

inductive Inclusion
  /-- The root object refers to every retained model. -/
  | aggregator
  /-- The root is empty and the generator is asked for unreachable definitions. -/
  | unreachable
  deriving DecidableEq, Repr

/-- Whether the rendered text must hold a declaration for the root. -/
def Inclusion.expectsAggregator : Inclusion → Bool
  | .aggregator => true
  | .unreachable => false

structure Options where
  nullable : NullableStyle
  draft : Draft
  /-- Property names without an alias are written in camel case. -/
  toCamel : Bool
  /-- Other properties are refused unless the model allows them. -/
  forbidUnlessAllowed : Bool
  inclusion : Inclusion
  aggregatorName : String

def defaultAggregatorName : String := "_Aggregate_"

def Options.standard : Options :=
  { nullable := .union
    draft := .draft2020
    toCamel := false
    forbidUnlessAllowed := true
    inclusion := .aggregator
    aggregatorName := defaultAggregatorName }

end Schema
end WireTypes
