import WireTypes.Generation

/-!
# Settings — the keys of a run and their layers

Every key may be unset, so that layers can be put on top of each other: the last layer that sets a key
decides. `Settings.plan` says what the merged settings ask for.
-/

namespace WireTypes

structure Settings where
  /-- The entry module. -/
  module : Option String
  /-- Where the declarations are written. -/
  output : Option String
  exclude : Option (List String)
  /-- The command line of the generator. -/
  generator : Option String
  roots : Option (List String)
  nullable : Option Schema.NullableStyle
  draft : Option Schema.Draft
  toCamel : Option Bool
  /-- Ask the generator for unreachable definitions, without an aggregator. -/
  unreachable : Option Bool
  /-- Refuse other properties unless a model allows them. -/
  forbidExtra : Option Bool
  aggregatorName : Option String
  /-- Seconds before the generator is stopped. -/
  timeout : Option Nat
  deriving DecidableEq, Repr

namespace Settings

def none : Settings :=
  ⟨.none, .none, .none, .none, .none, .none, .none, .none, .none, .none, .none, .none⟩

/-- The names of the keys, in order. -/
def keys : List String :=
  ["module", "output", "exclude", "json2ts_cmd", "roots", "nullable", "draft", "to_camel",
    "unreachable_definitions", "forbid_extra", "aggregator_name", "timeout"]

/-- Puts a layer on top. -/
def merge (lower upper : Settings) : Settings :=
  { module := upper.module <|> lower.module
    output := upper.output <|> lower.output
    exclude := upper.exclude <|> lower.exclude
    generator := upper.generator <|> lower.generator
    roots := upper.roots <|> lower.roots
    nullable := upper.nullable <|> lower.nullable
    draft := upper.draft <|> lower.draft
    toCamel := upper.toCamel <|> lower.toCamel
    unreachable := upper.unreachable <|> lower.unreachable
    forbidExtra := upper.forbidExtra <|> lower.forbidExtra
    aggregatorName := upper.aggregatorName <|> lower.aggregatorName
    timeout := upper.timeout <|> lower.timeout }

end Settings

/-! ## Plans -/

/-- A setting without which there is nothing to do. -/
inductive MissingSetting
  | module
  | output
  deriving DecidableEq, Repr

namespace MissingSetting

def key : MissingSetting → String
  | .module => "module"
  | .output => "output"

def message (s : MissingSetting) : String :=
  "no " ++ s.key ++ " given; pass --" ++ s.key ++ " or set `" ++ s.key ++ "` in the config file"

end MissingSetting

/-- What a run does. -/
structure Plan where
  task : Task
  /-- The command line of the generator. -/
  command : String
  /-- Seconds before the generator is stopped. -/
  timeout : Option Nat
  /-- Where the declarations are written. -/
  output : String

namespace Settings

def schemaOptions (s : Settings) : Schema.Options :=
  { nullable := s.nullable.getD Schema.Options.standard.nullable
    draft := s.draft.getD Schema.Options.standard.draft
    toCamel := s.toCamel.getD Schema.Options.standard.toCamel
    forbidUnlessAllowed := s.forbidExtra.getD Schema.Options.standard.forbidUnlessAllowed
    inclusion := if s.unreachable.getD false then .unreachable else .aggregator
    aggregatorName := s.aggregatorName.getD Schema.Options.standard.aggregatorName }

/-- A run needs an entry module and an output. -/
def plan (s : Settings) : Except MissingSetting Plan :=
  match s.module, s.output with
  | .none, _ => .error .module
  | _, .none => .error .output
  | some entry, some output =>
      .ok
        { task :=
            { entry
              roots := s.roots.getD []
              excluded := s.exclude.getD []
              schema := s.schemaOptions }
          command := s.generator.getD defaultCommand
          timeout := s.timeout
          output }

end Settings

end WireTypes
