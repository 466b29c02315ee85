import WireTypes.CommandLine.Arguments
import WireTypes.Generator.Command

/-!
# Running the program — from arguments to a written file

- `runWith` loads the settings, generates, and writes the output as its last step;
- `runProgram` is the whole program: it gives the exit code and what is printed.
-/

namespace WireTypes
namespace CommandLine

/-- Why a run fails. -/
inductive RunError
  | settings (e : Settings.FileError)
  | missing (s : MissingSetting)
  | generation (e : GenerationError)
  | unwritable (path : String)

def RunError.message : RunError → String
  | .settings e => e.message
  | .missing s => s.message
  | .generation e => e.message
  | .unwritable path => "failed to write " ++ path

/-- Writes the output where the plan says. -/
def writeOutput (path : String) (o : Declarations.Output) :
    StateM FileTree (Except RunError String) := fun t =>
  match t.write? path o.text.toUTF8 with
  | some t => (.ok path, t)
  | none => (.error (.unwritable path), t)

/-- The schema of a task in the tree as it is when it is asked for. -/
def discover (task : Task) : StateM FileTree (Except GenerationError (Option Schema.Document)) := do
  return schemaOf (← get) task

/-- Carries out a plan. -/
def runPlan (g : Generator (StateM FileTree)) (plan : Plan) :
    StateM FileTree (Except RunError String) := do
  match ← generateFrom g (discover plan.task) with
  | .error e => return .error (.generation e)
  | .ok o => writeOutput plan.output o

/-- The settings of a run: those of files below those of the command line. -/
def settingsFor (t : FileTree) (configDirectory : Option Path) (a : Arguments) :
    Except RunError Plan := do
  let s ← (Settings.load t configDirectory a.config).mapError .settings
  (s.merge a.layer).plan.mapError .missing

/-- The generator of a plan. -/
def generatorOf (ps : Programs) (plan : Plan) : Generator (StateM FileTree) :=
  ps.generator (GeneratorCommand.ofText plan.command) (plan.timeout.map (· * 1000))

/-- One run with the programs of a system; the result is the path of the output. -/
def runWith (ps : Programs) (configDirectory : Option Path) (a : Arguments) :
    StateM FileTree (Except RunError String) := do
  match settingsFor (← get) configDirectory a with
  | .error e => return .error e
  | .ok plan => runPlan (generatorOf ps plan) plan

def runArguments (configDirectory : Option Path) (a : Arguments) :
    StateM FileTree (Except RunError String) := runWith Programs.shell configDirectory a

/-! ## The program -/

def versionText : String := "typebridge 0.2.0\n"

def usageText : String :=
  "Convert pydantic models into TypeScript declarations.\n\nUsage: typebridge [OPTIONS]\n"

/-- Texts, lists of texts and so on: what a key of a settings file holds. -/
def typeOfKey (key : String) : String :=
  match key with
  | "exclude" | "roots" => "array"
  | "to_camel" | "unreachable_definitions" | "forbid_extra" => "boolean"
  | "timeout" => "integer"
  | _ => "string"

/-- A description of settings files. -/
def settingsDescription : Json :=
  .obj
    [("config_path", .str ("/".intercalate Settings.projectFile)), ("format", .str "toml"),
      ("schema", .obj
        [("type", .str "object"),
          ("properties", .obj (Settings.keys.map fun key =>
            (key, .obj [("type", Json.strings [typeOfKey key, "null"])]))),
          ("additionalProperties", .bool false)])]

/-- How the program ended. -/
structure Exit where
  code : Nat
  stdout : String
  stderr : String
  deriving DecidableEq, Repr

def Stop.exit : Stop → Exit
  | .help => ⟨0, usageText, ""⟩
  | .version => ⟨0, versionText, ""⟩
  | .unknownArgument word => ⟨2, "", "error: unexpected argument '" ++ word ++ "' found\n"⟩
  | _ => ⟨2, "", "error: invalid arguments\n"⟩

def RunError.exit : RunError → Exit
  -- The program stops before it can report a failure.
  | .generation (.locate .overflow) => ⟨101, "", LocateError.overflow.message ++ "\n"⟩
  | e => ⟨1, "", "error: " ++ e.message ++ "\n"⟩

/-- The program. `--schema` as the first word describes settings files. -/
def runProgram (configDirectory : Option Path) (words : List String) : StateM FileTree Exit := do
  if words.head? = some "--schema" then return ⟨0, settingsDescription.pretty ++ "\n", ""⟩
  match Arguments.parse words with
  | .error stop => return stop.exit
  | .ok a =>
      match ← runArguments configDirectory a with
      | .ok _ => return ⟨0, "", ""⟩
      | .error e => return e.exit

end CommandLine
end WireTypes
