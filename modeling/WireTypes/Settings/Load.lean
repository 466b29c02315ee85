import WireTypes.Settings.Basic
import WireTypes.Toml.Read

/-!
# Settings files — layers from the tree

The file of the user and the file of the project are layers if they exist; a file that is named explicitly
must exist. Each file is a Toml document with known keys only.
-/

namespace WireTypes
namespace Settings

/-! ## Values -/

def text? : Toml.Value → Option String
  | .text s => some s
  | _ => Option.none

def texts? : Toml.Value → Option (List String)
  | .array items => items.mapM text?
  | _ => Option.none

def boolean? : Toml.Value → Option Bool
  | .boolean b => some b
  | _ => Option.none

def natural? : Toml.Value → Option Nat
  | .integer n => if 0 ≤ n then some n.toNat else Option.none
  | _ => Option.none

/-- A choice is written as its name, or as a table with this name and nothing in it. -/
def choice? : Toml.Value → Option String
  | .text s => some s
  | .table [(name, .table [])] => some name
  | .table [(name, .array [])] => some name
  | _ => Option.none

def nullableStyle? : String → Option Schema.NullableStyle
  | "union" => some .union
  | "optional" => some .optional
  | _ => Option.none

def draftNamed? : String → Option Schema.Draft
  | "2020-12" => some .draft2020
  | "07" => some .draft07
  | _ => Option.none

/-- The settings with one more key, if the key is known and its value fits. -/
def set? (s : Settings) (key : String) (v : Toml.Value) : Option Settings :=
  match key with
  | "module" => (text? v).map fun x => { s with module := some x }
  | "output" => (text? v).map fun x => { s with output := some x }
  | "exclude" => (texts? v).map fun x => { s with exclude := some x }
  | "json2ts_cmd" => (text? v).map fun x => { s with generator := some x }
  | "roots" => (texts? v).map fun x => { s with roots := some x }
  | "nullable" => ((choice? v).bind nullableStyle?).map fun x => { s with nullable := some x }
  | "draft" => ((choice? v).bind draftNamed?).map fun x => { s with draft := some x }
  | "to_camel" => (boolean? v).map fun x => { s with toCamel := some x }
  | "unreachable_definitions" => (boolean? v).map fun x => { s with unreachable := some x }
  | "forbid_extra" => (boolean? v).map fun x => { s with forbidExtra := some x }
  | "aggregator_name" => (text? v).map fun x => { s with aggregatorName := some x }
  | "timeout" => (natural? v).map fun x => { s with timeout := some x }
  | _ => Option.none

/-- The settings that a text writes. -/
def ofText? (text : String) : Option Settings := do
  let document ← Toml.parse? text
  document.values.foldlM (fun s m => set? s m.1 m.2) Settings.none

/-! ## Files -/

inductive FileError
  | unreadable (path : String)
  | malformed (path : String)
  deriving DecidableEq, Repr

def FileError.message : FileError → String
  | .unreadable path => "failed to read config " ++ path
  | .malformed path => "invalid config " ++ path

/-- The place of the project file below the working directory. -/
def projectFile : List String := [".typebridge", "config.toml"]

/-- The place of the user file below the directory for settings. -/
def userFile : List String := ["typebridge", "config.toml"]

/-- The layer of a file with the given content. -/
def ofContent (shown : String) (content : Option String) : Except FileError Settings :=
  match content with
  | .none => .error (.unreadable shown)
  | some text =>
      match ofText? text with
      | some s => .ok s
      | .none => .error (.malformed shown)

/-- Adds the layer of a file if it is there. -/
def addFile (t : FileTree) (s : Settings) (p : Path) : Except FileError Settings :=
  if t.isFile p then (ofContent p.display (t.readText? p)).map s.merge else .ok s

/-- The layers of the user file, the project file and an explicit file, in this order. -/
def load (t : FileTree) (configDirectory : Option Path) (explicit : Option String) :
    Except FileError Settings := do
  let files := (configDirectory.map (· ++ userFile)).toList ++ [t.workingDirectory ++ projectFile]
  let s ← files.foldlM (addFile t) Settings.none
  match explicit with
  | .none => return s
  | some path => return s.merge (← ofContent path ((t.find? path).bind t.readText?))

end Settings
end WireTypes
