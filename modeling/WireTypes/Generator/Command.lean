import WireTypes.Json.Print
import WireTypes.Shell.Run
import WireTypes.Text.Blank

/-!
# Generator commands — rendering by a command line

- `GeneratorCommand.ofText` splits a command line into words;
- `Programs.isAvailable` says whether it can be used before any work is done;
- `Programs.generator` renders by running the command on a schema file in a directory of its own, which is
  removed afterwards;
- `Programs.shell`: the programs that can be run are the shell and its utilities.
-/

namespace WireTypes

/-! ## Temporary directories -/

namespace FileTree

/-- The tree without a place and everything below it. -/
def remove (t : FileTree) (p : Path) : FileTree :=
  { t with entries := t.entries.filter fun e => !p.isPrefixOf e.1 }

/-- The place for directories that are removed again. -/
def temporaryDirectory : Path := ["tmp"]

/-- A directory there whose name is not taken. -/
def freshDirectory (t : FileTree) : Path :=
  let named := fun (n : Nat) => temporaryDirectory ++ ["typebridge-" ++ toString n]
  let isFree := fun (p : Path) => t.entries.all fun e => !p.isPrefixOf e.1
  (((List.range (t.entries.length + 1)).map named).find? isFree).getD (named t.entries.length)

end FileTree

/-! ## Command lines -/

structure GeneratorCommand where
  program : String
  args : List String
  deriving DecidableEq, Repr

namespace GeneratorCommand

/-- The words between blanks. -/
def wordsOf : List Char → List (List Char)
  | [] => []
  | c :: rest =>
      if Text.isBlank c then wordsOf rest
      else
        match rest with
        | [] => [[c]]
        | next :: _ =>
            if Text.isBlank next then [c] :: wordsOf rest
            else
              match wordsOf rest with
              | [] => [[c]]
              | word :: words => (c :: word) :: words

def standard : GeneratorCommand := ⟨defaultCommand, []⟩

/-- The first word is the program; a text without words is the standard command. -/
def ofText (text : String) : GeneratorCommand :=
  match (wordsOf text.toList).map String.ofList with
  | [] => standard
  | program :: args => ⟨program, args⟩

/-- The words with single blanks between them. -/
def text (c : GeneratorCommand) : String := " ".intercalate (c.program :: c.args)

/-- The command that installs the standard generator. -/
def installCommand : String := "npm install -g json-schema-to-typescript"

/-! ## Programs -/

/-- The programs on the search path. -/
def installed : List String :=
  ["sh", "cat", "echo", "printf", "true", "false", "basename", "dirname", "test", "[", "sleep",
    "kill", "seq", "head", "tail", "wc", "ls", "rm", "pwd"]

/-- The directories of the installed programs. -/
def programDirectories : List String := ["/bin/", "/usr/bin/"]

/-- A program by its name on the search path or by its place. -/
def installed? (program : String) : Option String :=
  let name :=
    match programDirectories.find? fun d => program.startsWith d with
    | some directory => String.ofList (program.toList.drop directory.length)
    | none => program
  if installed.contains name then some name else none

/-- Why a program does not start. -/
inductive StartFailure
  | notFound
  | notExecutable
  deriving DecidableEq, Repr

/-- Whether a file stands on the way to a place or at it. -/
def isBlocked (t : FileTree) (program : String) : Bool :=
  let steps := Path.stepsOf program
  (List.range steps.length).any fun n =>
    let start := "/".intercalate (steps.take (n + 1))
    n + 1 < steps.length && ((t.find? start).bind t.entry?).any FileTree.Entry.isFile

/-- Runs a program. Files of the tree are not executable. -/
def runProgram (t : FileTree) (program : String) (args : List String)
    (limit : Option Milliseconds) : Except StartFailure Shell.Result :=
  match installed? program with
  | some "sh" => .ok (Shell.start t args limit)
  | some name =>
      match Shell.utility? name with
      | some utility =>
          let (s, flow) := utility (Shell.session t name args limit) args
          .ok ⟨s.tree, Shell.endingOf s flow, s.out, s.err⟩
      | none => .error .notFound
  | none =>
      if program.contains '/' && ((t.find? program).isSome || isBlocked t program) then
        .error .notExecutable
      else .error .notFound

/-! ## Rendering -/

/-- The arguments that follow those of the command line. -/
def renderArgs (schemaFile : String) (d : Schema.Document) : List String :=
  ["-i", schemaFile, "--bannerComment", ""]
    ++ match d.inclusion with
      | .aggregator => []
      | .unreachable => ["--unreachableDefinitions"]

/-- What a run of the command says. -/
def interpret (c : GeneratorCommand) (limit : Option Milliseconds)
    (result : Except StartFailure Shell.Result) : Except GeneratorError String :=
  match result with
  | .error .notFound => .error (.notInstalled c.text installCommand)
  | .error .notExecutable => .error (.notStarted c.text)
  | .ok r =>
      match r.ending with
      | .stopped => .error (.timedOut c.text (limit.getD 0) (Text.lossy r.err))
      | .ended status =>
          if status.isSuccess then
            match String.fromUTF8? r.out with
            | some text => .ok text
            | none => .error (.notText c.text)
          else .error (.failed c.text status (Text.lossy r.err))

end GeneratorCommand

/-- The programs of a system. -/
structure Programs where
  /-- Whether a program is found by its name. -/
  isInstalled : String → Bool
  /-- Runs a program with arguments on a tree, for a limited time. -/
  run : FileTree → String → List String → Option Milliseconds →
    Except GeneratorCommand.StartFailure Shell.Result

namespace Programs

open GeneratorCommand

variable (ps : Programs)

/-- A wrapper finds the generator itself; a program without arguments must be installed. -/
def isAvailable (c : GeneratorCommand) : Bool := !c.args.isEmpty || ps.isInstalled c.program

def check (c : GeneratorCommand) : Except GeneratorError Unit :=
  if ps.isAvailable c then .ok () else .error (.notInstalled c.text installCommand)

/-- The file of the schema in a directory. -/
def schemaFileIn (directory : Path) : Path := directory ++ ["schema.json"]

/-- The tree with the schema in a fresh directory. -/
def prepare (t : FileTree) (d : Schema.Document) : FileTree :=
  (t.put t.freshDirectory .directory).put (schemaFileIn t.freshDirectory)
    (.file d.toJson.pretty.toUTF8)

/-- Runs the command on the schema that was prepared. -/
def runOn (c : GeneratorCommand) (limit : Option Milliseconds) (t : FileTree) (d : Schema.Document) :
    Except StartFailure Shell.Result :=
  ps.run (prepare t d) c.program (c.args ++ renderArgs (schemaFileIn t.freshDirectory).display d) limit

/-- Runs the command on a schema file in a fresh directory. -/
def renderIn (c : GeneratorCommand) (limit : Option Milliseconds) (t : FileTree)
    (d : Schema.Document) : Except GeneratorError String × FileTree :=
  let result := ps.runOn c limit t d
  let after :=
    match result with
    | .ok r => r.tree
    | .error _ => prepare t d
  -- The directory is removed in any case.
  (c.interpret limit result, after.remove t.freshDirectory)

/-- Renders if the command is available and there is a place for the schema. -/
def render (c : GeneratorCommand) (limit : Option Milliseconds) (d : Schema.Document) :
    StateM FileTree (Except GeneratorError String) := fun t =>
  match ps.check c with
  | .error e => (.error e, t)
  | .ok () =>
      if t.isDirectory FileTree.temporaryDirectory then ps.renderIn c limit t d
      else (.error .notPrepared, t)

/-- A command as a generator that acts on a tree. -/
def generator (c : GeneratorCommand) (limit : Option Milliseconds) : Generator (StateM FileTree) where
  check := pure (ps.check c)
  render := ps.render c limit

/-- The shell and its utilities. -/
def shell : Programs where
  isInstalled := fun program => (installed? program).isSome
  run := runProgram

end Programs

namespace GeneratorCommand

def isAvailable (c : GeneratorCommand) : Bool := Programs.shell.isAvailable c

def check (c : GeneratorCommand) : Except GeneratorError Unit := Programs.shell.check c

def render (c : GeneratorCommand) (limit : Option Milliseconds) (d : Schema.Document) :
    StateM FileTree (Except GeneratorError String) := Programs.shell.render c limit d

end GeneratorCommand

end WireTypes
