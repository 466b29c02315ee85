import WireTypes.Files.Path

/-!
# FileTree — files, directories and links

A tree is a finite map from paths to entries, with a working directory.

- `FileTree.canonical?` follows every link on the way to an existing place;
- `FileTree.isFile`, `isDirectory` and `readText?` look at the place that a path leads to;
- `FileTree.write?` writes a file into a directory that exists.
-/

namespace WireTypes

inductive FileTree.Entry
  | file (content : ByteArray)
  | directory
  /-- The target is relative to the directory of the link. -/
  | link (target : String)

structure FileTree where
  entries : List (Path × FileTree.Entry)
  workingDirectory : Path

namespace FileTree

def Entry.isFile : Entry → Bool
  | .file _ => true
  | _ => false

def Entry.isDirectory : Entry → Bool
  | .directory => true
  | _ => false

/-- What stands at a path, without following a link there. -/
def entry? (t : FileTree) (p : Path) : Option Entry :=
  if p = [] then some .directory else (t.entries.find? (·.1 = p)).map (·.2)

/-- Every path of the tree. -/
def paths (t : FileTree) : List Path := [] :: t.entries.map (·.1)

/-! ## Following links -/

/-- The number of links that are followed on the way to one place. -/
def linkLimit : Nat := 40

/-- Where a text leads, seen from a directory. -/
def stepsFrom (directory : Path) (text : String) : Path × List String :=
  (if Path.isAbsoluteText text then [] else directory, Path.stepsOf text)

/-- A name that leads nowhere else: the directory itself. -/
def staysHere (step : String) : Bool := step = "" || step = "."

/-- Takes the steps one after the other from a place without links. Only a directory has places below. -/
def walk (t : FileTree) (links : Nat) (place : Path) (steps : List String) : Option Path :=
  match steps with
  | [] => some place
  | step :: rest =>
      -- Only a directory has places below it, also for the step back.
      if !((t.entry? place).any Entry.isDirectory) then none
      else if staysHere step then walk t links place rest
      else if step = ".." then walk t links place.dropLast rest
      else
        match t.entry? (place ++ [step]) with
        | none => none
        | some (.link target) =>
            match links with
            | 0 => none
            | links + 1 =>
                -- The steps of the target come before those that are left.
                let (start, more) := stepsFrom place target
                walk t links start (more ++ rest)
        | some _ => walk t links (place ++ [step]) rest
termination_by (links, steps.length)

/-- The place without links that a path leads to, if there is one. -/
def canonical? (t : FileTree) (p : Path) : Option Path := t.walk linkLimit [] p

/-- The place that a text leads to from the working directory. -/
def find? (t : FileTree) (text : String) : Option Path :=
  if text.isEmpty then none
  else
    let (start, steps) := stepsFrom t.workingDirectory text
    t.walk linkLimit start steps

/-! ## Looking -/

/-- The entry at the end of all links. -/
def resolve? (t : FileTree) (p : Path) : Option Entry := (t.canonical? p).bind t.entry?

def isFile (t : FileTree) (p : Path) : Bool := (t.resolve? p).any Entry.isFile

def isDirectory (t : FileTree) (p : Path) : Bool := (t.resolve? p).any Entry.isDirectory

def read? (t : FileTree) (p : Path) : Option ByteArray :=
  match t.resolve? p with
  | some (.file content) => some content
  | _ => none

/-- The text of a file; none if it is not UTF-8. -/
def readText? (t : FileTree) (p : Path) : Option String := (t.read? p).bind String.fromUTF8?

/-- The names in a directory with what stands there, in order of names. -/
def children (t : FileTree) (p : Path) : List (String × Entry) :=
  (t.entries.filterMap fun (path, entry) =>
      -- The entries whose path is one name longer.
      match path.getLast? with
      | some name => if path.dropLast = p then some (name, entry) else none
      | none => none).mergeSort fun a b => decide (a.1 ≤ b.1)

/-! ## Writing -/

/-- The tree with an entry put at a path, in place of the one that is there. -/
def put (t : FileTree) (p : Path) (e : Entry) : FileTree :=
  if t.entries.any (·.1 = p) then
    { t with entries := t.entries.map fun old => if old.1 = p then (p, e) else old }
  else { t with entries := t.entries ++ [(p, e)] }

/-- Makes the directories down to a path where they are missing. -/
def makeDirectories (t : FileTree) (p : Path) : FileTree :=
  ((List.range p.length).map fun n => p.take (n + 1)).foldl
    (fun t dir => if (t.entry? dir).isNone then t.put dir .directory else t) t

/-- Where a file is written that the steps lead to: a file, or a free name in a directory. A file is
written where a link leads, and not in place of the link. -/
def writablePlace? (t : FileTree) (links : Nat) (place : Path) (steps : List String) : Option Path :=
  match steps with
  -- The last step must be a name.
  | [] => none
  | step :: rest =>
      if !((t.entry? place).any Entry.isDirectory) then none
      else if staysHere step then writablePlace? t links place rest
      else if step = ".." then writablePlace? t links place.dropLast rest
      else
        match t.entry? (place ++ [step]) with
        | some (.link target) =>
            match links with
            | 0 => none
            | links + 1 =>
                let (start, more) := stepsFrom place target
                writablePlace? t links start (more ++ rest)
        | some .directory => writablePlace? t links (place ++ [step]) rest
        -- Nothing is below a file, and nothing below what is not there.
        | _ => if rest.isEmpty then some (place ++ [step]) else none
termination_by (links, steps.length)

/-- Writes a file at the place that a text leads to from the working directory. -/
def write? (t : FileTree) (text : String) (content : ByteArray) : Option FileTree :=
  if text.isEmpty then none
  else
    let (start, steps) := stepsFrom t.workingDirectory text
    (t.writablePlace? linkLimit start steps).map fun place => t.put place (.file content)

end FileTree

end WireTypes
