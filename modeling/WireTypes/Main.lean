import WireTypes.CommandLine.Run

/-!
# Main — the program on real files

The files below the working directory are read into a tree, the program runs on the tree, and files that
changed are written back.
-/

open WireTypes

namespace WireTypes
namespace Main

/-- The path that a text from the system names. -/
def pathOf (text : String) : Path := (Path.stepsOf text).filter fun s => !FileTree.staysHere s

/-- Reads an entry of a directory with everything below it. Links are kept as links to the places they
lead to. -/
partial def readEntry (t : FileTree) (directory : Path) (entry : IO.FS.DirEntry) : IO FileTree := do
  let place := directory ++ [entry.fileName]
  match (← entry.path.symlinkMetadata).type with
  | .dir =>
      let mut t := t.put place .directory
      for inner in ← entry.path.readDir do
        t ← readEntry t place inner
      return t
  | .file => return t.put place (.file (← IO.FS.readBinFile entry.path))
  | .symlink =>
      try
        return t.put place (.link (← IO.FS.realPath entry.path).toString)
      catch _ => return t
  | .other => return t

/-- The directory for the settings of the user. -/
def configDirectory : IO (Option Path) := do
  match ← IO.getEnv "XDG_CONFIG_HOME" with
  | some text => if Path.isAbsoluteText text then return some (pathOf text)
  | none => pure ()
  return (← IO.getEnv "HOME").map fun home => pathOf home ++ [".config"]

/-- Adds a file of the system if it is there. -/
def readExtra (t : FileTree) (p : Path) : IO FileTree := do
  try
    let content ← IO.FS.readBinFile p.display
    return (t.makeDirectories p.dropLast).put p (.file content)
  catch _ => return t

/-- Writes the files that are new or have another content. -/
def writeChanges (before after : FileTree) : IO Unit := do
  for (place, entry) in after.entries do
    match entry with
    | .file content =>
        if before.read? place != some content then IO.FS.writeBinFile place.display content
    | _ => pure ()

end Main
end WireTypes

open WireTypes.Main in
def main (args : List String) : IO UInt32 := do
  let directory ← IO.currentDir
  let here := pathOf directory.toString
  let config ← configDirectory
  let start : FileTree := ⟨[], here⟩
  let start := (start.makeDirectories here).makeDirectories FileTree.temporaryDirectory
  let mut tree := start
  for entry in ← directory.readDir do
    tree ← readEntry tree here entry
  if let some place := config then
    tree ← readExtra tree (place ++ Settings.userFile)
  let (exit, after) := (CommandLine.runProgram config args).run tree
  writeChanges tree after
  IO.print exit.stdout
  IO.eprint exit.stderr
  return UInt32.ofNat exit.code
