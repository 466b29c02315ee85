/-!
# Path — places in a tree of files

A `Path` is the list of names from the root of the tree to a place. A text names a place relative to
a directory, or to the root when it starts with a slash.
-/

namespace WireTypes

abbrev Path := List String

namespace Path

/-- The root is a slash, and every name follows one. -/
def display : Path → String
  | [] => "/"
  | p => String.join (p.map ("/" ++ ·))

/-- The directory of a place; the root has none. -/
def parent? (p : Path) : Option Path := if p = [] then none else some p.dropLast

/-- The last name of a path. -/
def fileName? (p : Path) : Option String := p.getLast?

/-- The same place with another last name. -/
def withFileName (p : Path) (name : String) : Path := p.dropLast ++ [name]

/-! ## Extensions -/

/-- Splits a file name at its last point, unless the name starts there. -/
def splitExtension (name : String) : String × Option String :=
  match (name.splitOn ".").reverse with
  | extension :: first :: rest =>
      let stem := ".".intercalate (first :: rest).reverse
      if stem.isEmpty then (name, none) else (stem, some extension)
  | _ => (name, none)

def stemOf (name : String) : String := (splitExtension name).1

def extensionOf? (name : String) : Option String := (splitExtension name).2

/-- The path without the extension of its file name. -/
def withoutExtension (p : Path) : Path :=
  match p.getLast? with
  | none => p
  | some name => p.withFileName (stemOf name)

/-! ## Text -/

/-- Whether a text is read from the root of the tree. -/
def isAbsoluteText (text : String) : Bool := text.startsWith "/"

/-- The names of a text, as they stand between slashes. -/
def stepsOf (text : String) : List String := text.splitOn "/"

end Path

end WireTypes
