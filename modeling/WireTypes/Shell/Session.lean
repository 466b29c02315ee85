import WireTypes.Files.Tree
import WireTypes.Generator.Basic
import WireTypes.Shell.Script
import WireTypes.Text.Lossy

/-!
# Session — the state of a running script

A session has the values of names, the output so far, the tree of files and a clock that only `sleep`
advances. `Flow` says how commands go on.
-/

namespace WireTypes
namespace Shell

/-- Where a descriptor writes to. -/
inductive Sink
  | out
  | err
  | discard
  | file (p : Path)

inductive Flow
  | next
  /-- The script ends with the current status. -/
  | exit
  | signal (number : Nat)
  /-- The time is over. -/
  | late
  | leaveLoop
  | nextRound
  /-- A function ends with the current status. -/
  | finish
  deriving DecidableEq

structure Session where
  tree : FileTree
  /-- The name by which the script is known, and its arguments. -/
  name : String
  params : List String
  /-- The values of names. -/
  memory : List (String × String)
  /-- The names whose values other programs see. -/
  exported : List String
  functions : List (String × Command)
  /-- The line of the script that runs. -/
  line : Nat
  /-- The number of loops around the command that runs. -/
  loops : Nat
  status : Nat
  out : ByteArray
  err : ByteArray
  input : ByteArray
  sink1 : Sink
  sink2 : Sink
  elapsed : Milliseconds
  limit : Option Milliseconds
  /-- Whether a failing command ends the script. -/
  strict : Bool

namespace Session

/-- The number by which a script knows itself. -/
def processId : String := "4711"

def value? (s : Session) (name : String) : Option String := s.memory.lookup name

def setVariable (s : Session) (name value : String) : Session :=
  { s with memory := (name, value) :: s.memory.filter (·.1 != name) }

def withStatus (s : Session) (status : Nat) : Session := { s with status }

/-- Appends to the file at a place. -/
def appendFile (t : FileTree) (p : Path) (content : ByteArray) : FileTree :=
  t.put p (.file (((t.read? p).getD ByteArray.empty) ++ content))

def writeTo (s : Session) (sink : Sink) (content : ByteArray) : Session :=
  match sink with
  | .out => { s with out := s.out ++ content }
  | .err => { s with err := s.err ++ content }
  | .discard => s
  | .file p => { s with tree := appendFile s.tree p content }

def write (s : Session) (content : ByteArray) : Session := s.writeTo s.sink1 content

def complain (s : Session) (message : String) : Session :=
  s.writeTo s.sink2 (message ++ "\n").toUTF8

/-- Complains with the place in the script. -/
def complainHere (s : Session) (message : String) : Session :=
  s.complain (s.name ++ ": " ++ toString s.line ++ ": " ++ message)

/-- The values that another program sees. -/
def exportedMemory (s : Session) : List (String × String) :=
  s.memory.filter fun m => s.exported.contains m.1

/-- The value of a parameter or variable, if it is set. -/
def parameter? (s : Session) (name : String) : Option String :=
  match name with
  | "#" => some (toString s.params.length)
  | "@" => some (" ".intercalate s.params)
  | "*" => some (" ".intercalate s.params)
  | "?" => some (toString s.status)
  | "$" => some processId
  | "0" => some s.name
  | name =>
      match name.toNat? with
      | some n => s.params[n - 1]?
      | none => s.value? name

def unsetVariable (s : Session) (name : String) : Session :=
  { s with memory := s.memory.filter (·.1 != name) }

/-- Lets time pass, up to the limit. -/
def wait (s : Session) (time : Milliseconds) : Session × Flow :=
  let s := { s with elapsed := s.elapsed + time }
  match s.limit with
  | some limit => if limit < s.elapsed then (s, .late) else (s, .next)
  | none => (s, .next)

end Session

end Shell
end WireTypes
