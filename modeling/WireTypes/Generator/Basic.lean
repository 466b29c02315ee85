import WireTypes.Schema.Document

/-!
# Generator — a program that renders declarations from a schema

A `Generator` can be asked whether it is there, and renders documents. It acts in a monad of its own, since
it may run outside programs or count its calls.
-/

namespace WireTypes

/-- How a process ended. -/
inductive ExitStatus
  | exited (code : Nat)
  | killed (signal : Nat)
  deriving DecidableEq, Repr

namespace ExitStatus

def isSuccess (s : ExitStatus) : Bool := s = .exited 0

def signalName : Nat → Option String
  | 1 => some "SIGHUP"
  | 2 => some "SIGINT"
  | 3 => some "SIGQUIT"
  | 4 => some "SIGILL"
  | 5 => some "SIGTRAP"
  | 6 => some "SIGABRT"
  | 7 => some "SIGBUS"
  | 8 => some "SIGFPE"
  | 9 => some "SIGKILL"
  | 10 => some "SIGUSR1"
  | 11 => some "SIGSEGV"
  | 12 => some "SIGUSR2"
  | 13 => some "SIGPIPE"
  | 14 => some "SIGALRM"
  | 15 => some "SIGTERM"
  | 16 => some "SIGSTKFLT"
  | 24 => some "SIGXCPU"
  | 25 => some "SIGXFSZ"
  | 26 => some "SIGVTALRM"
  | 27 => some "SIGPROF"
  | 29 => some "SIGIO"
  | 30 => some "SIGPWR"
  | 31 => some "SIGSYS"
  | _ => none

def display : ExitStatus → String
  | .exited code => "exit status: " ++ toString code
  | .killed signal =>
      match signalName signal with
      | some name => "signal: " ++ toString signal ++ " (" ++ name ++ ")"
      | none => "signal: " ++ toString signal

end ExitStatus

/-- A time in thousandths of a second. -/
abbrev Milliseconds := Nat

/-- A time in seconds, with as few decimal places as it needs. -/
def secondsText (t : Milliseconds) : String :=
  let places := (toString (1000 + t % 1000)).toList.drop 1
  let places := (places.reverse.dropWhile (· == '0')).reverse
  toString (t / 1000) ++ (if places.isEmpty then "" else "." ++ String.ofList places)

inductive GeneratorError
  | notInstalled (command install : String)
  /-- The program is there but cannot be started. -/
  | notStarted (command : String)
  | failed (command : String) (status : ExitStatus) (errorText : String)
  | timedOut (command : String) (limit : Milliseconds) (errorText : String)
  /-- The output is no text. -/
  | notText (command : String)
  /-- The schema could not be handed over. -/
  | notPrepared

def GeneratorError.message : GeneratorError → String
  | .notInstalled command install =>
      "`" ++ command ++ "` was not found; install it with `" ++ install
        ++ "` or point the generator command at an existing executable"
  | .notStarted command => "failed to start `" ++ command ++ "`"
  | .failed command status errorText =>
      "`" ++ command ++ "` failed (" ++ status.display
        ++ "); check that json-schema-to-typescript is installed and working:\n" ++ errorText
  | .timedOut command limit errorText =>
      "`" ++ command ++ "` did not finish within " ++ secondsText limit ++ "s:\n" ++ errorText
  | .notText command => "`" ++ command ++ "` produced output that is not valid UTF-8"
  | .notPrepared => "could not prepare generator input"

/-- The command that renders declarations unless another one is set. -/
def defaultCommand : String := "json2ts"

structure Generator (m : Type → Type) where
  /-- Fails early when the program is missing. -/
  check : m (Except GeneratorError Unit)
  render : Schema.Document → m (Except GeneratorError String)

end WireTypes
