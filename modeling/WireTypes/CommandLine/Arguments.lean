import WireTypes.Settings.Load

/-!
# Arguments — reading the command line

- `Flag` lists the options;
- `Arguments.parse` reads the words of a command line as the topmost layer of settings, or says why it
  cannot.

A value is checked when the next option starts or the command line ends, unless it is attached to its
option. An unknown word is reported before an unchecked value.
-/

namespace WireTypes
namespace CommandLine

inductive Flag
  | module
  | output
  | exclude
  | generator
  | root
  | nullable
  | draft
  | toCamel
  | unreachable
  | timeout
  | config
  | verbose
  | help
  | version
  deriving DecidableEq, Repr

namespace Flag

def long? : String → Option Flag
  | "module" => some .module
  | "output" => some .output
  | "exclude" => some .exclude
  | "json2ts-cmd" => some .generator
  | "root" => some .root
  | "nullable" => some .nullable
  | "draft" => some .draft
  | "to-camel" => some .toCamel
  | "unreachable-definitions" => some .unreachable
  | "timeout" => some .timeout
  | "config" => some .config
  | "verbose" => some .verbose
  | "help" => some .help
  | "version" => some .version
  | _ => none

def short? : Char → Option Flag
  | 'm' => some .module
  | 'o' => some .output
  | 'v' => some .verbose
  | 'h' => some .help
  | 'V' => some .version
  | _ => none

/-- Whether the option is followed by a value. -/
def takesValue : Flag → Bool
  | .toCamel | .unreachable | .verbose | .help | .version => false
  | _ => true

/-- Whether the option may be given several times. -/
def isRepeatable : Flag → Bool
  | .exclude | .root => true
  | _ => false

end Flag

/-- Why a command line is not run. -/
inductive Stop
  | unknownArgument (word : String)
  /-- A value is missing, or it is none of the possible ones. -/
  | invalidValue (flag : Flag)
  /-- A value is no number. -/
  | invalidNumber (flag : Flag)
  | repeated (flag : Flag)
  /-- A value is attached to an option that takes none. -/
  | unneededValue (flag : Flag)
  | help
  | version
  deriving DecidableEq, Repr

structure Arguments where
  layer : Settings
  /-- A settings file on top of the others. -/
  config : Option String
  verbose : Bool
  deriving DecidableEq, Repr

namespace Arguments

def none : Arguments := ⟨Settings.none, .none, false⟩

/-! ## Values -/

/-- Whether an option that is given at most once was given. -/
def has (a : Arguments) : Flag → Bool
  | .module => a.layer.module.isSome
  | .output => a.layer.output.isSome
  | .generator => a.layer.generator.isSome
  | .nullable => a.layer.nullable.isSome
  | .draft => a.layer.draft.isSome
  | .toCamel => a.layer.toCamel.isSome
  | .unreachable => a.layer.unreachable.isSome
  | .timeout => a.layer.timeout.isSome
  | .config => a.config.isSome
  | .verbose => a.verbose
  | _ => false

/-- A path is not empty. -/
def path? (word : String) : Option String := if word.isEmpty then .none else some word

/-- A number of 64 bits, perhaps after a plus sign. -/
def number? (word : String) : Option Nat :=
  let digits :=
    match word.toList with
    | '+' :: rest => rest
    | cs => cs
  if digits.isEmpty || !digits.all Char.isDigit then .none
  else
    let n := digits.foldl (fun n c => n * 10 + (c.toNat - '0'.toNat)) 0
    if n < Nat.pow 2 64 then some n else .none

/-- The arguments with one more layer of settings. -/
def withLayer (a : Arguments) (s : Settings) : Arguments := { a with layer := a.layer.merge s }

/-- Appends to a list that may be unset. -/
def append (items : Option (List String)) (item : String) : Option (List String) :=
  some (items.getD [] ++ [item])

/-- The arguments with the value of an option. -/
def setValue (a : Arguments) (flag : Flag) (word : String) : Except Stop Arguments :=
  let put (value : Option Arguments) : Except Stop Arguments :=
    match value with
    | some a => .ok a
    | .none => .error (.invalidValue flag)
  let s := Settings.none
  match flag with
  | .module => .ok (a.withLayer { s with module := some word })
  | .output => put ((path? word).map fun x => a.withLayer { s with output := some x })
  | .exclude => .ok (a.withLayer { s with exclude := append a.layer.exclude word })
  | .generator => .ok (a.withLayer { s with generator := some word })
  | .root => put ((path? word).map fun x => a.withLayer { s with roots := append a.layer.roots x })
  | .nullable =>
      put ((Settings.nullableStyle? word).map fun x => a.withLayer { s with nullable := some x })
  | .draft => put ((Settings.draftNamed? word).map fun x => a.withLayer { s with draft := some x })
  | .timeout =>
      match number? word with
      | some n => .ok (a.withLayer { s with timeout := some n })
      | .none => .error (.invalidNumber flag)
  | .config => put ((path? word).map fun x => { a with config := some x })
  | _ => .ok a

/-- The arguments with an option that takes no value. -/
def setSwitch (a : Arguments) (flag : Flag) : Except Stop Arguments :=
  let s := Settings.none
  if a.has flag then .error (.repeated flag)
  else
    match flag with
    | .toCamel => .ok (a.withLayer { s with toCamel := some true })
    | .unreachable => .ok (a.withLayer { s with unreachable := some true })
    | .verbose => .ok { a with verbose := true }
    | .help => .error .help
    | .version => .error .version
    | _ => .ok a

/-- A missing value is reported before a repetition, and that before a wrong value. -/
def setOption (a : Arguments) (flag : Flag) (word : Option String) : Except Stop Arguments :=
  match word with
  | .none => .error (.invalidValue flag)
  | some word =>
      if !flag.isRepeatable && a.has flag then .error (.repeated flag) else a.setValue flag word

end Arguments

/-! ## Words -/

/-- The arguments so far, and the last option with its value if that was given. -/
structure Reading where
  args : Arguments
  pending : Option (Flag × Option String)

namespace Reading

def start : Reading := ⟨Arguments.none, none⟩

/-- Takes in the pending option. -/
def settle (r : Reading) : Except Stop Arguments :=
  match r.pending with
  | none => .ok r.args
  | some (flag, word) => r.args.setOption flag word

/-- The option that waits for a value. -/
def waiting? (r : Reading) : Option Flag :=
  match r.pending with
  | some (flag, none) => some flag
  | _ => none

/-- An option that stands alone; its value may follow. -/
def open? (r : Reading) (flag : Flag) : Except Stop Reading := do
  let args ← r.settle
  if flag.takesValue then return ⟨args, some (flag, none)⟩
  else return ⟨← args.setSwitch flag, none⟩

/-- An option with its value attached. -/
def attach (r : Reading) (flag : Flag) (word : String) : Except Stop Reading := do
  let args ← r.settle
  return ⟨← args.setOption flag (some word), none⟩

/-- A word after two dashes. -/
def long (r : Reading) (name : String) (value : Option String) : Except Stop Reading :=
  match Flag.long? name with
  | none => .error (.unknownArgument ("--" ++ name))
  | some flag =>
      match value with
      | none => r.open? flag
      | some word => if flag.takesValue then r.attach flag word else .error (.unneededValue flag)

/-- The letters after one dash. The rest of the word after an option with a value is its value, perhaps
after an equals sign. -/
def short (r : Reading) : List Char → Except Stop Reading
  | [] => .ok r
  | c :: rest =>
      match Flag.short? c with
      | none => .error (.unknownArgument ("-" ++ String.singleton c))
      | some flag =>
          if flag.takesValue then
            match rest with
            | [] => r.open? flag
            | '=' :: value => r.attach flag (String.ofList value)
            | value => r.attach flag (String.ofList value)
          else do short (← r.open? flag) rest

/-- A word that is no option: the value that is waited for. -/
def plain (r : Reading) (word : String) : Except Stop Reading :=
  match r.waiting? with
  | some flag => .ok { r with pending := some (flag, some word) }
  | none => .error (.unknownArgument word)

/-- The name and the value of a long option. -/
def splitLong (cs : List Char) : String × Option String :=
  let name := String.ofList (cs.takeWhile (· != '='))
  match cs.dropWhile (· != '=') with
  | _ :: value => (name, some (String.ofList value))
  | [] => (name, none)

/-- No word may follow two dashes that stand alone. -/
def words (r : Reading) : List String → Except Stop Reading
  | [] => .ok r
  | word :: rest =>
      match word.toList, rest with
      | ['-', '-'], [] => .ok r
      | ['-', '-'], next :: _ => .error (.unknownArgument next)
      | '-' :: '-' :: cs, rest => do
          let (name, value) := splitLong cs
          words (← r.long name value) rest
      | ['-'], rest => do words (← r.plain word) rest
      | '-' :: cs, rest => do words (← r.short cs) rest
      | _, rest => do words (← r.plain word) rest

end Reading

/-- Reads the words after the name of the program. -/
def Arguments.parse (words : List String) : Except Stop Arguments :=
  (Reading.start.words words).bind Reading.settle

end CommandLine
end WireTypes
