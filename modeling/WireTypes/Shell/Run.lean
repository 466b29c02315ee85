import WireTypes.Shell.Pattern
import WireTypes.Shell.Reader
import WireTypes.Shell.Utilities

/-!
# Running scripts

- `Shell.runAll` runs commands in a session;
- `Shell.start` runs a script file with arguments and an empty input, and gives its `Result`.

A session with a time limit ends when the limit is over, also if a loop never ends.
-/

namespace WireTypes
namespace Shell

/-! ## Arithmetic -/

namespace Arithmetic

inductive Lexeme
  | number (n : Int)
  | symbol (s : String)

def symbols : List String :=
  ["<=", ">=", "==", "!=", "&&", "||", "+", "-", "*", "/", "%", "<", ">", "(", ")", "!"]

/-- The parts of an expression, where `value` gives the numbers of names. -/
def lexemes (value : String → Int) : Nat → List Char → Option (List Lexeme)
  | 0, _ => none
  | _ + 1, [] => some []
  | fuel + 1, c :: rest =>
      if c == ' ' || c == '\t' || c == '\n' || c == '$' then lexemes value fuel rest
      else if c.isDigit then do
        let digits := (c :: rest).takeWhile Char.isDigit
        some (.number (number digits) :: (← lexemes value fuel ((c :: rest).drop digits.length)))
      else if isNameStart c then do
        let name := (c :: rest).takeWhile isNameRest
        some
          (.number (value (String.ofList name))
            :: (← lexemes value fuel ((c :: rest).drop name.length)))
      else
        match symbols.find? fun s => s.toList.isPrefixOf (c :: rest) with
        | some s => do some (.symbol s :: (← lexemes value fuel ((c :: rest).drop s.length)))
        | none => none

def truth (b : Bool) : Int := if b then 1 else 0

/-- How tightly an operator binds. -/
def level : String → Nat
  | "||" => 1
  | "&&" => 2
  | "==" | "!=" => 3
  | "<" | "<=" | ">" | ">=" => 4
  | "+" | "-" => 5
  | "*" | "/" | "%" => 6
  | _ => 0

def calculate (operator : String) (a b : Int) : Option Int :=
  match operator with
  | "||" => some (truth (a != 0 || b != 0))
  | "&&" => some (truth (a != 0 && b != 0))
  | "==" => some (truth (a == b))
  | "!=" => some (truth (a != b))
  | "<" => some (truth (a < b))
  | "<=" => some (truth (a ≤ b))
  | ">" => some (truth (b < a))
  | ">=" => some (truth (b ≤ a))
  | "+" => some (a + b)
  | "-" => some (a - b)
  | "*" => some (a * b)
  | "/" => if b = 0 then none else some (a.tdiv b)
  | "%" => if b = 0 then none else some (a.tmod b)
  | _ => none

mutual

def operand : Nat → List Lexeme → Option (Int × List Lexeme)
  | 0, _ => none
  | fuel + 1, ls =>
      match ls with
      | .number n :: rest => some (n, rest)
      | .symbol "-" :: rest => (operand fuel rest).map fun (n, rest) => (-n, rest)
      | .symbol "+" :: rest => operand fuel rest
      | .symbol "!" :: rest => (operand fuel rest).map fun (n, rest) => (truth (n == 0), rest)
      | .symbol "(" :: rest => do
          let (n, rest) ← binary fuel 1 rest
          match rest with
          | .symbol ")" :: rest => some (n, rest)
          | _ => none
      | _ => none
termination_by structural fuel => fuel

/-- Operators that bind at least as tightly as a level. -/
def binary : Nat → Nat → List Lexeme → Option (Int × List Lexeme)
  | 0, _, _ => none
  | fuel + 1, least, ls => do
      let (a, rest) ← operand fuel ls
      binaryMore fuel least a rest
termination_by structural fuel => fuel

def binaryMore : Nat → Nat → Int → List Lexeme → Option (Int × List Lexeme)
  | 0, _, _, _ => none
  | fuel + 1, least, a, ls =>
      match ls with
      | .symbol o :: rest =>
          if least ≤ level o && level o != 0 then do
            let (b, rest) ← binary fuel (level o + 1) rest
            binaryMore fuel least (← calculate o a b) rest
          else some (a, ls)
      | ls => some (a, ls)
termination_by structural fuel => fuel

end

/-- The value of an expression. -/
def value? (numberOf : String → Int) (text : String) : Option Int := do
  let cs := text.toList
  let ls ← lexemes numberOf (cs.length + 1) cs
  match ← binary (2 * ls.length + 2) 1 ls with
  | (n, []) => some n
  | _ => none

end Arithmetic

/-! ## Words -/

/-- A field of a command: its text, and the pattern that it is if it has wildcards. -/
structure Field where
  text : String
  pattern : String
  isWild : Bool

/-- Fields, and the one under construction if there is one. -/
structure Fields where
  finished : List Field
  current : Option Field

namespace Fields

def empty : Fields := ⟨[], none⟩

def close (f : Fields) : Fields :=
  match f.current with
  | some field => ⟨f.finished ++ [field], none⟩
  | none => f

/-- Adds text to the field under construction. -/
def extend (f : Fields) (text pattern : String) (isWild : Bool) : Fields :=
  let old := f.current.getD ⟨"", "", false⟩
  { f with current := some ⟨old.text ++ text, old.pattern ++ pattern, old.isWild || isWild⟩ }

def addQuoted (f : Fields) (s : String) : Fields := f.extend s (Pattern.escape s) false

def isWildcard (c : Char) : Bool := c == '*' || c == '?' || c == '['

/-- Text without quotation marks in the script itself. -/
def addPlain (f : Fields) (s : String) : Fields := f.extend s s (s.any isWildcard)

/-- Blanks between the parts of unquoted text end fields. -/
def addSplit (f : Fields) (s : String) : Fields :=
  s.toList.foldl
    (fun f c =>
      if c == ' ' || c == '\t' || c == '\n' then f.close else f.addPlain (String.singleton c))
    f

/-- Each item is a field; the first and the last join what stands around them. -/
def addItems (f : Fields) : List String → Fields
  | [] => f
  | [item] => f.addQuoted item
  | item :: rest => addItems (f.addQuoted item).close rest

def toList (f : Fields) : List Field := f.close.finished

def texts (f : Fields) : List String := f.toList.map (·.text)

end Fields

/-- The names in a directory that match a part of a path. -/
def matchingNames (t : FileTree) (directory part : String) : List String :=
  let place := t.find? (if directory.isEmpty then "." else directory)
  let names := ((place.map t.children).getD []).map (·.1)
  names.filter fun name =>
    (!name.startsWith "." || part.startsWith ".") && (Pattern.parse part).accepts name.toList

/-- The paths that match the parts of a pattern below a directory, which ends with a slash. -/
def matchingPaths (t : FileTree) (directory : String) : List String → List String
  | [] => []
  | [part] => (matchingNames t directory part).map (directory ++ ·)
  | part :: rest =>
      (matchingNames t directory part).flatMap fun name =>
        matchingPaths t (directory ++ name ++ "/") rest

/-- A field with wildcards stands for the paths that match, if there are any. -/
def expandField (t : FileTree) (f : Field) : List String :=
  if f.isWild then
    let found :=
      match f.pattern.splitOn "/" with
      | "" :: rest => matchingPaths t "/" rest
      | parts => matchingPaths t "" parts
    if found.isEmpty then [f.text] else found
  else [f.text]

/-- The number of rounds of one loop. -/
def roundLimit : Nat := 1000000

/-- Runs a loop with a mark that there is one more around its commands. -/
def withinLoop (loop : Session → Session × Flow) (s : Session) : Session × Flow :=
  let (after, flow) := loop { s with loops := s.loops + 1 }
  ({ after with loops := s.loops }, flow)

/-- Repeats a body while a condition goes on. A loop with too many rounds takes all the time. -/
def repeatWhile (condition : Session → Session × Flow) (body : Session → Session × Flow)
    (untilTrue : Bool) : Nat → Session → Session × Flow
  | 0, s => (s, .late)
  | rounds + 1, s =>
      match condition s with
      | (s, .next) =>
          if (s.status == 0) == untilTrue then (s.withStatus 0, .next)
          else
            match body s with
            | (s, .next) => repeatWhile condition body untilTrue rounds s
            | (s, .nextRound) => repeatWhile condition body untilTrue rounds s
            | (s, .leaveLoop) => (s, .next)
            | (s, flow) => (s, flow)
      | (s, flow) => (s, flow)

/-- Runs a body for each item. -/
def repeatFor (name : String) (body : Session → Session × Flow) :
    List String → Session → Session × Flow
  | [], s => (s, .next)
  | item :: rest, s =>
      match body (s.setVariable name item) with
      | (s, .next) => repeatFor name body rest s
      | (s, .nextRound) => repeatFor name body rest s
      | (s, .leaveLoop) => (s, .next)
      | (s, flow) => (s, flow)

/-- The text without line ends at its end. -/
def dropLineEnds (text : String) : String :=
  String.ofList (text.toList.reverse.dropWhile (· == '\n')).reverse

/-- Runs commands without ending the script when one fails. -/
def lenient (run : Session → Session × Flow) (s : Session) : Session × Flow :=
  let (after, flow) := run { s with strict := false }
  ({ after with strict := s.strict }, flow)

/-- Ends a strict script after a failing command. -/
def checked (result : Session × Flow) : Session × Flow :=
  match result with
  | (s, .next) => if s.strict && s.status != 0 then (s, .exit) else (s, .next)
  | other => other

/-- A session after commands that ran in a shell of their own: only what they did outside remains. -/
def afterSubshell (s after : Session) : Session :=
  { after with
    memory := s.memory, exported := s.exported, functions := s.functions, params := s.params
    name := s.name, strict := s.strict, loops := s.loops, sink1 := s.sink1, sink2 := s.sink2 }

/-- A shell of its own that ends does not end the script. -/
def subshellFlow : Flow → Flow
  | .signal n => .signal n
  | .late => .late
  | _ => .next

/-- The value of a parameter that counts as set. -/
def settled? (s : Session) (name : String) (rule : Substitution) : Option String :=
  (s.parameter? name).filter fun value => rule.keepsEmpty || !value.isEmpty

/-- The text of a piece in a pattern, where quoted text stands for itself. -/
def isQuoted : Piece → Bool
  | .text _ quoted => quoted
  | .parameter _ quoted => quoted
  | .length _ => false
  | .substitute _ _ _ quoted => quoted
  | .trimmed _ _ _ _ quoted => quoted
  | .arithmetic _ => false
  | .output _ quoted => quoted

def isOutput : Piece → Bool
  | .output _ _ => true
  | _ => false

/-- Whether commands run while words are expanded; then their status counts. -/
def hasOutput (assignments : List (String × Word)) (words : List Word) : Bool :=
  assignments.any (·.2.any isOutput) || words.any (·.any isOutput)

/-- Whether a redirection changes the input. -/
def Redirect.isInput : Redirect → Bool
  | .document _ => true
  | .fromFile _ => true
  | _ => false

mutual

/-- Adds the text of a piece to fields. -/
def expandPiece : Nat → Session → Fields → Piece → Session × Fields
  | 0, s, f, _ => (s, f)
  | fuel + 1, s, f, piece =>
      match piece with
      | .text text quoted => (s, if quoted then f.addQuoted text else f.addPlain text)
      | .parameter "@" true => (s, f.addItems s.params)
      | .parameter name quoted =>
          let value := (s.parameter? name).getD ""
          (s, if quoted then f.addQuoted value else f.addSplit value)
      | .length name => (s, f.addQuoted (toString ((s.parameter? name).getD "").utf8ByteSize))
      | .substitute name rule pieces quoted =>
          match settled? s name rule, rule.ifSet with
          | some value, false => (s, if quoted then f.addQuoted value else f.addSplit value)
          | none, true => (s, f)
          | _, _ =>
              if rule.assigns then
                let (s, text) := expandText fuel s pieces
                (s.setVariable name text, if quoted then f.addQuoted text else f.addSplit text)
              else expandPieces fuel s f pieces
      | .trimmed name atEnd longest pieces quoted =>
          let (s, pattern) := expandPattern fuel s pieces
          let value := ((s.parameter? name).getD "").toList
          let text := String.ofList ((Pattern.parse pattern).trim atEnd longest value)
          (s, if quoted then f.addQuoted text else f.addSplit text)
      | .arithmetic text =>
          let numberOf := fun name => ((s.parameter? name).bind String.toInt?).getD 0
          (s, f.addQuoted (((Arithmetic.value? numberOf text).map toString).getD ""))
      | .output body quoted =>
          let inner := { s with out := ByteArray.empty, sink1 := .out }
          let (after, _) := runAll fuel body inner
          let text := dropLineEnds (Text.lossy after.out)
          let s := { afterSubshell s after with out := s.out, sink1 := s.sink1 }
          (s, if quoted then f.addQuoted text else f.addSplit text)
termination_by structural fuel => fuel

def expandPieces : Nat → Session → Fields → List Piece → Session × Fields
  | 0, s, f, _ => (s, f)
  | fuel + 1, s, f, pieces =>
      match pieces with
      | [] => (s, f)
      | piece :: rest =>
          let (s, f) := expandPiece fuel s f piece
          expandPieces fuel s f rest
termination_by structural fuel => fuel

/-- The text of a word as a pattern. -/
def expandPattern : Nat → Session → Word → Session × String
  | 0, s, _ => (s, "")
  | fuel + 1, s, pieces =>
      match pieces with
      | [] => (s, "")
      | piece :: rest =>
          let (s, f) := expandPiece fuel s Fields.empty piece
          let text := " ".intercalate f.texts
          let (s, more) := expandPattern fuel s rest
          (s, (if isQuoted piece then Pattern.escape text else text) ++ more)
termination_by structural fuel => fuel

/-- The fields of words. -/
def expandWords : Nat → Session → List Word → Session × List String
  | 0, s, _ => (s, [])
  | fuel + 1, s, words =>
      match words with
      | [] => (s, [])
      | pieces :: rest =>
          let (s, f) := expandPieces fuel s Fields.empty pieces
          let (s, more) := expandWords fuel s rest
          (s, f.toList.flatMap (expandField s.tree) ++ more)
termination_by structural fuel => fuel

/-- The text of a word that is not split. -/
def expandText : Nat → Session → Word → Session × String
  | 0, s, _ => (s, "")
  | fuel + 1, s, pieces =>
      let (s, f) := expandPieces fuel s Fields.empty pieces
      (s, " ".intercalate f.texts)
termination_by structural fuel => fuel

def assignAll : Nat → Session → List (String × Word) → Session
  | 0, s, _ => s
  | fuel + 1, s, assignments =>
      match assignments with
      | [] => s
      | (name, pieces) :: rest =>
          let (s, text) := expandText fuel s pieces
          assignAll fuel (s.setVariable name text) rest
termination_by structural fuel => fuel

/-- The session with redirections; none if one fails. -/
def redirectAll : Nat → Session → List Redirect → Session × Bool
  | 0, s, _ => (s, false)
  | fuel + 1, s, redirects =>
      match redirects with
      | [] => (s, true)
      | .duplicate fd other :: rest =>
          let sink := if other = 1 then s.sink1 else s.sink2
          let s := if fd = 1 then { s with sink1 := sink } else { s with sink2 := sink }
          redirectAll fuel s rest
      | .document pieces :: rest =>
          let (s, text) := expandText fuel s pieces
          redirectAll fuel { s with input := text.toUTF8 } rest
      | .fromFile source :: rest =>
          let (s, name) := expandText fuel s source
          if name = "/dev/null" then redirectAll fuel { s with input := ByteArray.empty } rest
          else
            match contentOf? s name with
            | some content => redirectAll fuel { s with input := content } rest
            | none =>
                ((s.complainHere ("cannot open " ++ name ++ ": No such file")).withStatus 2, false)
      | .toFile fd append target :: rest =>
          let (s, name) := expandText fuel s target
          let put := fun (s : Session) (sink : Sink) =>
            if fd = 1 then { s with sink1 := sink } else { s with sink2 := sink }
          if name = "/dev/null" then redirectAll fuel (put s .discard) rest
          else
            let old := if append then (contentOf? s name).getD ByteArray.empty else ByteArray.empty
            match s.tree.write? name old with
            | none =>
                let reason := if isDirectory s name then "Is a directory" else "Directory nonexistent"
                ((s.complainHere ("cannot create " ++ name ++ ": " ++ reason)).withStatus 2, false)
            | some tree =>
                match tree.find? name with
                | none => (s, false)
                | some place => redirectAll fuel (put { s with tree } (.file place)) rest
termination_by structural fuel => fuel

/-- Runs a text in a shell of its own, which knows only what is exported. -/
def runInner : Nat → Session → String → String → List String → Session × Flow
  | 0, s, _, _, _ => (s, .late)
  | fuel + 1, s, text, name, params =>
      match parse? text with
      | none => ((s.complain (name ++ ": Syntax error")).withStatus 2, .next)
      | some commands =>
          let (after, flow) :=
            runAll fuel commands
              { s with
                name, params, memory := s.exportedMemory, functions := [], strict := false, loops := 0
                status := 0 }
          (afterSubshell s after, subshellFlow flow)
termination_by structural fuel => fuel

/-- Runs a function with arguments. -/
def runFunction : Nat → Session → Command → List String → Session × Flow
  | 0, s, _, _ => (s, .late)
  | fuel + 1, s, body, args =>
      let (after, flow) := run fuel body { s with params := args }
      let flow :=
        match flow with
        | .finish => .next
        | flow => flow
      ({ after with params := s.params }, flow)
termination_by structural fuel => fuel

/-- Runs a command by its words. -/
def runWords : Nat → Session → List String → Session × Flow
  | 0, s, _ => (s, .late)
  | fuel + 1, s, words =>
      match words with
      | [] => (s, .next)
      | "exec" :: rest =>
          match runWords fuel s rest with
          | (s, .next) => if rest.isEmpty then (s, .next) else (s, .exit)
          | other => other
      | "command" :: "-v" :: name :: _ =>
          let found := (utility? name).isSome || name == "sh"
          (if found then (line s name) else s.withStatus 127, .next)
      | "command" :: rest => runWords fuel s rest
      | "eval" :: rest =>
          match parse? (" ".intercalate rest) with
          | some commands => runAll fuel commands (s.withStatus 0)
          | none => ((s.complainHere "Syntax error").withStatus 2, .exit)
      | "." :: file :: _ =>
          match (contentOf? s file).bind fun content => parse? (Text.lossy content) with
          | some commands => runAll fuel commands (s.withStatus 0)
          | none =>
              ((s.complainHere (".: cannot open " ++ file ++ ": No such file")).withStatus 2, .exit)
      | "sh" :: "-c" :: text :: rest => runInner fuel s text (rest.headD "sh") (rest.drop 1)
      | "sh" :: file :: rest =>
          match contentOf? s file with
          | some content => runInner fuel s (Text.lossy content) file rest
          | none =>
              ((s.complain ("sh: 0: cannot open " ++ file ++ ": No such file")).withStatus 2, .next)
      | name :: args =>
          match s.functions.lookup name with
          | some body => runFunction fuel s body args
          | none =>
              match utility? name with
              | some utility => utility s args
              | none => ((s.complainHere (name ++ ": not found")).withStatus 127, .next)
termination_by structural fuel => fuel

def run : Nat → Command → Session → Session × Flow
  | 0, _, s => (s, .late)
  | fuel + 1, command, s =>
      match command with
      | .simple line assignments words redirects =>
          let (expanded, fields) := expandWords fuel { s with line } words
          let assigned := assignAll fuel expanded assignments
          if fields.isEmpty then
            let assigned := if hasOutput assignments words then assigned else assigned.withStatus 0
            let (after, _) := redirectAll fuel assigned redirects
            checked ({ after with sink1 := s.sink1, sink2 := s.sink2, input := s.input }, .next)
          else
            let named := { assigned with exported := assignments.map (·.1) ++ assigned.exported }
            let (redirected, isReady) := redirectAll fuel named redirects
            if fields = ["exec"] && isReady then (redirected, .next)
            else
              let (after, flow) :=
                if isReady then runWords fuel redirected fields else (redirected, .next)
              let isFed := redirects.any Redirect.isInput
              let after := { after with
                sink1 := s.sink1
                sink2 := s.sink2
                input := if isFed then s.input else after.input }
              checked
                (if assignments.isEmpty then after
                  else { after with memory := s.memory, exported := s.exported },
                  flow)
      | .pipe left right =>
          match run fuel left { s with out := ByteArray.empty, sink1 := .out, strict := false } with
          | (first, .late) => ({ first with out := s.out }, .late)
          | (first, _) =>
              let (after, flow) :=
                run fuel right
                  { s with
                    tree := first.tree, err := first.err, elapsed := first.elapsed
                    input := first.out }
              checked ({ afterSubshell s after with input := s.input }, subshellFlow flow)
      | .negated inner =>
          match lenient (run fuel inner) s with
          | (s, .next) => (s.withStatus (if s.status = 0 then 1 else 0), .next)
          | other => other
      | .both left right =>
          match lenient (run fuel left) s with
          | (s, .next) => if s.status = 0 then run fuel right s else (s, .next)
          | other => other
      | .either left right =>
          match lenient (run fuel left) s with
          | (s, .next) => if s.status = 0 then (s, .next) else run fuel right s
          | other => other
      | .branches cases otherwise => runCases fuel cases otherwise s
      | .choice subject cases =>
          let (s, text) := expandText fuel s subject
          runChoices fuel text cases (s.withStatus 0)
      | .loop untilTrue condition body =>
          withinLoop
            (repeatWhile (lenient (runAll fuel condition)) (runAll fuel body) untilTrue roundLimit) s
      | .forEach name words body =>
          let (s, items) := expandWords fuel s words
          withinLoop (repeatFor name (runAll fuel body) items) (s.withStatus 0)
      | .group false body => runAll fuel body s
      | .group true body =>
          let (after, flow) := runAll fuel body s
          checked (afterSubshell s after, subshellFlow flow)
      | .redirected inner redirects =>
          let (redirected, isReady) := redirectAll fuel s redirects
          let (after, flow) := if isReady then run fuel inner redirected else (redirected, .next)
          let input := if redirects.any Redirect.isInput then s.input else after.input
          ({ after with sink1 := s.sink1, sink2 := s.sink2, input }, flow)
      | .define name body =>
          ({ s with functions := (name, body) :: s.functions }.withStatus 0, .next)
termination_by structural fuel => fuel

/-- Runs the body of the first pattern that a text matches. -/
def runChoices : Nat → String → List (List Word × List Command) → Session → Session × Flow
  | 0, _, _, s => (s, .late)
  | fuel + 1, text, cases, s =>
      match cases with
      | [] => (s, .next)
      | (patterns, body) :: rest =>
          let (s, isMet) := matchesAny fuel text patterns s
          if isMet then runAll fuel body s else runChoices fuel text rest s
termination_by structural fuel => fuel

def matchesAny : Nat → String → List Word → Session → Session × Bool
  | 0, _, _, s => (s, false)
  | fuel + 1, text, patterns, s =>
      match patterns with
      | [] => (s, false)
      | pattern :: rest =>
          let (s, p) := expandPattern fuel s pattern
          if (Pattern.parse p).accepts text.toList then (s, true) else matchesAny fuel text rest s
termination_by structural fuel => fuel

def runCases : Nat → List (List Command × List Command) → List Command → Session → Session × Flow
  | 0, _, _, s => (s, .late)
  | fuel + 1, cases, otherwise, s =>
      match cases with
      | [] => runAll fuel otherwise (s.withStatus 0)
      | (condition, body) :: rest =>
          match lenient (runAll fuel condition) s with
          | (s, .next) => if s.status = 0 then runAll fuel body s else runCases fuel rest otherwise s
          | other => other
termination_by structural fuel => fuel

/-- Runs commands one after the other. -/
def runAll : Nat → List Command → Session → Session × Flow
  | 0, _, s => (s, .late)
  | fuel + 1, commands, s =>
      match commands with
      | [] => (s, .next)
      | command :: rest =>
          match run fuel command s with
          | (s, .next) => runAll fuel rest s
          | other => other
termination_by structural fuel => fuel

end

/-! ## Processes -/

/-- What a finished or stopped process leaves behind. -/
inductive Ending
  | ended (status : ExitStatus)
  | stopped
  deriving DecidableEq, Repr

structure Result where
  tree : FileTree
  ending : Ending
  out : ByteArray
  err : ByteArray

def session (t : FileTree) (name : String) (args : List String) (limit : Option Milliseconds) :
    Session :=
  { tree := t, name, params := args, memory := [], exported := [], functions := [], status := 0
    line := 1, loops := 0
    out := ByteArray.empty, err := ByteArray.empty, input := ByteArray.empty
    sink1 := .out, sink2 := .err, elapsed := 0, limit, strict := false }

def endingOf (s : Session) : Flow → Ending
  | .signal n => .ended (.killed n)
  | .late => .stopped
  | _ => .ended (.exited s.status)

/-- Runs a text. -/
def runText (text : String) (s : Session) : Result :=
  match parse? text with
  | none =>
      let s := (s.complain (s.name ++ ": Syntax error")).withStatus 2
      ⟨s.tree, .ended (.exited s.status), s.out, s.err⟩
  | some commands =>
      let (s, flow) := runAll (4 * text.length + 64) commands s
      ⟨s.tree, endingOf s flow, s.out, s.err⟩

/-- Runs the shell with a script file, or with a text after `-c`. -/
def start (t : FileTree) (args : List String) (limit : Option Milliseconds) : Result :=
  match args with
  | "-c" :: text :: name :: rest => runText text (session t name rest limit)
  | ["-c", text] => runText text (session t "sh" [] limit)
  | file :: rest =>
      let s := session t file rest limit
      match contentOf? s file with
      | some content => runText (Text.lossy content) s
      | none =>
          let s := s.complain ("sh: 0: cannot open " ++ file ++ ": No such file")
          ⟨t, .ended (.exited 2), s.out, s.err⟩
  | [] => ⟨t, .ended (.exited 0), ByteArray.empty, ByteArray.empty⟩

end Shell
end WireTypes
