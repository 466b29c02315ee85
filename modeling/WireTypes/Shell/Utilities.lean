import WireTypes.Shell.Session

/-!
# Utilities — the commands that a script can use

Each utility takes a session and its arguments, and gives the session after it with its status.
-/

namespace WireTypes
namespace Shell

open Session

/-! ## Escapes -/

/-- The character of a letter after a backslash. -/
def controlEscape? : Char → Option Nat
  | 'a' => some 7
  | 'b' => some 8
  | 'f' => some 12
  | 'n' => some 10
  | 'r' => some 13
  | 't' => some 9
  | 'v' => some 11
  | '\\' => some 92
  | '"' => some 34
  | '\'' => some 39
  | _ => none

def isOctal (c : Char) : Bool := '0' ≤ c && c ≤ '7'

/-- Up to `count` octal digits as a byte, and what follows them. -/
def octal (count : Nat) (cs : List Char) : UInt8 × List Char :=
  let digits := (cs.take count).takeWhile isOctal
  (UInt8.ofNat (digits.foldl (fun n c => n * 8 + (c.toNat - '0'.toNat)) 0), cs.drop digits.length)

/-- Bytes with escapes, and whether the output ends here. An octal number follows a zero if `zeroed`. -/
def escaped (zeroed : Bool) : Nat → List Char → ByteArray × Bool
  | 0, _ => (ByteArray.empty, false)
  | _ + 1, [] => (ByteArray.empty, false)
  | fuel + 1, cs =>
      let join := fun (bytes : ByteArray) (rest : List Char) =>
        let (more, ends) := escaped zeroed fuel rest
        (bytes ++ more, ends)
      match cs with
      | [] => (ByteArray.empty, false)
      | '\\' :: 'c' :: _ => (ByteArray.empty, true)
      | '\\' :: '0' :: rest =>
          let (b, rest) := if zeroed then octal 3 rest else octal 3 ('0' :: rest)
          join (ByteArray.mk #[b]) rest
      | '\\' :: c :: rest =>
          match controlEscape? c with
          | some n => join (ByteArray.mk #[UInt8.ofNat n]) rest
          | none =>
              if isOctal c && !zeroed then
                let (b, rest) := octal 3 (c :: rest)
                join (ByteArray.mk #[b]) rest
              else join ("\\" ++ String.singleton c).toUTF8 rest
      | c :: rest => join (String.singleton c).toUTF8 rest

/-! ## Writing -/

def echo (s : Session) (args : List String) : Session :=
  let (newline, args) :=
    match args with
    | "-n" :: rest => (false, rest)
    | args => (true, args)
  let text := " ".intercalate args
  let (bytes, ends) := escaped true (text.length + 1) text.toList
  ((s.write bytes).write (if newline && !ends then "\n".toUTF8 else ByteArray.empty)).withStatus 0

/-- A conversion of a format: flags, width, precision and letter. -/
structure Conversion where
  left : Bool
  zeros : Bool
  width : Nat
  precision : Option Nat
  letter : Char

def number (digits : List Char) : Nat :=
  digits.foldl (fun n c => n * 10 + (c.toNat - '0'.toNat)) 0

/-- The conversion after a percent sign. -/
def conversion? (cs : List Char) : Option (Conversion × List Char) :=
  let flags := cs.takeWhile fun c => c == '-' || c == '0' || c == '+' || c == ' '
  let rest := cs.drop flags.length
  let width := rest.takeWhile Char.isDigit
  let rest := rest.drop width.length
  let (precision, rest) :=
    match rest with
    | '.' :: more =>
        let digits := more.takeWhile Char.isDigit
        (some (number digits), more.drop digits.length)
    | rest => (none, rest)
  match rest with
  | letter :: rest =>
      some (⟨flags.contains '-', flags.contains '0', number width, precision, letter⟩, rest)
  | [] => none

def pad (c : Conversion) (text : String) : String :=
  let missing := c.width - text.length
  let fill := fun (mark : Char) => String.ofList (List.replicate missing mark)
  if c.left then text ++ fill ' '
  else if c.zeros && c.letter != 's' then
    match text.toList with
    | '-' :: digits => "-" ++ fill '0' ++ String.ofList digits
    | _ => fill '0' ++ text
  else fill ' ' ++ text

def integerOf (arg : String) : Int := (arg.toInt?).getD 0

/-- One conversion with its argument. -/
def convert (c : Conversion) (arg : String) : ByteArray × Bool :=
  let plain := fun (text : String) => ((pad c text).toUTF8, false)
  match c.letter with
  | 's' =>
      plain (match c.precision with
        | some n => String.ofList (arg.toList.take n)
        | none => arg)
  | 'b' => escaped true (arg.length + 1) arg.toList
  | 'c' => plain (String.ofList (arg.toList.take 1))
  | 'o' => plain (String.ofList (Nat.toDigits 8 (integerOf arg).toNat))
  | 'x' => plain (String.ofList (Nat.toDigits 16 (integerOf arg).toNat))
  | 'X' => plain (String.ofList ((Nat.toDigits 16 (integerOf arg).toNat).map Char.toUpper))
  | _ => plain (toString (integerOf arg))

/-- One pass over a format: the output, the arguments that are left, and whether the output ends. -/
def formatOnce : Nat → List Char → List String → ByteArray × List String × Bool
  | 0, _, args => (ByteArray.empty, args, false)
  | _ + 1, [], args => (ByteArray.empty, args, false)
  | fuel + 1, cs, args =>
      let join := fun (bytes : ByteArray) (rest : List Char) (args : List String) =>
        let (more, args, ends) := formatOnce fuel rest args
        (bytes ++ more, args, ends)
      match cs with
      | [] => (ByteArray.empty, args, false)
      | '%' :: '%' :: rest => join "%".toUTF8 rest args
      | '%' :: rest =>
          match conversion? rest with
          | none => (ByteArray.empty, args, true)
          | some (c, rest) =>
              let (bytes, ends) := convert c (args.headD "")
              if ends then (bytes, args.drop 1, true) else join bytes rest (args.drop 1)
      | '\\' :: c :: rest =>
          match controlEscape? c with
          | some n => join (ByteArray.mk #[UInt8.ofNat n]) rest args
          | none =>
              if isOctal c then
                let (b, rest) := octal 3 (c :: rest)
                join (ByteArray.mk #[b]) rest args
              else join ("\\" ++ String.singleton c).toUTF8 rest args
      | c :: rest => join (String.singleton c).toUTF8 rest args

/-- A format is used again while it takes arguments and some are left. -/
def formatAll (text : List Char) : Nat → List String → ByteArray
  | 0, _ => ByteArray.empty
  | fuel + 1, args =>
      let (bytes, left, ends) := formatOnce (text.length + 1) text args
      if ends || left.isEmpty || left.length = args.length then bytes
      else bytes ++ formatAll text fuel left

def printf (s : Session) (args : List String) : Session :=
  match args with
  | "--" :: text :: rest => (s.write (formatAll text.toList (rest.length + 1) rest)).withStatus 0
  | text :: rest => (s.write (formatAll text.toList (rest.length + 1) rest)).withStatus 0
  | [] => (s.complainHere "printf: usage: printf format [arg ...]").withStatus 2

/-! ## Files -/

/-- The content of a file that a name leads to. -/
def contentOf? (s : Session) (name : String) : Option ByteArray :=
  (s.tree.find? name).bind s.tree.read?

def isDirectory (s : Session) (name : String) : Bool :=
  ((s.tree.find? name).bind s.tree.entry?).any FileTree.Entry.isDirectory

def catFile (s : Session) (name : String) : Session :=
  if name = "-" then { s.write s.input with input := ByteArray.empty }
  else if name = "/dev/null" then s
  else
    match contentOf? s name with
    | some content => s.write content
    | none =>
        let reason :=
          if isDirectory s name then "Is a directory" else "No such file or directory"
        (s.complain ("cat: " ++ name ++ ": " ++ reason)).withStatus 1

def cat (s : Session) (args : List String) : Session :=
  (if args.isEmpty then ["-"] else args).foldl catFile (s.withStatus 0)

/-- The path without slashes at its end. -/
def trimSlashes (path : String) : String :=
  let trimmed := (path.toList.reverse.dropWhile (· == '/')).reverse
  if trimmed.isEmpty && !path.isEmpty then "/" else String.ofList trimmed

def baseName (path : String) : String :=
  let trimmed := trimSlashes path
  if trimmed = "/" then trimmed else (trimmed.splitOn "/").getLastD trimmed

def directoryName (path : String) : String :=
  match ((trimSlashes path).splitOn "/").dropLast with
  | [] => "."
  | [""] => "/"
  | names => trimSlashes ("/".intercalate names)

/-- Drops a suffix unless nothing would be left. -/
def withoutSuffix (name suffix : String) : String :=
  if name != suffix && name.endsWith suffix then
    String.ofList (name.toList.take (name.length - suffix.length))
  else name

def line (s : Session) (text : String) : Session := (s.write (text ++ "\n").toUTF8).withStatus 0

def basename (s : Session) (args : List String) : Session :=
  match args with
  | [path] => line s (baseName path)
  | [path, suffix] => line s (withoutSuffix (baseName path) suffix)
  | _ => (s.complain "basename: missing operand").withStatus 1

def dirname (s : Session) (args : List String) : Session :=
  match args with
  | [] => (s.complain "dirname: missing operand").withStatus 1
  | paths => paths.foldl (fun s path => line s (directoryName path)) s

/-- The content of a file, or the input where no file is named. -/
def inputFor (s : Session) (name : Option String) : Option ByteArray × Session :=
  match name with
  | none => (some s.input, { s with input := ByteArray.empty })
  | some "-" => (some s.input, { s with input := ByteArray.empty })
  | some name => (contentOf? s name, s)

/-- The lines of a content with their line ends. -/
def linesOf (content : ByteArray) : List (List UInt8) :=
  content.toList.foldr
    (fun b lines =>
      match lines with
      | [] => [[b]]
      | line :: rest => if b == 10 then [b] :: line :: rest else (b :: line) :: rest)
    []

/-- The number of lines that options ask for, and the names after them. -/
def lineCount (args : List String) : Nat × List String :=
  match args with
  | "-n" :: count :: rest => ((count.toNat?).getD 10, rest)
  | arg :: rest =>
      if arg.startsWith "-n" then ((String.ofList (arg.toList.drop 2)).toNat?.getD 10, rest)
      else
        match arg.toList with
        | '-' :: digits => ((String.ofList digits).toNat?.getD 10, rest)
        | _ => (10, args)
  | [] => (10, [])

/-- Writes some of the lines of a file or of the input. -/
def someLines (name : String) (choose : Nat → List (List UInt8) → List (List UInt8)) (s : Session)
    (args : List String) : Session :=
  let (count, names) := lineCount args
  match inputFor s names.head? with
  | (some content, s) =>
      (s.write (ByteArray.mk (choose count (linesOf content)).flatten.toArray)).withStatus 0
  | (none, s) =>
      (s.complain (name ++ ": cannot open '" ++ names.headD ""
        ++ "' for reading: No such file or directory")).withStatus 1

def head (s : Session) (args : List String) : Session :=
  someLines "head" (fun n lines => lines.take n) s args

def tail (s : Session) (args : List String) : Session :=
  someLines "tail" (fun n lines => lines.drop (lines.length - n)) s args

/-- The number of words in a content. -/
def wordCount (bytes : List UInt8) : Nat :=
  let isSpace := fun (b : UInt8) => b == 32 || (9 ≤ b && b ≤ 13)
  (bytes.foldl
    (fun (n, isInside) b => if isSpace b then (n, false) else (if isInside then n else n + 1, true))
    (0, false)).1

/-- Counts lines, words or bytes. -/
def count (s : Session) (args : List String) : Session :=
  let (options, names) := args.partition (·.startsWith "-")
  match inputFor s names.head? with
  | (none, s) =>
      (s.complain ("wc: " ++ names.headD "" ++ ": No such file or directory")).withStatus 1
  | (some content, s) =>
      let bytes := content.toList
      let shown := " ".intercalate (options.map fun option =>
        match option with
        | "-l" => toString (bytes.filter (· == 10)).length
        | "-w" => toString (wordCount bytes)
        | _ => toString bytes.length)
      line s (" ".intercalate (shown :: names))

/-- Lists a directory or names a file. -/
def list (s : Session) (args : List String) : Session :=
  let name := (args.filter (!·.startsWith "-")).headD "."
  match s.tree.find? name with
  | none =>
      (s.complain ("ls: cannot access '" ++ name ++ "': No such file or directory")).withStatus 2
  | some place =>
      if isDirectory s name then
        let names := ((s.tree.children place).map (·.1)).filter (!·.startsWith ".")
        names.foldl line (s.withStatus 0)
      else line s name

/-- Removes files. -/
def removeFiles (s : Session) (args : List String) : Session :=
  (args.filter (!·.startsWith "-")).foldl
    (fun s name =>
      match s.tree.find? name with
      | some place =>
          { s with tree := { s.tree with entries := s.tree.entries.filter (·.1 != place) } }
      | none =>
          if args.contains "-f" then s
          else
            (s.complain ("rm: cannot remove '" ++ name ++ "': No such file or directory")).withStatus 1)
    (s.withStatus 0)

/-! ## Tests -/

def compareNumbers? (operator : String) : Option (Int → Int → Bool) :=
  match operator with
  | "-eq" => some fun a b => a == b
  | "-ne" => some fun a b => a != b
  | "-lt" => some fun a b => a < b
  | "-le" => some fun a b => a ≤ b
  | "-gt" => some fun a b => b < a
  | "-ge" => some fun a b => b ≤ a
  | _ => none

/-- Whether something stands at the end of a path. -/
def exists? (s : Session) (name : String) : Bool := (s.tree.find? name).isSome

def testUnary? (s : Session) (operator arg : String) : Option Bool :=
  match operator with
  | "-n" => some (!arg.isEmpty)
  | "-z" => some arg.isEmpty
  | "-f" => some (contentOf? s arg).isSome
  | "-r" => some (exists? s arg)
  | "-w" => some (exists? s arg)
  | "-e" => some (exists? s arg)
  | "-x" => some (isDirectory s arg)
  | "-s" => some ((contentOf? s arg).any (0 < ·.size))
  | "-d" => some (isDirectory s arg)
  | "-t" => some false
  | _ => none

/-- The number of a text, or why it is none. -/
def numberFor (text : String) : Except String Int :=
  match text.toInt? with
  | some n => .ok n
  | none => .error ("Illegal number: " ++ text)

def testBinary (a operator b : String) : Except String Bool :=
  match operator with
  | "=" => .ok (a == b)
  | "!=" => .ok (a != b)
  | operator =>
      match compareNumbers? operator with
      | some compare => do return compare (← numberFor a) (← numberFor b)
      | none => .error (a ++ ": unexpected operator")

/-- The truth of an expression without connectives. -/
def simpleTest (s : Session) : List String → Except String Bool
  | [] => .ok false
  | [arg] => .ok (!arg.isEmpty)
  | ["!", arg] => .ok arg.isEmpty
  | [operator, arg] =>
      match testUnary? s operator arg with
      | some b => .ok b
      | none => .error (operator ++ ": unexpected operator")
  | [a, operator, b] =>
      if a = "!" then (simpleTest s [operator, b]).map (!·) else testBinary a operator b
  | "!" :: rest => (simpleTest s rest).map (!·)
  | first :: _ => .error (first ++ ": unexpected operator")

/-- The parts between separators. -/
def splitAtWord (separator : String) : List String → List (List String)
  | [] => [[]]
  | word :: rest =>
      match splitAtWord separator rest with
      | [] => [[word]]
      | part :: parts => if word = separator then [] :: part :: parts else (word :: part) :: parts

/-- The truth of an expression, in which `-a` binds closer than `-o`. -/
def holds (s : Session) (args : List String) : Except String Bool :=
  if args.length ≤ 3 then simpleTest s args
  else do
    let cases ← (splitAtWord "-o" args).mapM fun part => do
      return (← (splitAtWord "-a" part).mapM (simpleTest s)).all id
    return cases.any id

def test (name : String) (s : Session) (args : List String) : Session :=
  match holds s args with
  | .ok true => s.withStatus 0
  | .ok false => s.withStatus 1
  | .error reason => (s.complainHere (name ++ ": " ++ reason)).withStatus 2

def bracket (s : Session) (args : List String) : Session :=
  if args.getLast? = some "]" then test "[" s args.dropLast
  else (s.complainHere "[: missing ]").withStatus 2

/-! ## Input, time and signals -/

/-- Reads a line into named values; the last one takes what is left. -/
def assignFields (s : Session) : List String → List String → Session
  | [], _ => s
  | [name], fields => s.setVariable name (" ".intercalate fields)
  | name :: names, fields => assignFields (s.setVariable name (fields.headD "")) names (fields.drop 1)

def read (s : Session) (args : List String) : Session :=
  let names := args.filter (!·.startsWith "-")
  let bytes := s.input.toList
  let taken := bytes.takeWhile (· != 10)
  let text := Text.lossy (ByteArray.mk taken.toArray)
  let fields := (text.splitOn " ").filter (!·.isEmpty)
  let rest := (bytes.drop taken.length).drop 1
  let s := assignFields { s with input := ByteArray.mk rest.toArray } names fields
  s.withStatus (if taken.length < bytes.length then 0 else 1)

/-- A time in seconds with at most three decimal places. -/
def seconds? (text : String) : Option Milliseconds :=
  match text.splitOn "." with
  | [whole] => whole.toNat?.map (· * 1000)
  | [whole, places] => do
      let w ← if whole.isEmpty then some 0 else whole.toNat?
      let p ← (String.ofList ((places.toList ++ ['0', '0', '0']).take 3)).toNat?
      some (w * 1000 + p)
  | _ => none

def signalNumber? (text : String) : Option Nat :=
  match text with
  | "HUP" => some 1
  | "INT" => some 2
  | "QUIT" => some 3
  | "ABRT" => some 6
  | "KILL" => some 9
  | "USR1" => some 10
  | "SEGV" => some 11
  | "USR2" => some 12
  | "PIPE" => some 13
  | "ALRM" => some 14
  | "TERM" => some 15
  | text => text.toNat?

/-- The signal that a command sends to its own script; zero only asks whether it is there. -/
def killSelf? (args : List String) : Option Nat :=
  match args with
  | [target] => if target = Session.processId then some 15 else none
  | [signal, target] =>
      if target = Session.processId && signal.startsWith "-" then
        signalNumber? (String.ofList (signal.toList.drop 1))
      else none
  | ["-s", signal, target] =>
      if target = Session.processId then signalNumber? signal else none
  | _ => none

def kill (s : Session) (args : List String) : Session × Flow :=
  match killSelf? args with
  | some 0 => (s.withStatus 0, .next)
  | some n => (s, .signal n)
  | none => ((s.complainHere "kill: No such process\n").withStatus 1, .next)

def sleep (s : Session) (args : List String) : Session × Flow :=
  match args.mapM seconds? with
  | some times => (s.withStatus 0).wait (times.foldl (· + ·) 0)
  | none => ((s.complain "sleep: invalid time interval").withStatus 1, .next)

/-- Ends the script or a function with a status. -/
def leave (name : String) (flow : Flow) (s : Session) (args : List String) : Session × Flow :=
  match args with
  | [] => (s, flow)
  | arg :: _ =>
      match arg.toNat? with
      | some n => (s.withStatus (n % 256), flow)
      | none => ((s.complainHere (name ++ ": Illegal number: " ++ arg)).withStatus 2, .exit)

/-- Drops parameters; too many of them end the script. -/
def shift (s : Session) (args : List String) : Session × Flow :=
  let n := (args.head?.bind String.toNat?).getD 1
  if n ≤ s.params.length then (({ s with params := s.params.drop n }).withStatus 0, .next)
  else ((s.complainHere "shift: can't shift that many").withStatus 2, .exit)

/-- Options before the parameters, which are kept where none are given. -/
def setOptions (s : Session) (args : List String) : Session :=
  match args with
  | [] => s.withStatus 0
  | "--" :: rest => ({ s with params := rest }).withStatus 0
  | arg :: rest =>
      if arg.startsWith "-" then
        setOptions (if arg.contains 'e' then { s with strict := true } else s) rest
      else if arg.startsWith "+" then
        setOptions (if arg.contains 'e' then { s with strict := false } else s) rest
      else ({ s with params := args }).withStatus 0

/-- Sets names to values, and makes them known to other programs if asked to. -/
def declareNames (exports : Bool) (s : Session) (args : List String) : Session :=
  (args.filter (!·.startsWith "-")).foldl
    (fun s arg =>
      let name := String.ofList (arg.toList.takeWhile (· != '='))
      let s :=
        match arg.toList.dropWhile (· != '=') with
        | _ :: value => s.setVariable name (String.ofList value)
        | [] => s
      if exports then { s with exported := name :: s.exported } else s)
    (s.withStatus 0)

/-- A loop is left, or goes on, only if there is one. -/
def loopFlow (flow : Flow) (s : Session) : Session × Flow :=
  (s.withStatus 0, if s.loops = 0 then .next else flow)

/-- Numbers from one to another, a line each. -/
def sequence (s : Session) (args : List String) : Session :=
  match args.mapM String.toInt? with
  | some [last] => count s 1 last
  | some [first, last] => count s first last
  | _ => (s.complain "seq: invalid argument").withStatus 1
where
  count (s : Session) (first last : Int) : Session :=
    ((List.range (last - first + 1).toNat).foldl
      (fun s (n : Nat) => line s (toString (first + n))) s).withStatus 0

/-- Runs a command by its name. -/
def utility? (name : String) : Option (Session → List String → Session × Flow) :=
  let simple := fun (f : Session → List String → Session) => some fun s args => (f s args, Flow.next)
  match name with
  | ":" => simple fun s _ => s.withStatus 0
  | "true" => simple fun s _ => s.withStatus 0
  | "false" => simple fun s _ => s.withStatus 1
  | "echo" => simple echo
  | "printf" => simple printf
  | "cat" => simple cat
  | "basename" => simple basename
  | "dirname" => simple dirname
  | "head" => simple head
  | "tail" => simple tail
  | "wc" => simple count
  | "ls" => simple list
  | "rm" => simple removeFiles
  | "pwd" => simple fun s _ => line s (Path.display s.tree.workingDirectory)
  | "test" => simple (test "test")
  | "[" => simple bracket
  | "read" => simple read
  | "set" => simple setOptions
  | "unset" => simple fun s args => args.foldl unsetVariable (s.withStatus 0)
  | "seq" => simple sequence
  | "export" => simple (declareNames true)
  | "readonly" => simple (declareNames false)
  | "local" => simple (declareNames false)
  | "trap" => simple fun s _ => s.withStatus 0
  | "umask" => simple fun s _ => s.withStatus 0
  | "ulimit" => simple fun s _ => s.withStatus 0
  | "wait" => simple fun s _ => s.withStatus 0
  | "shift" => some shift
  | "sleep" => some sleep
  | "kill" => some kill
  | "exit" => some (leave "exit" .exit)
  | "return" => some (leave "return" .finish)
  | "break" => some fun s _ => loopFlow .leaveLoop s
  | "continue" => some fun s _ => loopFlow .nextRound s
  | _ => none

end Shell
end WireTypes
