import WireTypes.Python.Grammar

/-!
# Script — statements from tokens

- `simpleStatement` reads one statement without a body;
- `statement`, `block` and `suite` read statements with bodies, by indentation;
- `Script.parse` reads a whole text: its statements with their source text, and the number of comments
  between them, or the line of the first statement that cannot be read.
-/

namespace WireTypes
namespace Python

open Grammar

/-- Reading that reports the line of the statement it could not read. -/
abbrev ScriptReading := StateT Cursor (Except Nat)

namespace Script

/-! ## Imports -/

def dottedRest : Nat → Reading Unit
  | 0 => return ()
  | fuel + 1 => do
      if ← continuesWith false "." then
        mark "."
        let _ ← word
        dottedRest fuel
      else return ()

/-- A dotted name as it is written. -/
def dottedName (fuel : Nat) : Reading String := do
  let t ← head
  let _ ← word
  dottedRest fuel
  textFrom t.start

def importedName (fuel : Nat) : Reading ImportedName := do
  let name ← dottedName fuel
  (do
    keyword "as"
    let given ← word
    return ⟨name, some given⟩)
  <|> return ⟨name, none⟩

def importedNames (inside : Bool) : Nat → Reading (List ImportedName)
  | 0 => fail
  | fuel + 1 => do
      let first ← importedName fuel
      if ← continuesWith inside "," then
        mark ","
        if (← atLineEnd inside) || (← nextIs ")") then return [first]
        else return first :: (← importedNames inside fuel)
      else return [first]

/-- Names after `import`, with or without parentheses. -/
def importedList (fuel : Nat) : Reading (List ImportedName) := do
  if ← nextIs "(" then
    mark "("
    let names ← importedNames true fuel
    mark ")"
    return names
  else importedNames false fuel

def leadingDots : Nat → Reading Nat
  | 0 => return 0
  | fuel + 1 => do
      if ← nextIs "." then
        mark "."
        return 1 + (← leadingDots fuel)
      else if ← nextIs "..." then
        mark "..."
        return 3 + (← leadingDots fuel)
      else return 0

def importModules (fuel : Nat) : Reading Statement := do
  keyword "import"
  return .importModules (← importedNames false fuel)

def importFrom (fuel : Nat) : Reading Statement := do
  keyword "from"
  if isWord (← head) "__future__" then
    let _ ← word
    keyword "import"
    let _ ← importedList fuel
    return .other
  else
    let level ← leadingDots fuel
    let t ← head
    let module ←
      if level > 0 && isWord t "import" then pure none
      else do
        let name ← dottedName fuel
        pure (some name)
    keyword "import"
    if ← nextIs "*" then
      mark "*"
      return .importFrom level module [] true
    else return .importFrom level module (← importedList fuel) false

/-! ## Assignments and expressions -/

def augmentedMarks : List String :=
  ["+=", "-=", "*=", "/=", "@=", "//=", "%=", "**=", ">>=", "<<=", "&=", "^=", "|="]

def startsAugmented : Reading Bool := do
  let t ← head
  return t.kind == .mark && augmentedMarks.contains t.text && !(← atLineEnd false)

/-- The right side of an assignment; a further assignment there has no structure. -/
def rightSide : Nat → Reading Term
  | 0 => fail
  | fuel + 1 => do
      let t ← head
      if isWord t "yield" then yielded false fuel
      else
        let (items, several) ← termList false fuel
        if ← continuesWith false "=" then
          require (Term.areTargets items)
          mark "="
          let _ ← rightSide fuel
          return .other (← textFrom t.start)
        else if ← continuesWith false ":" then
          require (Term.areTargets items)
          mark ":"
          let _ ← hint false true fuel
          if ← continuesWith false "=" then
            mark "="
            let _ ← rightSide fuel
          return .other (← textFrom t.start)
        else if ← startsAugmented then
          require (Term.areTargets items)
          let _ ← advance
          let _ ← rightSide fuel
          return .other (← textFrom t.start)
        else
          match items, several with
          | [item], false => return item
          | _, _ => return .other (← textFrom t.start)

/-- The name on the left of an assignment, if that is all. -/
def plainTarget (items : List Term) (several : Bool) : Option String :=
  match items, several with
  | [.identifier name], false => some name
  | _, _ => none

def assignment (fuel : Nat) : Reading Statement := do
  let t ← head
  if isWord t "yield" then return .expression (← yielded false fuel)
  else
    let (items, several) ← termList false fuel
    if ← continuesWith false "=" then
      require (Term.areTargets items)
      mark "="
      let value ← rightSide fuel
      return .assignment (plainTarget items several) none (some value)
    else if ← continuesWith false ":" then
      require (Term.areTargets items)
      mark ":"
      let type ← hint false true fuel
      if ← continuesWith false "=" then
        mark "="
        let value ← rightSide fuel
        return .assignment (plainTarget items several) (some type) (some value)
      else return .assignment (plainTarget items several) (some type) none
    else if ← startsAugmented then
      require (Term.areTargets items)
      let _ ← advance
      let _ ← rightSide fuel
      return .other
    else
      match items, several with
      | [item], false => return .expression item
      | _, _ => return .expression (.other (← textFrom t.start))

/-! ## Other simple statements -/

/-- An optional list of expressions. -/
def optionalTerms (fuel : Nat) : Reading Unit := do
  if startsOperand (← head) && !(← atLineEnd false) then
    let _ ← termList false fuel
    return ()
  else return ()

def names : Nat → Reading Unit
  | 0 => fail
  | fuel + 1 => do
      let _ ← word
      if ← continuesWith false "," then
        mark ","
        names fuel
      else return ()

def raised (fuel : Nat) : Reading Unit := do
  optionalTerms fuel
  if ← continuesWith false "from" then
    keyword "from"
    let _ ← term false fuel
    return ()
  else return ()

def printed (fuel : Nat) : Reading Unit := do
  keyword "print"
  if ← nextIs ">>" then mark ">>"
  let _ ← termList false fuel
  return ()

def executed (fuel : Nat) : Reading Unit := do
  keyword "exec"
  let _ ← operand false 14 fuel
  if ← continuesWith false "in" then
    keyword "in"
    let _ ← termList false fuel
    return ()
  else return ()

def typeAlias (fuel : Nat) : Reading Unit := do
  keyword "type"
  let _ ← hint false false fuel
  mark "="
  let _ ← hint false false fuel
  return ()

/-- A statement ends before a line end or a semicolon. -/
def ended : Reading Unit := do
  let t ← head
  require (t.indent.isSome || t.kind == .finish || isMark t ";")

/-- Runs a reading that leads to no declaration. -/
def ignored (r : Reading Unit) : Reading Statement := do
  r
  return .other

def simpleStatement (fuel : Nat) : Reading Statement := do
  let t ← head
  let s ←
    match t.kind, t.text with
    | .word, "import" => importModules fuel
    | .word, "from" => importFrom fuel
    | .word, "pass" => ignored (keyword "pass")
    | .word, "break" => ignored (keyword "break")
    | .word, "continue" => ignored (keyword "continue")
    | .word, "return" => ignored (do keyword "return"; optionalTerms fuel)
    | .word, "raise" => ignored (do keyword "raise"; raised fuel)
    | .word, "del" => ignored (do keyword "del"; let _ ← termList false fuel; return ())
    | .word, "assert" => ignored (do keyword "assert"; let _ ← termList false fuel; return ())
    | .word, "global" => ignored (do keyword "global"; names fuel)
    | .word, "nonlocal" => ignored (do keyword "nonlocal"; names fuel)
    | .word, "print" =>
        (do let s ← assignment fuel; ended; return s) <|> ignored (printed fuel)
    | .word, "exec" =>
        (do let s ← assignment fuel; ended; return s) <|> ignored (executed fuel)
    | .word, "type" =>
        (do let s ← assignment fuel; ended; return s) <|> ignored (typeAlias fuel)
    | _, _ => assignment fuel
  ended
  return s

/-- Statements joined by semicolons, each with its text. -/
def simpleStatements : Nat → Reading (List (Statement × String))
  | 0 => fail
  | fuel + 1 => do
      let t ← head
      let s ← simpleStatement fuel
      let text ← textFrom t.start
      if ← nextIs ";" then
        let next ← head
        if next.indent.isSome then return [(s, text)]
        else
          mark ";"
          if ← atLineEnd false then return [(s, text)]
          else return (s, text) :: (← simpleStatements fuel)
      else return [(s, text)]

/-! ## Statements with bodies -/

/-- A failure is reported at the given line. -/
def reporting {α : Type} (line : Nat) (r : Reading α) : ScriptReading α := fun c =>
  match r c with
  | some found => .ok found
  | none => .error line

/-- The colon after a header. When it is missing and the next line starts with an annotated name, that
line is reported. -/
def colon (line : Nat) : ScriptReading Unit := do
  let c ← get
  let t := c.rest.headD finishToken
  if isMark t ":" then
    let _ ← reporting line advance
    return ()
  else if t.indent.isSome && t.kind == .word && isMark (c.rest.getD 1 finishToken) ":" then
    throw t.line
  else throw line

/-- Whether the next token is this word at the start of a line of the block. -/
def clauseStarts (text : String) : ScriptReading Bool := do
  let c ← get
  let t := c.rest.headD finishToken
  return isWord t text && (t.indent.any (c.level ≤ ·))

def atBlockEnd : ScriptReading Bool := do
  let c ← get
  let t := c.rest.headD finishToken
  return t.kind == .finish || t.indent.any (· < c.level)

/-- The pattern of a case, up to its colon. -/
def skipPattern : Nat → Nat → Reading Unit
  | 0, _ => fail
  | fuel + 1, depth => do
      let t ← head
      if depth == 0 && isMark t ":" then return ()
      else
        let t ← advance
        require (t.kind != .bad)
        if t.kind == .mark && ["(", "[", "\x7b"].contains t.text then skipPattern fuel (depth + 1)
        else if t.kind == .mark && [")", "]", "\x7d"].contains t.text then
          require (depth > 0)
          skipPattern fuel (depth - 1)
        else skipPattern fuel depth

/-- Parameters of a generic class or function, if any. -/
def typeParameters (fuel : Nat) : Reading Unit := do
  if ← nextIs "[" then
    mark "["
    let _ ← typeArguments fuel
    mark "]"
  else return ()

/-- Name, bases and keywords of a class. -/
def classHeader (fuel : Nat) : Reading (Word × Arguments) := do
  keyword "class"
  let name ← name
  typeParameters fuel
  if ← nextIs "(" then
    mark "("
    let args ← callArguments fuel
    mark ")"
    return (name, args)
  else return (name, ⟨[], []⟩)

/-- Name and return annotation of a function. -/
def functionHeader (fuel : Nat) : Reading (String × Option Term) := do
  keyword "def"
  let name ← word
  typeParameters fuel
  mark "("
  parameters true ")" fuel
  mark ")"
  if ← nextIs "->" then
    mark "->"
    let returns ← hint false false fuel
    return (name, some returns)
  else return (name, none)

/-- What an exception handler catches. -/
def caught (fuel : Nat) : Reading Unit := do
  keyword "except"
  if ← nextIs "*" then mark "*"
  if ← nextIs ":" then return ()
  else
    let _ ← termList false fuel
    return ()

def decorator (fuel : Nat) : Reading Term := do
  mark "@"
  let t ← term false fuel
  require (← atLineEnd false)
  return t

mutual

/-- One statement, or several on one line. -/
def statement : Nat → ScriptReading (List (Statement × String))
  | 0 => throw 0
  | fuel + 1 => do
      let c ← get
      let t := c.rest.headD finishToken
      let next := c.rest.getD 1 finishToken
      let single := fun (s : Statement) => do
        let text ← reporting t.line (textFrom t.start)
        return [(s, text)]
      match t.kind, t.text with
      | .word, "class" => single (← definition t.line fuel)
      | .word, "def" => single (← definition t.line fuel)
      | .mark, "@" =>
          let (ds, d) ← decorators fuel
          single (.decorated ds d)
      | .word, "if" =>
          reporting t.line (do keyword "if"; let _ ← term false fuel; return ())
          colon t.line
          let body ← suite fuel
          let rest ← alternatives fuel
          single (.branches (body :: rest))
      | .word, "try" =>
          reporting t.line (keyword "try")
          colon t.line
          let body ← suite fuel
          let rest ← handlers t.line true fuel
          single (.branches (body :: rest))
      | .word, "while" =>
          reporting t.line (do keyword "while"; let _ ← term false fuel; return ())
          colon t.line
          let _ ← suite fuel
          let _ ← alternatives fuel
          single .other
      | .word, "for" => loop t.line fuel; single .other
      | .word, "with" => context t.line fuel; single .other
      | .word, "async" =>
          if isWord next "def" then single (← definition t.line fuel)
          else if isWord next "for" then
            reporting t.line (keyword "async")
            loop t.line fuel
            single .other
          else if isWord next "with" then
            reporting t.line (keyword "async")
            context t.line fuel
            single .other
          else reporting t.line (simpleStatements fuel)
      | .word, "match" =>
          match simpleStatements fuel c with
          | some (found, c) => set c; return found
          | none =>
              reporting t.line (do keyword "match"; let _ ← termList false fuel; return ())
              colon t.line
              caseBlock t.line fuel
              single .other
      | _, _ => reporting t.line (simpleStatements fuel)
termination_by structural fuel => fuel

/-- A class or function. -/
def definition (line : Nat) : Nat → ScriptReading Statement
  | 0 => throw line
  | fuel + 1 => do
      let t := (← get).rest.headD finishToken
      if isWord t "class" then
        let (name, args) ← reporting line (classHeader fuel)
        colon line
        let body ← suite fuel
        return .classDef name args.args args.named body
      else
        if isWord t "async" then reporting line (keyword "async")
        let (name, returns) ← reporting line (functionHeader fuel)
        colon line
        let body ← suite fuel
        return .function name returns body
termination_by structural fuel => fuel

/-- Decorators and what they decorate. -/
def decorators : Nat → ScriptReading (List Term × Statement)
  | 0 => throw 0
  | fuel + 1 => do
      let t := (← get).rest.headD finishToken
      let d ← reporting t.line (decorator fuel)
      if ← atBlockEnd then throw t.line
      let next := (← get).rest.headD finishToken
      if isMark next "@" then
        let (ds, s) ← decorators fuel
        return (d :: ds, s)
      else
        let s ← definition next.line fuel
        return ([d], s)
termination_by structural fuel => fuel

/-- What follows the condition's body. -/
def alternatives : Nat → ScriptReading (List (List Statement))
  | 0 => return []
  | fuel + 1 => do
      let line := ((← get).rest.headD finishToken).line
      if ← clauseStarts "elif" then
        reporting line (do keyword "elif"; let _ ← term false fuel; return ())
        colon line
        let body ← suite fuel
        return body :: (← alternatives fuel)
      else if ← clauseStarts "else" then
        reporting line (keyword "else")
        colon line
        return [← suite fuel]
      else return []
termination_by structural fuel => fuel

/-- What follows an attempt: handlers, an alternative, a conclusion. The first of them is a handler or
the conclusion. -/
def handlers (line : Nat) (first : Bool) : Nat → ScriptReading (List (List Statement))
  | 0 => throw line
  | fuel + 1 => do
      let here := ((← get).rest.headD finishToken).line
      if ← clauseStarts "except" then
        reporting here (caught fuel)
        colon here
        let body ← suite fuel
        return body :: (← handlers line false fuel)
      else if ← clauseStarts "finally" then
        reporting here (keyword "finally")
        colon here
        return [← suite fuel]
      else if first then throw line
      else if ← clauseStarts "else" then
        reporting here (keyword "else")
        colon here
        let body ← suite fuel
        if ← clauseStarts "finally" then
          let here := ((← get).rest.headD finishToken).line
          reporting here (keyword "finally")
          colon here
          return [body, ← suite fuel]
        else return [body]
      else return []
termination_by structural fuel => fuel

def loop (line : Nat) : Nat → ScriptReading Unit
  | 0 => throw line
  | fuel + 1 => do
      reporting line (do
        keyword "for"
        targets false fuel
        keyword "in"
        let _ ← termList false fuel
        return ())
      colon line
      let _ ← suite fuel
      let _ ← alternatives fuel
      return ()
termination_by structural fuel => fuel

def context (line : Nat) : Nat → ScriptReading Unit
  | 0 => throw line
  | fuel + 1 => do
      reporting line (do keyword "with"; let _ ← termList false fuel; return ())
      colon line
      let _ ← suite fuel
      return ()
termination_by structural fuel => fuel

/-- The cases of a `match`, one level deeper. -/
def caseBlock (line : Nat) : Nat → ScriptReading Unit
  | 0 => throw line
  | fuel + 1 => do
      let c ← get
      let t := c.rest.headD finishToken
      match t.indent with
      | some width =>
          if c.level < width && t.kind != .finish then
            set { c with level := width }
            caseClauses fuel
            if !(← atBlockEnd) then throw ((← get).rest.headD finishToken).line
            modify fun after => { after with level := c.level }
          else return ()
      | none => throw line
termination_by structural fuel => fuel

def caseClauses : Nat → ScriptReading Unit
  | 0 => return ()
  | fuel + 1 => do
      let line := ((← get).rest.headD finishToken).line
      if ← clauseStarts "case" then
        reporting line (do keyword "case"; skipPattern (fuel + 1) 0)
        colon line
        let _ ← suite fuel
        caseClauses fuel
      else return ()
termination_by structural fuel => fuel

/-- A body: deeper lines, the rest of the line, or nothing. -/
def suite : Nat → ScriptReading (List Statement)
  | 0 => throw 0
  | fuel + 1 => do
      let c ← get
      let t := c.rest.headD finishToken
      match t.indent with
      | some width =>
          if c.level < width && t.kind != .finish then
            set { c with level := width }
            let body ← block fuel
            modify fun after => { after with level := c.level }
            return body
          else return []
      | none => return (← reporting t.line (simpleStatements fuel)).map Prod.fst
termination_by structural fuel => fuel

/-- Statements up to a line that is indented less. -/
def block : Nat → ScriptReading (List Statement)
  | 0 => throw 0
  | fuel + 1 => do
      if ← atBlockEnd then return []
      else
        let found ← statement fuel
        return found.map Prod.fst ++ (← block fuel)
termination_by structural fuel => fuel

end

/-! ## Whole texts -/

/-- Statements with their texts, and the comments between them. -/
structure Parsed where
  statements : List (Statement × String)
  comments : Nat

def topLevel : Nat → ScriptReading Parsed
  | 0 => throw 0
  | fuel + 1 => do
      let t := (← get).rest.headD finishToken
      if t.kind == .finish then return ⟨[], t.comments⟩
      else
        let found ← statement fuel
        let more ← topLevel fuel
        return ⟨found ++ more.statements, t.comments + more.comments⟩

/-- The line of the first statement that cannot be read, or what the text holds. -/
def parse (cs : List Char) : Except Nat Parsed :=
  let ts := tokens cs
  let fuel := 40 * (ts.length + 2)
  match topLevel fuel ⟨cs.toArray, ts, 0, 0⟩ with
  | .ok (parsed, _) => .ok parsed
  | .error line => .error line

end Script
end Python
end WireTypes
