import WireTypes.Shell.Script

/-!
# Script text — reading

- `Shell.tokens` splits a text into words, operators and the bodies of documents in the text;
- `Shell.parse?` reads the commands of a text.
-/

namespace WireTypes
namespace Shell

inductive Token
  | word (pieces : Word)
  | operator (symbol : String)
  | newline
  | document (pieces : Word)

/-- A token with the line on which it stands. -/
abbrev Tokens := List (Token × Nat)

/-! ## Characters -/

def isBlank (c : Char) : Bool := c == ' ' || c == '\t'

def isMeta (c : Char) : Bool := isBlank c || "\n;&|<>()".contains c

def isNameStart (c : Char) : Bool := c.isAlpha || c == '_'

def isNameRest (c : Char) : Bool := c.isAlphanum || c == '_'

/-- Parameters that are named by one character. -/
def isSpecialParameter (c : Char) : Bool := c.isDigit || "#@*?$!-".contains c

/-- The text before the parenthesis that closes, and the text after it. -/
def closeParen : Nat → List Char → List Char → Option (List Char × List Char)
  | _, _, [] => none
  | depth, acc, '\\' :: c :: rest => closeParen depth (c :: '\\' :: acc) rest
  | depth, acc, '(' :: rest => closeParen (depth + 1) ('(' :: acc) rest
  | 0, acc, ')' :: rest => some (acc.reverse, rest)
  | depth + 1, acc, ')' :: rest => closeParen depth (')' :: acc) rest
  | depth, acc, c :: rest => closeParen depth (c :: acc) rest

/-- The text up to the backtick that closes, and the text after it. -/
def closeBacktick : List Char → List Char → Option (List Char × List Char)
  | _, [] => none
  | acc, '\\' :: c :: rest =>
      if "$\x60\\".contains c then closeBacktick (c :: acc) rest
      else closeBacktick (c :: '\\' :: acc) rest
  | acc, '\x60' :: rest => some (acc.reverse, rest)
  | acc, c :: rest => closeBacktick (c :: acc) rest

/-- Two parentheses that close an arithmetic expression. -/
def closeArithmetic (cs : List Char) : Option (String × List Char) :=
  match closeParen 0 [] cs with
  | some (inner, ')' :: rest) => some (String.ofList inner, rest)
  | _ => none

/-! ## Documents in the text -/

/-- The lines up to the delimiter, and the text after it. -/
def documentBody (delimiter : String) (stripTabs : Bool) : Nat → List Char → List Char × List Char
  | 0, cs => ([], cs)
  | _ + 1, [] => ([], [])
  | fuel + 1, cs =>
      let line := cs.takeWhile (· != '\n')
      let rest := (cs.dropWhile (· != '\n')).drop 1
      let shown := if stripTabs then line.dropWhile (· == '\t') else line
      if String.ofList shown = delimiter then ([], rest)
      else
        let (body, rest) := documentBody delimiter stripTabs fuel rest
        (shown ++ '\n' :: body, rest)

/-- The text of a delimiter, and whether any of it is quoted. -/
def delimiterOf (pieces : Word) : String × Bool :=
  pieces.foldl
    (fun (text, quoted) piece =>
      match piece with
      | .text s q => (text ++ s, quoted || q)
      | _ => (text, quoted))
    ("", false)

/-! ## Words and commands -/

/-- A word without quotation marks that may be a keyword. -/
def keyword? : List (Token × Nat) → Option String
  | (.word [.text s false], _) :: _ => some s
  | _ => none

/-- Adds a character to the text at the end of a reversed word. -/
def addChar (c : Char) (quoted : Bool) : Word → Word
  | .text s q :: rest =>
      if q = quoted then .text (s.push c) q :: rest
      else .text (String.singleton c) quoted :: .text s q :: rest
  | pieces => .text (String.singleton c) quoted :: pieces

def operators : List String := ["&&", "||", ";;", "&", "|", ";", "(", ")"]

def operator? (cs : List Char) : Option (String × List Char) :=
  operators.findSome? fun o =>
    if o.toList.isPrefixOf cs then some (o, cs.drop o.length) else none

def redirections : List String := ["<<-", "<<", "<&", "<", ">>", ">&", ">"]

/-- A redirection with the digit before it. -/
def redirection? (cs : List Char) : Option (String × List Char) :=
  let (digits, rest) :=
    match cs with
    | c :: rest => if c.isDigit then ([c], rest) else ([], cs)
    | [] => ([], [])
  redirections.findSome? fun o =>
    if o.toList.isPrefixOf rest then some (String.ofList digits ++ o, rest.drop o.length) else none

/-- Whether a redirection reads a document from the text. -/
def readsDocument (symbol : String) : Bool := symbol.endsWith "<<" || symbol.endsWith "<<-"

/-- The descriptor of a redirection, or the usual one. -/
def descriptor (symbol : String) (usual : Nat) : Nat :=
  match symbol.toList with
  | c :: _ => if c.isDigit then c.toNat - '0'.toNat else usual
  | [] => usual

/-- What follows a list of commands. -/
def closesList : List String :=
  ["then", "else", "elif", "fi", "do", "done", "esac", "\x7d"]

/-! ## Parameters in braces -/

/-- The name of a parameter at the head of a text. -/
def parameterName? (cs : List Char) : Option (String × List Char) :=
  match cs with
  | [] => none
  | c :: rest =>
      if c.isDigit then some (String.ofList (cs.takeWhile Char.isDigit), cs.dropWhile Char.isDigit)
      else if isNameStart c then
        some (String.ofList (cs.takeWhile isNameRest), cs.dropWhile isNameRest)
      else if isSpecialParameter c then some (String.singleton c, rest)
      else none

/-- What follows the name of a parameter in braces: a substitution, or the end from which a pattern is
taken and whether it is the longest part. -/
inductive BraceOperator
  | substitution (rule : Substitution)
  | pattern (atEnd longest : Bool)

def braceOperator? : List Char → Option (BraceOperator × List Char)
  | ':' :: '-' :: rest => some (.substitution ⟨false, false, false⟩, rest)
  | ':' :: '=' :: rest => some (.substitution ⟨false, false, true⟩, rest)
  | ':' :: '+' :: rest => some (.substitution ⟨true, false, false⟩, rest)
  | '-' :: rest => some (.substitution ⟨false, true, false⟩, rest)
  | '=' :: rest => some (.substitution ⟨false, true, true⟩, rest)
  | '+' :: rest => some (.substitution ⟨true, true, false⟩, rest)
  | '#' :: '#' :: rest => some (.pattern false true, rest)
  | '#' :: rest => some (.pattern false false, rest)
  | '%' :: '%' :: rest => some (.pattern true true, rest)
  | '%' :: rest => some (.pattern true false, rest)
  | _ => none

/-- The piece that an operator makes of a name and a word. -/
def BraceOperator.piece (o : BraceOperator) (name : String) (word : Word) (quoted : Bool) : Piece :=
  match o with
  | .substitution rule => .substitute name rule word quoted
  | .pattern atEnd longest => .trimmed name atEnd longest word quoted

/-! ## Tokens -/

def isNewline : Token × Nat → Bool
  | (.newline, _) => true
  | _ => false

def isSemicolon : Token × Nat → Bool
  | (.operator ";", _) => true
  | _ => false

def isWord : Token × Nat → Bool
  | (.word _, _) => true
  | _ => false

def wordOf? : Token × Nat → Option Word
  | (.word pieces, _) => some pieces
  | _ => none

/-- Drops a keyword. -/
def expect? (keyword : String) (ts : Tokens) : Option Tokens :=
  if keyword? ts = some keyword then some (ts.drop 1) else none

/-- A name, an equals sign and a value. -/
def assignment? : Word → Option (String × Word)
  | .text s false :: rest =>
      let name := s.toList.takeWhile isNameRest
      match name, s.toList.dropWhile isNameRest with
      | c :: _, '=' :: value =>
          if isNameStart c then
            let first := if value.isEmpty then [] else [Piece.text (String.ofList value) false]
            some (String.ofList name, first ++ rest)
          else none
      | _, _ => none
  | _ => none

/-- The descriptor that a word names. -/
def descriptorOf? : Word → Option Nat
  | [.text s false] => s.toNat?
  | _ => none

/-- A redirection at the head of tokens. -/
def redirect? : Tokens → Option (Redirect × Tokens)
  | (.document pieces, _) :: rest => some (.document pieces, rest)
  | (.operator symbol, _) :: (.word pieces, _) :: rest =>
      if symbol.endsWith ">&" then
        (descriptorOf? pieces).map fun other => (.duplicate (descriptor symbol 1) other, rest)
      else if symbol.endsWith ">>" then some (.toFile (descriptor symbol 1) true pieces, rest)
      else if symbol.endsWith ">" then some (.toFile (descriptor symbol 1) false pieces, rest)
      else if symbol.endsWith "<" then some (.fromFile pieces, rest)
      else none
  | _ => none

mutual

/-- The piece after a dollar sign. -/
def dollar (quoted : Bool) : Nat → List Char → Option (Piece × List Char)
  | 0, _ => none
  | fuel + 1, cs =>
      match cs with
      | '(' :: '(' :: rest => (closeArithmetic rest).map fun (e, rest) => (.arithmetic e, rest)
      | '(' :: rest =>
          match closeParen 0 [] rest with
          | none => none
          | some (inner, rest) => do
              let found ← tokens fuel 1 inner
              let (body, _) ← commands fuel found
              some (.output body quoted, rest)
      | '{' :: '#' :: '}' :: rest => some (.parameter "#" quoted, rest)
      | '{' :: '#' :: rest => do
          let (name, rest) ← parameterName? rest
          match rest with
          | '}' :: rest => some (.length name, rest)
          | _ => none
      | '{' :: rest => do
          let (name, rest) ← parameterName? rest
          match rest with
          | '}' :: rest => some (.parameter name quoted, rest)
          | rest => do
              let (operator, rest) ← braceOperator? rest
              let (word, rest) ← braced fuel rest
              some (operator.piece name word quoted, rest)
      | c :: rest =>
          if isSpecialParameter c then some (.parameter (String.singleton c) quoted, rest)
          else if isNameStart c then
            some (.parameter (String.ofList (cs.takeWhile isNameRest)) quoted, cs.dropWhile isNameRest)
          else some (.text "$" true, cs)
      | [] => some (.text "$" true, [])
termination_by structural fuel => fuel

/-- The commands between backticks. -/
def backtick (quoted : Bool) : Nat → List Char → Option (Piece × List Char)
  | 0, _ => none
  | fuel + 1, cs => do
      let (inner, rest) ← closeBacktick [] cs
      let found ← tokens fuel 1 inner
      let (body, _) ← commands fuel found
      some (.output body quoted, rest)
termination_by structural fuel => fuel

/-- The pieces up to a closing brace. -/
def braced : Nat → List Char → Option (Word × List Char)
  | 0, _ => none
  | fuel + 1, cs =>
      match word fuel [] true cs with
      | some (pieces, '}' :: rest) => some (pieces, rest)
      | _ => none
termination_by structural fuel => fuel

/-- The pieces between quotation marks, put in front of a reversed word. -/
def quotedText : Nat → Word → List Char → Option (Word × List Char)
  | 0, _, _ => none
  | fuel + 1, acc, cs =>
      match cs with
      | [] => none
      | '"' :: rest => some (acc, rest)
      | '\\' :: '\n' :: rest => quotedText fuel acc rest
      | '\\' :: c :: rest =>
          if "$\x60\"\\".contains c then quotedText fuel (addChar c true acc) rest
          else quotedText fuel (addChar c true (addChar '\\' true acc)) rest
      | '$' :: rest => do
          let (piece, rest) ← dollar true fuel rest
          quotedText fuel (piece :: acc) rest
      | '\x60' :: rest => do
          let (piece, rest) ← backtick true fuel rest
          quotedText fuel (piece :: acc) rest
      | c :: rest => quotedText fuel (addChar c true acc) rest
termination_by structural fuel => fuel

/-- The pieces of a word, up to a blank or an operator. -/
def word : Nat → Word → Bool → List Char → Option (Word × List Char)
  | 0, _, _, _ => none
  | fuel + 1, acc, inBraces, cs =>
      match cs with
      | [] => some (acc.reverse, [])
      | '\\' :: '\n' :: rest => word fuel acc inBraces rest
      | '\\' :: c :: rest => word fuel (addChar c true acc) inBraces rest
      | '\'' :: rest =>
          match rest.dropWhile (· != '\'') with
          | _ :: after =>
              let piece := Piece.text (String.ofList (rest.takeWhile (· != '\''))) true
              word fuel (piece :: acc) inBraces after
          | [] => none
      | '"' :: rest => do
          let (acc, rest) ← quotedText fuel (.text "" true :: acc) rest
          word fuel acc inBraces rest
      | '$' :: rest => do
          let (piece, rest) ← dollar false fuel rest
          word fuel (piece :: acc) inBraces rest
      | '\x60' :: rest => do
          let (piece, rest) ← backtick false fuel rest
          word fuel (piece :: acc) inBraces rest
      | c :: rest =>
          if inBraces && c == '}' then some (acc.reverse, cs)
          else if isMeta c && !inBraces then some (acc.reverse, cs)
          else word fuel (addChar c false acc) inBraces rest
termination_by structural fuel => fuel

/-- The pieces of a document whose delimiter is not quoted. -/
def documentPieces : Nat → Word → List Char → Option Word
  | 0, _, _ => none
  | fuel + 1, acc, cs =>
      match cs with
      | [] => some acc.reverse
      | '\\' :: '\n' :: rest => documentPieces fuel acc rest
      | '\\' :: c :: rest =>
          if "$\x60\\".contains c then documentPieces fuel (addChar c true acc) rest
          else documentPieces fuel (addChar c true (addChar '\\' true acc)) rest
      | '$' :: rest => do
          let (piece, rest) ← dollar true fuel rest
          documentPieces fuel (piece :: acc) rest
      | '\x60' :: rest => do
          let (piece, rest) ← backtick true fuel rest
          documentPieces fuel (piece :: acc) rest
      | c :: rest => documentPieces fuel (addChar c true acc) rest
termination_by structural fuel => fuel

/-- The tokens of a text that starts on a line. -/
def tokens : Nat → Nat → List Char → Option Tokens
  | 0, _, _ => none
  | fuel + 1, line, cs =>
      match cs with
      | [] => some []
      | '\n' :: rest => do some ((.newline, line) :: (← tokens fuel (line + 1) rest))
      | '\\' :: '\n' :: rest => tokens fuel (line + 1) rest
      | '#' :: rest => tokens fuel line (rest.dropWhile (· != '\n'))
      | c :: rest =>
          if isBlank c then tokens fuel line rest
          else
            match redirection? cs with
            | some (symbol, rest) =>
                if readsDocument symbol then do
                  let (pieces, rest) ← word fuel [] false (rest.dropWhile isBlank)
                  let (delimiter, quoted) := delimiterOf pieces
                  let restOfLine := rest.takeWhile (· != '\n')
                  let below := (rest.dropWhile (· != '\n')).drop 1
                  let (body, after) :=
                    documentBody delimiter (symbol.endsWith "-") (below.length + 1) below
                  let content ←
                    if quoted then some [Piece.text (String.ofList body) true]
                    else documentPieces fuel [] body
                  let more ← tokens fuel line (restOfLine ++ '\n' :: after)
                  some ((.document content, line) :: more)
                else do some ((.operator symbol, line) :: (← tokens fuel line rest))
            | none =>
                match operator? cs with
                | some (symbol, rest) =>
                    do some ((.operator symbol, line) :: (← tokens fuel line rest))
                | none => do
                    let (pieces, rest) ← word fuel [] false cs
                    let lines := ((cs.take (cs.length - rest.length)).filter (· == '\n')).length
                    some ((.word pieces, line) :: (← tokens fuel (line + lines) rest))
termination_by structural fuel => fuel

/-- Commands up to a keyword or a parenthesis that closes them. -/
def commands : Nat → Tokens → Option (List Command × Tokens)
  | 0, _ => none
  | fuel + 1, ts =>
      match ts with
      | [] => some ([], [])
      | (.newline, _) :: rest => commands fuel rest
      | (.operator ";", _) :: rest => commands fuel rest
      | (.operator ")", _) :: _ => some ([], ts)
      | (.operator ";;", _) :: _ => some ([], ts)
      | ts =>
          if (keyword? ts).any closesList.contains then some ([], ts)
          else do
            let (first, rest) ← chain fuel ts
            let (more, rest) ← commands fuel rest
            some (first :: more, rest)
termination_by structural fuel => fuel

/-- Pipelines joined from left to right. -/
def chain : Nat → Tokens → Option (Command × Tokens)
  | 0, _ => none
  | fuel + 1, ts => do
      let (first, rest) ← pipeline fuel ts
      chainMore fuel first rest
termination_by structural fuel => fuel

def chainMore : Nat → Command → Tokens → Option (Command × Tokens)
  | 0, _, _ => none
  | fuel + 1, left, ts =>
      match ts with
      | (.operator "&&", _) :: rest => do
          let (right, rest) ← pipeline fuel (rest.dropWhile isNewline)
          chainMore fuel (.both left right) rest
      | (.operator "||", _) :: rest => do
          let (right, rest) ← pipeline fuel (rest.dropWhile isNewline)
          chainMore fuel (.either left right) rest
      | (.operator "&", _) :: _ => none
      | ts => some (left, ts)
termination_by structural fuel => fuel

def pipeline : Nat → Tokens → Option (Command × Tokens)
  | 0, _ => none
  | fuel + 1, ts =>
      if keyword? ts = some "!" then do
        let (inner, rest) ← pipeline fuel (ts.drop 1)
        some (.negated inner, rest)
      else do
        let (first, rest) ← command fuel ts
        match rest with
        | (.operator "|", _) :: rest => do
            let (right, rest) ← pipeline fuel (rest.dropWhile isNewline)
            some (.pipe first right, rest)
        | rest => some (first, rest)
termination_by structural fuel => fuel

/-- A command with the redirections after it. -/
def command : Nat → Tokens → Option (Command × Tokens)
  | 0, _ => none
  | fuel + 1, ts =>
      match ts with
      | (.word [.text name false], _) :: (.operator "(", _) :: (.operator ")", _) :: rest => do
          let (body, rest) ← command fuel (rest.dropWhile isNewline)
          some (.define name body, rest)
      | ts => do
          match ← compound? fuel ts with
          | some (found, rest) =>
              let (redirects, rest) ← redirects fuel rest
              some (if redirects.isEmpty then found else .redirected found redirects, rest)
          | none =>
              match ts with
              | (_, line) :: _ => do
                  let (assignments, words, redirects, rest) ← simple fuel true ts
                  if assignments.isEmpty && words.isEmpty && redirects.isEmpty then none
                  else some (.simple line assignments words redirects, rest)
              | [] => none
termination_by structural fuel => fuel

/-- A command that is made of others, if one stands at the head. -/
def compound? : Nat → Tokens → Option (Option (Command × Tokens))
  | 0, _ => none
  | fuel + 1, ts =>
      match keyword? ts with
      | some "if" => do
          let (cases, otherwise, rest) ← cases fuel (ts.drop 1)
          some (some (.branches cases otherwise, rest))
      | some "while" => do some (some (← loopBody fuel false (ts.drop 1)))
      | some "until" => do some (some (← loopBody fuel true (ts.drop 1)))
      | some "for" => do some (some (← forLoop fuel (ts.drop 1)))
      | some "case" => do
          let subject ← (ts.drop 1).head?.bind wordOf?
          let rest ← expect? "in" ((ts.drop 2).dropWhile isNewline)
          let (cases, rest) ← choices fuel rest
          some (some (.choice subject cases, rest))
      | some "\x7b" => do
          let (body, rest) ← commands fuel (ts.drop 1)
          some (some (.group false body, ← expect? "\x7d" rest))
      | _ =>
          match ts with
          | (.operator "(", _) :: rest => do
              let (body, rest) ← commands fuel rest
              match rest with
              | (.operator ")", _) :: rest => some (some (.group true body, rest))
              | _ => none
          | _ => some none
termination_by structural fuel => fuel

/-- Patterns with their bodies, up to the keyword that ends them. -/
def choices : Nat → Tokens → Option (List (List Word × List Command) × Tokens)
  | 0, _ => none
  | fuel + 1, ts =>
      match ts.dropWhile isNewline with
      | (.operator "(", _) :: rest => choices fuel rest
      | ts =>
          if keyword? ts = some "esac" then some ([], ts.drop 1)
          else do
            let (patterns, rest) ← alternatives fuel ts
            let (body, rest) ← commands fuel rest
            match rest with
            | (.operator ";;", _) :: rest => do
                let (more, rest) ← choices fuel rest
                some ((patterns, body) :: more, rest)
            | rest => do some ([(patterns, body)], ← expect? "esac" rest)
termination_by structural fuel => fuel

/-- Patterns up to a closing parenthesis. -/
def alternatives : Nat → Tokens → Option (List Word × Tokens)
  | 0, _ => none
  | fuel + 1, ts =>
      match ts with
      | (.word pattern, _) :: (.operator ")", _) :: rest => some ([pattern], rest)
      | (.word pattern, _) :: (.operator "|", _) :: rest => do
          let (more, rest) ← alternatives fuel rest
          some (pattern :: more, rest)
      | _ => none
termination_by structural fuel => fuel

/-- The cases of a conditional after `if` or `elif`. -/
def cases : Nat → Tokens → Option (List (List Command × List Command) × List Command × Tokens)
  | 0, _ => none
  | fuel + 1, ts => do
      let (condition, rest) ← commands fuel ts
      let rest ← expect? "then" rest
      let (body, rest) ← commands fuel rest
      match keyword? rest with
      | some "elif" => do
          let (more, otherwise, rest) ← cases fuel (rest.drop 1)
          some ((condition, body) :: more, otherwise, rest)
      | some "else" => do
          let (otherwise, rest) ← commands fuel (rest.drop 1)
          some ([(condition, body)], otherwise, ← expect? "fi" rest)
      | _ => do some ([(condition, body)], [], ← expect? "fi" rest)
termination_by structural fuel => fuel

def loopBody : Nat → Bool → Tokens → Option (Command × Tokens)
  | 0, _, _ => none
  | fuel + 1, untilTrue, ts => do
      let (condition, rest) ← commands fuel ts
      let rest ← expect? "do" rest
      let (body, rest) ← commands fuel rest
      some (.loop untilTrue condition body, ← expect? "done" rest)
termination_by structural fuel => fuel

def forLoop : Nat → Tokens → Option (Command × Tokens)
  | 0, _ => none
  | fuel + 1, ts => do
      let name ← keyword? ts
      let (words, rest) :=
        if keyword? (ts.drop 1) = some "in" then
          ((ts.drop 2).takeWhile isWord |>.filterMap (wordOf? ·), (ts.drop 2).dropWhile isWord)
        else ([[Piece.parameter "@" true]], ts.drop 1)
      let rest := rest.dropWhile fun t => isNewline t || isSemicolon t
      let rest ← expect? "do" rest
      let (body, rest) ← commands fuel rest
      some (.forEach name words body, ← expect? "done" rest)
termination_by structural fuel => fuel

/-- Assignments, words and redirections of a simple command, in any order. -/
def simple : Nat → Bool → Tokens →
    Option (List (String × Word) × List Word × List Redirect × Tokens)
  | 0, _, _ => none
  | fuel + 1, isStart, ts =>
      match ts with
      | (.word pieces, _) :: rest =>
          match if isStart then assignment? pieces else none with
          | some a => do
              let (assignments, words, redirects, rest) ← simple fuel true rest
              some (a :: assignments, words, redirects, rest)
          | none => do
              let (assignments, words, redirects, rest) ← simple fuel false rest
              some (assignments, pieces :: words, redirects, rest)
      | ts =>
          match redirect? ts with
          | some (redirect, rest) => do
              let (assignments, words, redirects, rest) ← simple fuel isStart rest
              some (assignments, words, redirect :: redirects, rest)
          | none => some ([], [], [], ts)
termination_by structural fuel => fuel

def redirects : Nat → Tokens → Option (List Redirect × Tokens)
  | 0, _ => none
  | fuel + 1, ts =>
      match redirect? ts with
      | some (redirect, rest) => do
          let (more, rest) ← redirects fuel rest
          some (redirect :: more, rest)
      | none => some ([], ts)
termination_by structural fuel => fuel

end

/-- The commands of a text. -/
def parse? (text : String) : Option (List Command) := do
  let cs := text.toList
  let ts ← tokens (2 * cs.length + 4) 1 cs
  match ← commands (8 * ts.length + 16) ts with
  | (body, []) => some body
  | _ => none

end Shell
end WireTypes
