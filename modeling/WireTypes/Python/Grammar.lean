import WireTypes.Python.Term
import WireTypes.Python.Token

/-!
# Grammar — terms from tokens

Recursive descent over the tokens of a text. The grammar is a lenient one: a word is a keyword only
where that keyword may stand, and a line end matters only where a statement may end.

- `Reading` is a step that may fail and moves a cursor over the tokens;
- `term`, `termList` read expressions, `annotation` reads types;
- in brackets (`inside`) line ends are blanks.

Fuel bounds the depth of the descent; a multiple of the number of tokens is always enough.
-/

namespace WireTypes
namespace Python

/-- A place in the token sequence: `stop` is where the last token read ends, `level` the indentation
of the block being read. -/
structure Cursor where
  source : Array Char
  rest : List Token
  stop : Nat
  level : Nat

abbrev Reading := StateT Cursor Option

namespace Grammar

/-! ## Single tokens -/

def finishToken : Token :=
  ⟨.finish, "", 0, 0, 0, some 0, 0, [], Token.isName_of_finish⟩

def head : Reading Token := do
  return (← get).rest.headD finishToken

def fail {α : Type} : Reading α := fun _ => none

def require (b : Bool) : Reading Unit := if b then pure () else fail

def advance : Reading Token := do
  let c ← get
  match c.rest with
  | t :: rest =>
      if t.kind == .finish then fail
      else
        set { c with rest := rest, stop := t.stop }
        return t
  | [] => fail

/-- The source text from a position to the end of the last token. -/
def textFrom (start : Nat) : Reading String := do
  let c ← get
  return String.ofList (c.source.extract start c.stop).toList

/-- Whether the next token starts a line, where that matters. -/
def atLineEnd (inside : Bool) : Reading Bool := do
  let t ← head
  return t.kind == .finish || (t.indent.isSome && !inside)

def isMark (t : Token) (text : String) : Bool := t.kind == .mark && t.text == text

def isWord (t : Token) (text : String) : Bool := t.kind == .word && t.text == text

/-- Whether the next token is this mark, wherever it stands. -/
def nextIs (text : String) : Reading Bool := do return isMark (← head) text

/-- Whether the next token is this mark or word and continues the expression. -/
def continuesWith (inside : Bool) (text : String) : Reading Bool := do
  let t ← head
  return (isMark t text || isWord t text) && !(← atLineEnd inside)

def mark (text : String) : Reading Unit := do
  let t ← advance
  require (isMark t text)

def keyword (text : String) : Reading Unit := do
  let t ← advance
  require (isWord t text)

def name : Reading Word := do
  let t ← advance
  if h : t.kind = .word then return ⟨t.text, t.isName h⟩ else fail

def word : Reading String := do return (← name).text

/-- Line continuations before the next token, which count as elements of their own. -/
def joins : Reading (List Term) := do
  let t ← head
  return if t.kind == .string then [] else t.joins.map .other

/-! ## Word classes -/

/-- Words that go on with an expression or end it. -/
def connectives : List String := ["if", "else", "for", "in", "and", "or", "is", "as", "from"]

/-- Whether an operand may start with this token. -/
def startsOperand (t : Token) : Bool :=
  match t.kind with
  | .word => !connectives.contains t.text
  | .integer => true
  | .float => true
  | .string => true
  | .mark => ["(", "[", "\x7b", "-", "+", "~", "...", "*"].contains t.text
  | .bad => false
  | .finish => false

/-- Words that are no names where an operand starts. -/
def reserved : List String := ["not", "lambda", "await", "True", "False", "None"]

/-- Whether the token that many places ahead is an opening bracket on the same line. -/
def opensBracket (ahead : Nat) (inside : Bool) : Reading Bool := do
  let t := (← get).rest.getD ahead finishToken
  return isMark t "[" && (t.indent.isNone || inside)

/-! ## Binary operators -/

structure Operator where
  text : String
  strength : Nat
  rightFirst : Bool

def comparison : Nat := 13

def operatorOf? (t : Token) : Option Operator :=
  match t.kind with
  | .word =>
      match t.text with
      | "or" => some ⟨"or", 10, false⟩
      | "and" => some ⟨"and", 11, false⟩
      | "in" => some ⟨"in", comparison, false⟩
      | "is" => some ⟨"is", comparison, false⟩
      | "not" => some ⟨"not in", comparison, false⟩
      | _ => none
  | .mark =>
      if ["<", "<=", "==", "!=", ">=", ">", "<>"].contains t.text then
        some ⟨t.text, comparison, false⟩
      else
        match t.text with
        | "|" => some ⟨"|", 14, false⟩
        | "&" => some ⟨"&", 15, false⟩
        | "^" => some ⟨"^", 16, false⟩
        | "<<" => some ⟨"<<", 17, false⟩
        | ">>" => some ⟨">>", 17, false⟩
        | "+" => some ⟨"+", 18, false⟩
        | "-" => some ⟨"-", 18, false⟩
        | "*" => some ⟨"*", 19, false⟩
        | "@" => some ⟨"@", 19, false⟩
        | "/" => some ⟨"/", 19, false⟩
        | "%" => some ⟨"%", 19, false⟩
        | "//" => some ⟨"//", 19, false⟩
        | "**" => some ⟨"**", 21, true⟩
        | _ => none
  | _ => none

/-- Takes the next operator if it binds at least as strongly as `least`. -/
def operator? (inside : Bool) (least : Nat) : Reading (Option Operator) := do
  if ← atLineEnd inside then return none
  let t ← head
  match operatorOf? t with
  | none => return none
  | some op =>
      if op.strength < least then return none
      else if op.text == "not in" then
        (do let _ ← advance; keyword "in"; return some op) <|> return none
      else if op.text == "is" then
        let _ ← advance
        (do keyword "not"; return some op) <|> return some op
      else
        let _ ← advance
        return some op

/-- A term built from the operator. -/
def combine (op : Operator) (left right : Term) (text : String) : Term :=
  if op.strength ≤ comparison then .other text else .binary op.text left right text

/-! ## Adjacent strings -/

def moreStrings (inside : Bool) : Nat → Reading (List String)
  | 0 => return []
  | fuel + 1 => do
      let t ← head
      if t.kind == .string && !(← atLineEnd inside) then
        let t ← advance
        return t.text :: (← moreStrings inside fuel)
      else return []

/-- An operand below the indentation of its block is refused. -/
def requireIndent (inside : Bool) : Reading Unit := do
  let t ← head
  match t.indent with
  | some width =>
      require (inside || t.kind == .string || (← get).level ≤ width)
  | none => return ()

/-- What stands between a pair of brackets. -/
structure Elements where
  items : List Term
  commas : Nat
  /-- A comprehension follows its first element. -/
  comprehension : Bool

/-- What stands between the parentheses of a call. -/
structure Arguments where
  args : List Term
  named : List (String × Term)

/-! ## Terms -/

mutual

/-- A whole expression. -/
def term (inside : Bool) : Nat → Reading Term
  | 0 => fail
  | fuel + 1 => do
      let start := (← head).start
      let first ← operand inside 10 fuel
      let t ← (do
        require (← continuesWith inside "if")
        let _ ← advance
        let _ ← operand inside 10 fuel
        keyword "else"
        let _ ← term inside fuel
        return Term.other (← textFrom start)) <|> pure first
      asTargets inside start t fuel
termination_by structural fuel => fuel

/-- Targets after `as`. -/
def asTargets (inside : Bool) (start : Nat) (t : Term) : Nat → Reading Term
  | 0 => return t
  | fuel + 1 => do
      if ← continuesWith inside "as" then
        let _ ← advance
        let _ ← operand inside 10 fuel
        asTargets inside start (.other (← textFrom start)) fuel
      else return t
termination_by structural fuel => fuel

/-- An operand with the operators after it that bind at least as strongly as `least`. -/
def operand (inside : Bool) (least : Nat) : Nat → Reading Term
  | 0 => fail
  | fuel + 1 => do
      requireIndent inside
      let start := (← head).start
      let first ← leading inside least fuel
      operators inside least start first fuel
termination_by structural fuel => fuel

def operators (inside : Bool) (least start : Nat) (left : Term) : Nat → Reading Term
  | 0 => return left
  | fuel + 1 => do
      match ← operator? inside least with
      | none => return left
      | some op =>
          let right ← operand inside (if op.rightFirst then op.strength else op.strength + 1) fuel
          let text ← textFrom start
          operators inside least start (combine op left right text) fuel
termination_by structural fuel => fuel

/-- An operand with its signs. -/
def leading (inside : Bool) (least : Nat) : Nat → Reading Term
  | 0 => fail
  | fuel + 1 => do
      let t ← head
      if t.kind == .word && least ≤ 12 && t.text == "not" then
        let _ ← advance
        let _ ← operand inside 12 fuel
        return .other (← textFrom t.start)
      else if t.kind == .word && least ≤ 12 && t.text == "lambda" then
        let _ ← advance
        parameters false ":" fuel
        mark ":"
        let _ ← term inside fuel
        return .other (← textFrom t.start)
      else if t.kind == .word && t.text == "await" then
        (do
          let _ ← advance
          require (startsOperand (← head) && !(← atLineEnd inside))
          let _ ← operand inside 21 fuel
          return .other (← textFrom t.start))
        <|> postfixed inside fuel
      else if isMark t "-" || isMark t "+" || isMark t "~" then
        let _ ← advance
        let inner ← operand inside 21 fuel
        return .unary t.text inner (← textFrom t.start)
      else if t.kind == .word && least ≤ 12 then
        (do
          let _ ← word
          mark ":="
          let _ ← term inside fuel
          return .other (← textFrom t.start))
        <|> postfixed inside fuel
      else postfixed inside fuel
termination_by structural fuel => fuel

/-- An atom with attributes, subscripts and calls after it. -/
def postfixed (inside : Bool) : Nat → Reading Term
  | 0 => fail
  | fuel + 1 => do
      let start := (← head).start
      let first ← atom inside fuel
      postfixes inside start first fuel
termination_by structural fuel => fuel

def postfixes (inside : Bool) (start : Nat) (t : Term) : Nat → Reading Term
  | 0 => return t
  | fuel + 1 => do
      if ← continuesWith inside "." then
        mark "."
        let _ ← word
        postfixes inside start (.attribute (← textFrom start)) fuel
      else if ← continuesWith inside "[" then
        let base ← textFrom start
        mark "["
        let args ← subscripts fuel
        mark "]"
        postfixes inside start (.subscript base args) fuel
      else if ← continuesWith inside "(" then
        let function ← textFrom start
        mark "("
        let args ← callArguments fuel
        mark ")"
        let plain :=
          match t with
          | .identifier _ => true
          | .attribute _ => true
          | _ => false
        postfixes inside start (.call function plain args.args args.named (← textFrom start)) fuel
      else return t
termination_by structural fuel => fuel

def atom (inside : Bool) : Nat → Reading Term
  | 0 => fail
  | fuel + 1 => do
      let t ← advance
      match t.kind with
      | .word =>
          match t.text with
          | "True" => return .boolean true
          | "False" => return .boolean false
          | "None" => return .none
          | "not" => fail
          | "lambda" => fail
          | text => return .identifier text
      | .integer => return .integer t.text
      | .float => return .float t.text
      | .string =>
          let more ← moreStrings inside fuel
          return .string (t.text :: more) (← textFrom t.start)
      | .mark =>
          match t.text with
          | "..." => return .ellipsis
          | "(" =>
              let found ← elements ")" fuel
              mark ")"
              let text ← textFrom t.start
              if found.comprehension then return .other text
              else if found.commas == 0 then
                match found.items with
                | [] => return .tuple [] text
                | inner :: _ => return .group inner
              else return .tuple found.items text
          | "[" =>
              let found ← elements "]" fuel
              mark "]"
              if found.comprehension then return .other (← textFrom t.start)
              else return .list found.items
          | "\x7b" =>
              (do
                let entries ← dictEntries fuel
                mark "\x7d"
                let text ← textFrom t.start
                match entries with
                | some entries => return .dict entries text
                | none => return .other text)
              <|> (do
                let found ← elements "\x7d" fuel
                mark "\x7d"
                let text ← textFrom t.start
                require (found.comprehension || !found.items.isEmpty)
                if found.comprehension then return .other text
                else return .set found.items text)
          | _ => fail
      | .bad => fail
      | .finish => fail
termination_by structural fuel => fuel

/-- A comma-separated element: an expression, or one with a star. -/
def element (inside : Bool) : Nat → Reading Term
  | 0 => fail
  | fuel + 1 => do
      let t ← head
      if isMark t "*" then
        let _ ← advance
        let inner ← operand inside 10 fuel
        return .starred inner (← textFrom t.start)
      else if isWord t "yield" then yielded inside fuel
      else term inside fuel
termination_by structural fuel => fuel

/-- Elements up to the closing bracket, which is not taken. -/
def elements (closing : String) : Nat → Reading Elements
  | 0 => fail
  | fuel + 1 => do
      let before ← joins
      if ← nextIs closing then return ⟨before, 0, false⟩
      else
        let first ← element true fuel
        let t ← head
        if isWord t "for" || isWord t "async" then
          let _ ← clauses fuel
          return ⟨[], 0, true⟩
        else
          let after ← joins
          if ← nextIs "," then
            mark ","
            let more ← elements closing fuel
            require (!more.comprehension)
            return ⟨before ++ first :: after ++ more.items, more.commas + 1, false⟩
          else return ⟨before ++ first :: after, 0, false⟩
termination_by structural fuel => fuel

/-- Entries of a dictionary; nothing when one of them is no pair. -/
def dictEntries : Nat → Reading (Option (List (Term × Term)))
  | 0 => fail
  | fuel + 1 => do
      let joined := (← joins).isEmpty
      let keep := fun (e : Option (List (Term × Term))) => if joined then e else none
      if ← nextIs "\x7d" then return keep (some [])
      else if ← nextIs "," then
        mark ","
        require (← nextIs "\x7d")
        return keep (some [])
      else if ← nextIs "**" then
        mark "**"
        let _ ← operand true 10 fuel
        if ← nextIs "," then
          mark ","
          let _ ← dictEntries fuel
          return none
        else
          require (← nextIs "\x7d")
          return none
      else
        let key ← term true fuel
        mark ":"
        let value ← term true fuel
        let t ← head
        if isWord t "for" || isWord t "async" then
          let _ ← clauses fuel
          require (← nextIs "\x7d")
          return none
        else if ← nextIs "," then
          mark ","
          let more ← dictEntries fuel
          return keep (more.map ((key, value) :: ·))
        else
          require (← nextIs "\x7d")
          return keep (some [(key, value)])
termination_by structural fuel => fuel

/-- The clauses of a comprehension, each as a term. -/
def clauses : Nat → Reading (List Term)
  | 0 => fail
  | fuel + 1 => do
      let t ← head
      if isWord t "for" || isWord t "async" then
        if isWord t "async" then keyword "async"
        keyword "for"
        targets true fuel
        keyword "in"
        let _ ← iterated fuel
        let clause := Term.other (← textFrom t.start)
        return clause :: (← clauses fuel)
      else if isWord t "if" then
        keyword "if"
        let _ ← operand true 10 fuel
        let clause := Term.other (← textFrom t.start)
        return clause :: (← clauses fuel)
      else return []
termination_by structural fuel => fuel

/-- What a clause runs over. -/
def iterated : Nat → Reading Unit
  | 0 => fail
  | fuel + 1 => do
      let _ ← operand true 10 fuel
      if ← nextIs "," then
        mark ","
        if startsOperand (← head) then iterated fuel else return ()
      else return ()
termination_by structural fuel => fuel

/-- Assignment targets before `in`. -/
def targets (inside : Bool) : Nat → Reading Unit
  | 0 => fail
  | fuel + 1 => do
      if ← nextIs "*" then mark "*"
      let t ← postfixed inside fuel
      require t.isTarget
      if ← nextIs "," then
        mark ","
        if isWord (← head) "in" then return () else targets inside fuel
      else return ()
termination_by structural fuel => fuel

/-- Subscripts up to the closing bracket. -/
def subscripts : Nat → Reading (List Term)
  | 0 => fail
  | fuel + 1 => do
      let first ← subscriptItem fuel
      if ← nextIs "," then
        mark ","
        if ← nextIs "]" then return [first]
        else return first :: (← subscripts fuel)
      else return [first]
termination_by structural fuel => fuel

/-- An expression or a slice. -/
def subscriptItem : Nat → Reading Term
  | 0 => fail
  | fuel + 1 => do
      let start := (← head).start
      let first ← (do
        require (!(← nextIs ":"))
        let t ← element true fuel
        return some t) <|> return none
      if ← nextIs ":" then
        mark ":"
        sliceEnd fuel
        if ← nextIs ":" then
          mark ":"
          sliceEnd fuel
        return .other (← textFrom start)
      else
        match first with
        | some t => return t
        | none => fail
termination_by structural fuel => fuel

/-- An optional bound of a slice. -/
def sliceEnd : Nat → Reading Unit
  | 0 => fail
  | fuel + 1 => do
      let t ← head
      if isMark t ":" || isMark t "," || isMark t "]" then return ()
      else
        let _ ← term true fuel
        return ()
termination_by structural fuel => fuel

/-- Arguments up to the closing parenthesis. -/
def callArguments : Nat → Reading Arguments
  | 0 => fail
  | fuel + 1 => do
      let before ← joins
      if ← nextIs ")" then return ⟨before, []⟩
      else if ← nextIs "," then
        mark ","
        require (← nextIs ")")
        return ⟨before, []⟩
      else
        let start := (← head).start
        let (args, named, generated) ← (do
            let name ← word
            mark "="
            let value ← term true fuel
            return ([], [(name, value)], false))
          <|> (do
            require (← nextIs "**")
            mark "**"
            let _ ← operand true 10 fuel
            return ([Term.other (← textFrom start)], [], false))
          <|> (do
            let t ← element true fuel
            let next ← head
            if isWord next "for" || isWord next "async" then
              let cs ← clauses fuel
              return (t :: cs, [], true)
            else return ([t], [], false))
        let after ← joins
        if generated then
          require (← nextIs ")")
          return ⟨before ++ args ++ after, named⟩
        else if ← nextIs "," then
          mark ","
          let more ← callArguments fuel
          return ⟨before ++ args ++ after ++ more.args, named ++ more.named⟩
        else return ⟨before ++ args ++ after, named⟩
termination_by structural fuel => fuel

def yielded (inside : Bool) : Nat → Reading Term
  | 0 => fail
  | fuel + 1 => do
      let t ← head
      keyword "yield"
      if ← continuesWith inside "from" then
        keyword "from"
        let _ ← term inside fuel
        return .other (← textFrom t.start)
      else if startsOperand (← head) && !(← atLineEnd inside) then
        let _ ← termList inside fuel
        return .other (← textFrom t.start)
      else return .other (← textFrom t.start)
termination_by structural fuel => fuel

/-- Expressions between commas: the only one, or the text of all of them. -/
def termList (inside : Bool) : Nat → Reading (List Term × Bool)
  | 0 => fail
  | fuel + 1 => do
      let first ← element inside fuel
      if ← continuesWith inside "," then
        mark ","
        if startsOperand (← head) && !(← atLineEnd inside) then
          let (more, _) ← termList inside fuel
          return (first :: more, true)
        else return ([first], true)
      else return ([first], false)
termination_by structural fuel => fuel

/-- Parameters up to the closing token; only those of functions are annotated. -/
def parameters (annotated : Bool) (closing : String) : Nat → Reading Unit
  | 0 => fail
  | fuel + 1 => do
      if ← nextIs closing then return ()
      else
        parameter annotated fuel
        if ← nextIs "," then
          mark ","
          parameters annotated closing fuel
        else require (← nextIs closing)
termination_by structural fuel => fuel

def parameter (annotated : Bool) : Nat → Reading Unit
  | 0 => fail
  | fuel + 1 => do
      let t ← head
      if isMark t "/" then mark "/"
      else if isMark t "*" then
        mark "*"
        if (← head).kind == .word then
          let _ ← postfixed true fuel
          parameterType annotated fuel
        else return ()
      else if isMark t "**" then
        mark "**"
        let _ ← postfixed true fuel
        parameterType annotated fuel
      else if isMark t "(" then
        let found ← postfixed true fuel
        require found.isTarget
        parameterDefault fuel
      else
        let _ ← word
        parameterType annotated fuel
        parameterDefault fuel
termination_by structural fuel => fuel

def parameterType (annotated : Bool) : Nat → Reading Unit
  | 0 => fail
  | fuel + 1 => do
      if annotated then
        if ← nextIs ":" then
          mark ":"
          let _ ← hint true true fuel
      return ()
termination_by structural fuel => fuel

def parameterDefault : Nat → Reading Unit
  | 0 => fail
  | fuel + 1 => do
      if ← nextIs "=" then
        mark "="
        let _ ← term true fuel
      return ()
termination_by structural fuel => fuel

-- Annotations: a name right before a bracket is a generic type, which is not an operand. Only another
-- alternative, an attribute or (when `bounded`) a bound may follow it.

def hint (inside bounded : Bool) : Nat → Reading Term
  | 0 => fail
  | fuel + 1 => do
      requireIndent inside
      let start := (← head).start
      let (t, open_) ← hintUnit inside fuel
      hintTail inside bounded start t open_ fuel
termination_by structural fuel => fuel

/-- The first part of an annotation, and whether an alternative may follow it. -/
def hintUnit (inside : Bool) : Nat → Reading (Term × Bool)
  | 0 => fail
  | fuel + 1 => do
      let t ← head
      if (isMark t "*" || isMark t "**") && !(← opensBracket 2 inside) then
        let _ ← advance
        let name ← word
        return (.starred (.identifier name) (← textFrom t.start), true)
      else if t.kind == .word && !reserved.contains t.text && (← opensBracket 1 inside) then
        let name ← word
        mark "["
        let args ← typeArguments fuel
        mark "]"
        return (.subscript name args, true)
      else
        let found ← element inside fuel
        return (found, false)
termination_by structural fuel => fuel

def hintTail (inside bounded : Bool) (start : Nat) (t : Term) (open_ : Bool) :
    Nat → Reading Term
  | 0 => return t
  | fuel + 1 => do
      if open_ && (← continuesWith inside ".") then
        mark "."
        let _ ← word
        hintTail inside bounded start (.attribute (← textFrom start)) true fuel
      else if open_ && (← continuesWith inside "|") then
        let before ← joins
        mark "|"
        let after ← joins
        let (right, _) ← hintUnit inside fuel
        hintTail inside bounded start (.union (t :: before ++ after ++ [right])) true fuel
      else if bounded && (← continuesWith inside ":") then
        mark ":"
        let _ ← hint inside bounded fuel
        hintTail inside bounded start (.other (← textFrom start)) true fuel
      else return t
termination_by structural fuel => fuel

/-- Type arguments up to the closing bracket. -/
def typeArguments : Nat → Reading (List Term)
  | 0 => fail
  | fuel + 1 => do
      let before ← joins
      let first ← hint true true fuel
      let after ← joins
      if ← nextIs "," then
        mark ","
        let more ← joins
        if ← nextIs "]" then return before ++ first :: after ++ more
        else return before ++ first :: after ++ (← typeArguments fuel)
      else return before ++ first :: after
termination_by structural fuel => fuel

end

end Grammar
end Python
end WireTypes
