import WireTypes.Text.Letters

/-!
# Token — the words of a source text, with their layout

`tokens` cuts a text into tokens. Layout is kept on the token that follows it: `indent` is the width of
the indentation when the token is the first one on its line, `comments` counts the comments before
it and `joins` the line continuations. Nothing is refused here: characters that start no token become
tokens of kind `bad`.
-/

namespace WireTypes
namespace Python

inductive TokenKind
  | word
  | integer
  | float
  | string
  | mark
  | bad
  | finish
  deriving DecidableEq, Repr

structure Token where
  kind : TokenKind
  text : String
  start : Nat
  stop : Nat
  line : Nat
  indent : Option Nat
  comments : Nat
  joins : List String
  isName : kind = .word → Text.isName text = true

namespace Token

/-! ## Strings

Each scanner returns what follows the token, or nothing when the token does not end. -/

structure StringForm where
  quote : Char
  triple : Bool
  raw : Bool
  formatted : Bool

def isStringFlag (c : Char) : Bool := "fFrRbBuUtT".toList.contains c

def isStringQuote (c : Char) : Bool := c == '"' || c == '\'' || c == '`'

/-- Flags and opening mark, and what follows them. -/
def openString? (cs : List Char) : Option (StringForm × List Char) :=
  let flags := (cs.takeWhile isStringFlag).map Char.toLower
  let raw := flags.contains 'r'
  let formatted := flags.contains 'f' || flags.contains 't'
  match cs.dropWhile isStringFlag with
  | [] => none
  | q :: rest =>
      if isStringQuote q then
        match rest with
        | a :: b :: more =>
            if q != '`' && a == q && b == q then some (⟨q, true, raw, formatted⟩, more)
            else some (⟨q, false, raw, formatted⟩, rest)
        | _ => some (⟨q, false, raw, formatted⟩, rest)
      else none

/-- After a backslash: the rest after the escape sequence that starts here. -/
def afterEscape (cs : List Char) : List Char :=
  match cs with
  | '\r' :: '\n' :: rest => rest
  | 'N' :: '{' :: rest =>
      let name := rest.takeWhile (· != '}')
      match rest.dropWhile (· != '}') with
      | '}' :: more => if name.isEmpty then '{' :: rest else more
      | _ => '{' :: rest
  | c :: rest => if c == '\n' || c == '"' || c == '\'' || c == '\\' then rest else c :: rest
  | [] => []

/-- After a backslash in a raw string. -/
def afterRawEscape (quote : Char) (cs : List Char) : List Char :=
  let rest :=
    match cs with
    | c :: rest => if c == quote || c == '\\' then rest else cs
    | [] => []
  match rest with
  | '\r' :: '\n' :: more => more
  | '\r' :: more => more
  | '\n' :: more => more
  | more => more

/-- What follows the closing mark, if it stands here. -/
def closeString? (form : StringForm) (cs : List Char) : Option (List Char) :=
  match cs with
  | a :: rest =>
      if a == form.quote then
        if form.triple then
          match rest with
          | b :: c :: more => if b == form.quote && c == form.quote then some more else none
          | _ => none
        else some rest
      else none
  | [] => none

mutual

/-- The body of a string. A line feed ends a string in single marks unless it comes first in a run of
plain characters (`fresh`). -/
def skipString (form : StringForm) : Nat → Bool → List Char → Option (List Char)
  | 0, _, _ => none
  | fuel + 1, fresh, cs =>
      match closeString? form cs with
      | some rest => some rest
      | none =>
          match cs with
          | [] => none
          | '\\' :: rest =>
              if form.raw then skipString form fuel fresh (afterRawEscape form.quote rest)
              else skipString form fuel true (afterEscape rest)
          | '{' :: '{' :: rest =>
              if form.formatted then skipString form fuel true rest
              else skipString form fuel false ('{' :: rest)
          | '{' :: rest =>
              if form.formatted then
                match skipField fuel 0 true rest with
                | some rest => skipString form fuel true rest
                | none => none
              else skipString form fuel false rest
          | '}' :: '}' :: rest =>
              if form.formatted then skipString form fuel true rest
              else skipString form fuel false ('}' :: rest)
          | '}' :: rest => if form.formatted then none else skipString form fuel false rest
          | c :: rest =>
              if c == '\n' && !fresh && !form.triple then none
              else skipString form fuel false rest

/-- A replacement field of a formatted string, up to its closing brace. `depth` counts open
brackets and `blank` tells that nothing has been seen yet. -/
def skipField : Nat → Nat → Bool → List Char → Option (List Char)
  | 0, _, _, _ => none
  | fuel + 1, depth, blank, cs =>
      match openString? cs with
      | some (form, rest) =>
          match skipString form fuel true rest with
          | some rest => skipField fuel depth false rest
          | none => none
      | none =>
          match cs with
          | [] => none
          | c :: rest =>
              if c == '(' || c == '[' || c == '{' then skipField fuel (depth + 1) false rest
              else if c == '}' && depth == 0 then (if blank then none else some rest)
              else if c == ')' || c == ']' || c == '}' then
                if depth == 0 then none else skipField fuel (depth - 1) false rest
              else if c == ':' && depth == 0 then
                if blank then none else skipFormat fuel rest
              else skipField fuel depth (blank && (c == ' ' || c == '\n' || c == '\t')) rest

/-- The format after the colon of a replacement field. -/
def skipFormat : Nat → List Char → Option (List Char)
  | 0, _ => none
  | fuel + 1, cs =>
      match cs with
      | [] => none
      | '}' :: rest => some rest
      | '{' :: rest =>
          match skipField fuel 0 true rest with
          | some rest => skipFormat fuel rest
          | none => none
      | c :: rest => if c == '\n' then none else skipFormat fuel rest

end

/-- The rest after a string token that starts here; an unfinished one takes the whole rest. -/
def string? (cs : List Char) : Option (Bool × List Char) :=
  match openString? cs with
  | none => none
  | some (form, rest) =>
      match skipString form (2 * cs.length + 2) true rest with
      | some rest => some (true, rest)
      | none => some (false, [])

/-! ## Numbers -/

/-- Runs of digits with at most one underscore after each digit. -/
def digitRun : List Char → List Char × List Char
  | c :: '_' :: rest =>
      if c.isDigit then
        let (ds, rest) := digitRun rest
        (c :: '_' :: ds, rest)
      else ([], c :: '_' :: rest)
  | c :: rest =>
      if c.isDigit then
        let (ds, rest) := digitRun rest
        (c :: ds, rest)
      else ([], c :: rest)
  | [] => ([], [])

/-- Digits of a base, with at most one underscore before each. -/
def basedRun (isDigit : Char → Bool) : List Char → List Char × List Char
  | '_' :: c :: rest =>
      if isDigit c then
        let (ds, rest) := basedRun isDigit rest
        ('_' :: c :: ds, rest)
      else ([], '_' :: c :: rest)
  | c :: rest =>
      if isDigit c then
        let (ds, rest) := basedRun isDigit rest
        (c :: ds, rest)
      else ([], c :: rest)
  | [] => ([], [])

/-- Drops one character of the given ones. -/
def dropOneOf (chars : List Char) (cs : List Char) : List Char :=
  match cs with
  | c :: rest => if chars.contains c then rest else cs
  | [] => []

/-- The rest after an exponent, if one stands here. -/
def exponent? (cs : List Char) : Option (List Char) :=
  match cs with
  | e :: rest =>
      if e == 'e' || e == 'E' then
        match digitRun (dropOneOf ['+', '-'] rest) with
        | ([], _) => none
        | (_, rest) => some rest
      else none
  | [] => none

def afterExponent (cs : List Char) : List Char := (exponent? cs).getD cs

def based? (cs : List Char) : Option (List Char) :=
  match cs with
  | '0' :: letter :: rest =>
      let run :=
        if letter == 'x' || letter == 'X' then
          basedRun (fun c => c.isDigit || ('a' ≤ c && c ≤ 'f') || ('A' ≤ c && c ≤ 'F')) rest
        else if letter == 'o' || letter == 'O' then basedRun (fun c => '0' ≤ c && c ≤ '7') rest
        else if letter == 'b' || letter == 'B' then basedRun (fun c => c == '0' || c == '1') rest
        else ([], rest)
      match run with
      | ([], _) => none
      | (_, rest) => some (dropOneOf ['l', 'L'] rest)
  | _ => none

/-- The kind of the number that starts here, and what follows it. -/
def number? (cs : List Char) : Option (TokenKind × List Char) :=
  match based? cs with
  | some rest => some (.integer, rest)
  | none =>
      match digitRun cs with
      | ([], '.' :: rest) =>
          match digitRun rest with
          | ([], _) => none
          | (_, rest) => some (.float, dropOneOf ['j', 'J'] (afterExponent rest))
      | ([], _) => none
      | (_, '.' :: rest) =>
          some (.float, dropOneOf ['j', 'J'] (afterExponent (digitRun rest).2))
      | (_, rest) =>
          match exponent? rest with
          | some rest => some (.float, dropOneOf ['j', 'J'] rest)
          | none => some (.integer, dropOneOf ['l', 'L', 'j', 'J'] rest)

/-! ## Marks -/

/-- Longer marks come first. -/
def marks : List (List Char) :=
  ["...", "**=", "//=", ">>=", "<<=", "->", ":=", "==", "!=", "<>", "<=", ">=", "+=", "-=", "*=",
    "/=", "%=", "&=", "|=", "^=", "@=", "**", "//", ">>", "<<", "+", "-", "*", "/", "%", "&", "|",
    "^", "~", "<", ">", "(", ")", "[", "]", "\x7b", "\x7d", ",", ":", ".", ";", "=", "@"].map
    String.toList

/-- The kind of the token that starts at the first character, and what follows it. -/
def next (c : Char) (rest : List Char) : TokenKind × List Char :=
  let cs := c :: rest
  match string? cs with
  | some (true, rest) => (.string, rest)
  | some (false, rest) => (.bad, rest)
  | none =>
      if Text.isNameStart c then (.word, rest.dropWhile Text.isNameRest)
      else
        match number? cs with
        | some found => found
        | none =>
            match marks.find? (·.isPrefixOf cs) with
            | some mark => (.mark, cs.drop mark.length)
            | none => (.bad, rest)

section

variable {c : Char} {cs rest : List Char}

theorem number?_ne_word {kind : TokenKind} (h : number? cs = some (kind, rest)) : kind ≠ .word := by
  unfold number? at h
  split at h
  · cases h
    decide
  · split at h
    · split at h
      · cases h
      · cases h
        decide
    · cases h
    · cases h
      decide
    · split at h
      · cases h
        decide
      · cases h
        decide

/-- A word is a letter and what goes on like a name. -/
theorem next_word (h : (next c rest).1 = .word) :
    Text.isNameStart c = true ∧ (next c rest).2 = rest.dropWhile Text.isNameRest := by
  unfold next at h ⊢
  dsimp only at h ⊢
  split at h
  · cases h
  · cases h
  · by_cases hstart : Text.isNameStart c = true
    · exact ⟨hstart, by simp [hstart]⟩
    · rw [if_neg hstart] at h
      split at h
      · rename_i found hnumber
        exact absurd h (number?_ne_word hnumber)
      · split at h <;> cases h

theorem take_dropWhile (p : Char → Bool) (cs : List Char) :
    cs.take (cs.length - (cs.dropWhile p).length) = cs.takeWhile p := by
  have hlength : cs.length = (cs.takeWhile p).length + (cs.dropWhile p).length := by
    rw [← List.length_append, List.takeWhile_append_dropWhile]
  rw [show cs.length - (cs.dropWhile p).length = (cs.takeWhile p).length by omega]
  exact (List.prefix_iff_eq_take.1 (List.takeWhile_prefix p)).symm

/-- The text of a word is an identifier. -/
theorem isName_of_next (h : (next c rest).1 = .word) :
    Text.isName (String.ofList ((c :: rest).take ((c :: rest).length - (next c rest).2.length))) =
      true := by
  rcases next_word h with ⟨hstart, hafter⟩
  have hlength : (rest.dropWhile Text.isNameRest).length ≤ rest.length :=
    (List.dropWhile_suffix Text.isNameRest).length_le
  have htaken : (c :: rest).take ((c :: rest).length - (next c rest).2.length) =
      c :: rest.takeWhile Text.isNameRest := by
    rw [hafter, List.length_cons, Nat.succ_sub hlength, List.take_succ_cons, take_dropWhile]
  rw [htaken]
  simp [Text.isName, hstart, List.all_takeWhile]

end

/-! ## Layout -/

/-- Where the reading of a text stands between two tokens. -/
structure Layout where
  pos : Nat
  line : Nat
  width : Nat
  atStart : Bool
  comments : Nat
  joins : List String

/-- Blanks that do not count as indentation. -/
def isOddBlank (c : Char) : Bool :=
  c == '\x0b' || c.toNat == 0x200B || c.toNat == 0x2060 || c.toNat == 0xFEFF

def isPlainBlank (c : Char) : Bool :=
  c == ' ' || c == '\t' || c == '\r' || c == '\n' || c == '\x0c' || isOddBlank c

/-- After a blank that is no indentation, all blanks up to the next token are passed over, line ends
included. -/
def skipPlain (l : Layout) : List Char → Layout × List Char
  | [] => (l, [])
  | c :: rest =>
      if isPlainBlank c then
        skipPlain { l with pos := l.pos + 1, line := if c == '\n' then l.line + 1 else l.line } rest
      else (l, c :: rest)

/-- Passes over blanks, line ends, comments and line continuations. -/
def skipLayout : Nat → Layout → List Char → Layout × List Char
  | 0, l, cs => (l, cs)
  | fuel + 1, l, cs =>
      match cs with
      | [] => ({ l with width := 0, atStart := true }, [])
      | '\n' :: rest =>
          skipLayout fuel
            { l with pos := l.pos + 1, line := l.line + 1, width := 0, atStart := true } rest
      | ' ' :: rest => skipLayout fuel { l with pos := l.pos + 1, width := l.width + 1 } rest
      | '\t' :: rest => skipLayout fuel { l with pos := l.pos + 1, width := l.width + 8 } rest
      | '\r' :: rest => skipLayout fuel { l with pos := l.pos + 1, width := 0 } rest
      | '\x0c' :: rest => skipLayout fuel { l with pos := l.pos + 1, width := 0 } rest
      | '#' :: _ =>
          let text := cs.takeWhile (· != '\n')
          skipLayout fuel
            { l with pos := l.pos + text.length, comments := l.comments + 1 }
            (cs.dropWhile (· != '\n'))
      | '\\' :: '\n' :: rest =>
          skipLayout fuel
            { l with pos := l.pos + 2, line := l.line + 1, joins := l.joins ++ ["\\\n"] } rest
      | '\\' :: '\r' :: '\n' :: rest =>
          skipLayout fuel
            { l with pos := l.pos + 3, line := l.line + 1, joins := l.joins ++ ["\\\r\n"] } rest
      | c :: rest =>
          if isOddBlank c then
            let (l, rest) := skipPlain l (c :: rest)
            match rest with
            | '#' :: _ => skipLayout fuel l rest
            | '\\' :: _ => skipLayout fuel l rest
            | _ => (l, rest)
          else (l, c :: rest)

theorem isName_of_finish : TokenKind.finish = .word → Text.isName "" = true := nofun

def countLines (cs : List Char) : Nat := cs.count '\n'

/-- The tokens from a place on; the last one is of kind `finish`. -/
def tokensFrom : Nat → Layout → List Char → List Token
  | 0, _, _ => []
  | fuel + 1, before, cs =>
      let (l, cs) := skipLayout (cs.length + 1) before cs
      let indent := if l.atStart then some l.width else none
      match cs with
      | [] => [⟨.finish, "", l.pos, l.pos, l.line, indent, l.comments, l.joins,
          isName_of_finish⟩]
      | c :: rest =>
          let found := next c rest
          let taken := (c :: rest).take ((c :: rest).length - found.2.length)
          let stop := l.pos + taken.length
          ⟨found.1, String.ofList taken, l.pos, stop, l.line, indent, l.comments, l.joins,
              isName_of_next⟩
            :: tokensFrom fuel ⟨stop, l.line + countLines taken, 0, false, 0, []⟩ found.2

end Token

/-- The tokens of a text. -/
def tokens (cs : List Char) : List Token :=
  Token.tokensFrom (cs.length + 2) ⟨0, 1, 0, true, 0, []⟩ cs

end Python
end WireTypes
