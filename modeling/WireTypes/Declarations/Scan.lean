/-!
# Scan — the code characters of a declaration file

`visits` lists the characters of a text that stand outside comments and string literals, each with its
offset and the number of brackets open before it. A closing bracket without an opening one leaves the
depth at zero.

- `lineStarts` are the offsets of lines that begin outside brackets, comments and strings;
- `declarationLength` is the length of the declaration at the head of a text.
-/

namespace WireTypes
namespace Declarations

inductive Mode
  | code
  | lineComment
  | blockComment
  | string (quote : Char)
  deriving DecidableEq, Repr

structure Visit where
  offset : Nat
  char : Char
  depth : Nat
  deriving DecidableEq, Repr

def isQuote (c : Char) : Bool := c == '"' || c == '\'' || c == '`'

/-- The depth after a code character. -/
def depthAfter (depth : Nat) (c : Char) : Nat :=
  if c == '{' || c == '[' || c == '(' then depth + 1
  else if c == '}' || c == ']' || c == ')' then depth - 1
  else depth

def visits (mode : Mode) (depth offset : Nat) : List Char → List Visit
  | [] => []
  | c :: rest =>
      match mode with
      | .code =>
          match c, rest with
          | '/', '/' :: more => visits .lineComment depth (offset + 2) more
          | '/', '*' :: more => visits .blockComment depth (offset + 2) more
          | c, rest =>
              if isQuote c then visits (.string c) depth (offset + 1) rest
              else ⟨offset, c, depth⟩ :: visits .code (depthAfter depth c) (offset + 1) rest
      | .lineComment =>
          if c == '\n' then ⟨offset, c, depth⟩ :: visits .code depth (offset + 1) rest
          else visits .lineComment depth (offset + 1) rest
      | .blockComment =>
          match c, rest with
          | '*', '/' :: more => visits .code depth (offset + 2) more
          | _, rest => visits .blockComment depth (offset + 1) rest
      | .string quote =>
          match c, rest with
          | '\\', _ :: more => visits (.string quote) depth (offset + 2) more
          | c, rest => visits (if c == quote then .code else .string quote) depth (offset + 1) rest

/-- The code characters of a whole text. -/
def codeOf (text : List Char) : List Visit := visits .code 0 0 text

/-! ## Lines and declarations -/

def lineStarts (text : List Char) : List Nat :=
  (0 :: ((codeOf text).filter fun v => v.char == '\n' && v.depth == 0).map (·.offset + 1)).filter
    (· < text.length)

inductive Kind
  | interface
  | alias
  deriving DecidableEq, Repr

/-- The character that ends a declaration: the closing brace of an interface, or the semicolon of an
alias outside all brackets. -/
def Kind.endsAt (k : Kind) (v : Visit) : Bool :=
  match k with
  | .interface => v.char == '}' && v.depth == 1
  | .alias => v.char == ';' && v.depth == 0

def declarationLength (k : Kind) (text : List Char) : Nat :=
  match (codeOf text).find? k.endsAt with
  | some v => v.offset + 1
  | none => text.length

end Declarations
end WireTypes
