import WireTypes.Json.Basic
import WireTypes.Text.Blank

/-!
# Literal — the values that literal tokens write

- `decodeString?` reads a string token with its prefix and quotation marks; bytes and formatted strings
  write no constant;
- `decodeInteger?` reads a whole number in any of the four bases, `decodeDecimal?` one without a base
  prefix; both refuse what does not fit 64 bits with a sign;
- `decodeFloat?` reads a number with a point or an exponent.
-/

namespace WireTypes
namespace Python

/-! ## Escape sequences -/

def hexDigitValue? (c : Char) : Option Nat :=
  if '0' ≤ c ∧ c ≤ '9' then some (c.toNat - 48)
  else if 'a' ≤ c ∧ c ≤ 'f' then some (c.toNat - 87)
  else if 'A' ≤ c ∧ c ≤ 'F' then some (c.toNat - 55)
  else none

/-- The number that digits of a base write, most significant first. -/
def digitsValue? (base : Nat) : Nat → List Char → Option Nat
  | acc, [] => some acc
  | acc, c :: rest =>
      match hexDigitValue? c with
      | some d => if d < base then digitsValue? base (acc * base + d) rest else none
      | none => none

/-- At least one digit. -/
def number? (base : Nat) (digits : List Char) : Option Nat :=
  if digits.isEmpty then none else digitsValue? base 0 digits

/-- A code point may be written with a plus sign in front. -/
def codePoint? (digits : List Char) : Option Char :=
  let unsigned :=
    match digits with
    | '+' :: rest => rest
    | digits => digits
  match number? 16 unsigned with
  | some n => if n.isValidChar then some (Char.ofNat n) else none
  | none => none

/-- What an escape by code point stands for: the character, or the digits themselves if they name
none. -/
def codePointText (digits : List Char) : List Char :=
  match codePoint? digits with
  | some c => [c]
  | none => digits

def simpleEscape? : Char → Option Char
  | 'n' => some '\n'
  | 't' => some '\t'
  | 'r' => some '\r'
  | '0' => some '\x00'
  | '\\' => some '\\'
  | '\'' => some '\''
  | '"' => some '"'
  | _ => none

/-- How many digits follow an escape by code point. -/
def codePointWidth? : Char → Option Nat
  | 'x' => some 2
  | 'u' => some 4
  | 'U' => some 8
  | _ => none

/-- An unknown escape is kept as it stands; a line feed after a backslash is dropped. -/
def unescape : List Char → List Char
  | [] => []
  | '\\' :: [] => ['\\']
  | '\\' :: '\n' :: rest => unescape rest
  | '\\' :: c :: rest =>
      match simpleEscape? c, codePointWidth? c with
      | some d, _ => d :: unescape rest
      | none, some width => codePointText (rest.take width) ++ unescape (rest.drop width)
      | none, none => '\\' :: c :: unescape rest
  | c :: rest => c :: unescape rest
termination_by cs => cs.length
decreasing_by all_goals simp only [List.length_cons, List.length_drop]; omega

/-! ## Strings -/

def isQuote (c : Char) : Bool := c == '"' || c == '\''

/-- The text between a pair of quotation marks that starts and ends the body. -/
def unquote? (mark body : List Char) : Option (List Char) :=
  if 2 * mark.length ≤ body.length ∧ mark.isPrefixOf body ∧ mark.isSuffixOf body then
    some ((body.drop mark.length).take (body.length - 2 * mark.length))
  else none

/-- Triple marks are tried before single ones. -/
def quotationMarks : List (List Char) := [['"', '"', '"'], ['\'', '\'', '\''], ['"'], ['\'']]

def decodeChars? (cs : List Char) : Option (List Char) :=
  let letters := cs.takeWhile (!isQuote ·)
  let body := cs.dropWhile (!isQuote ·)
  let flags := letters.map Char.toLower
  if body.isEmpty || 2 < (letters.map Char.utf8Size).foldl (· + ·) 0 then none
  else if flags.contains 'b' || flags.contains 'f' then none
  else
    match quotationMarks.findSome? (unquote? · body) with
    | some inner => some (if flags.contains 'r' then inner else unescape inner)
    | none => none

def decodeString? (token : String) : Option String :=
  (decodeChars? token.toList).map String.ofList

/-- Adjacent strings are joined; all must be constants. -/
def decodeStrings? (tokens : List String) : Option String :=
  (tokens.mapM decodeString?).map String.join

/-! ## Numbers -/

def fitsSigned (n : Int) : Bool := -(Int.pow 2 63) ≤ n && n < Int.pow 2 63

def signed? (n : Nat) : Option Int := if fitsSigned n then some n else none

def withoutUnderscores (token : String) : List Char := token.toList.filter (· != '_')

def decodeDecimal? (token : String) : Option Int :=
  (number? 10 (withoutUnderscores token)).bind signed?

def decodeInteger? (token : String) : Option Int :=
  match (withoutUnderscores token).map Char.toLower with
  | '0' :: 'x' :: digits => (number? 16 digits).bind signed?
  | '0' :: 'o' :: digits => (number? 8 digits).bind signed?
  | '0' :: 'b' :: digits => (number? 2 digits).bind signed?
  | digits => (number? 10 digits).bind signed?

/-- The exponent part, which may be absent. -/
def exponentOf? : List Char → Option Int
  | [] => some 0
  | e :: rest =>
      if e == 'e' || e == 'E' then
        match rest with
        | '-' :: digits => (number? 10 digits).map fun n => -(n : Int)
        | '+' :: digits => (number? 10 digits).map Int.ofNat
        | digits => (number? 10 digits).map Int.ofNat
      else none

/-- A number too large for a double, or with a suffix, has no value. -/
def decodeFloat? (token : String) : Option Binary64 :=
  let cs := withoutUnderscores token
  let whole := cs.takeWhile Char.isDigit
  let rest := cs.dropWhile Char.isDigit
  let afterPoint :=
    match rest with
    | '.' :: more => more
    | more => more
  let hasPoint := rest.head? == some '.'
  let fraction := if hasPoint then afterPoint.takeWhile Char.isDigit else []
  let exponentPart := if hasPoint then afterPoint.dropWhile Char.isDigit else rest
  match number? 10 (whole ++ fraction), exponentOf? exponentPart with
  | some digits, some exponent =>
      Binary64.ofDecimal? false digits (exponent - fraction.length)
  | _, _ => none

end Python
end WireTypes
