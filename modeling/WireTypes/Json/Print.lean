import WireTypes.Json.Basic

/-!
# Json text — the compact and the indented form

Strings escape the quotation mark, the backslash and the control characters below U+0020, and nothing
else. A double is written with the fewest digits that read back: positionally from 1e-5 up to 1e15,
and otherwise with a signed exponent.
-/

namespace WireTypes
namespace Json

/-! ## Strings -/

def hexDigit (n : Nat) : Char := (Nat.toDigits 16 (n % 16)).headD '0'

def escapeChar (c : Char) : List Char :=
  match c with
  | '"' => ['\\', '"']
  | '\\' => ['\\', '\\']
  | '\x08' => ['\\', 'b']
  | '\x0c' => ['\\', 'f']
  | '\n' => ['\\', 'n']
  | '\r' => ['\\', 'r']
  | '\t' => ['\\', 't']
  | c =>
      if c.toNat < 0x20 then ['\\', 'u', '0', '0', hexDigit (c.toNat / 16), hexDigit c.toNat]
      else [c]

def quoted (s : String) : String :=
  String.ofList ('"' :: s.toList.flatMap escapeChar ++ ['"'])

/-! ## Numbers -/

def zeros (n : Nat) : String := String.ofList (List.replicate n '0')

/-- The digits of a magnitude, with the exponent of the leading one. -/
def positional (digits : String) (lead : Int) : String :=
  let width : Int := digits.length
  if lead < 0 then "0." ++ zeros (-lead - 1).toNat ++ digits
  else if width ≤ lead + 1 then digits ++ zeros (lead + 1 - width).toNat ++ ".0"
  else
    let whole := (lead + 1).toNat
    String.ofList (digits.toList.take whole) ++ "." ++ String.ofList (digits.toList.drop whole)

def scientific (digits : String) (lead : Int) : String :=
  let mantissa :=
    match digits.toList with
    | [] => "0"
    | [d] => String.ofList [d]
    | d :: rest => String.ofList (d :: '.' :: rest)
  let sign := if lead < 0 then "-" else "+"
  mantissa ++ "e" ++ sign ++ toString lead.natAbs

/-- Trailing zeros of the digits move into the exponent. -/
def stripZeros : Nat → Nat → Nat
  | 0, n => n
  | fuel + 1, n => if n % 10 = 0 ∧ n ≠ 0 then stripZeros fuel (n / 10) else n

def floatText (x : Binary64) : String :=
  let sign := if x.negative then "-" else ""
  if x.isZero then sign ++ "0.0"
  else
    let (digits, exponent) := x.shortest
    let lead := exponent + (Binary64.decimalWidth digits : Int) - 1
    let text := toString (stripZeros 20 digits)
    if -5 ≤ lead ∧ lead ≤ 15 then sign ++ positional text lead
    else sign ++ scientific text lead

def Number.text : Number → String
  | .int n => toString n
  | .float x => floatText x

/-! ## Compact form -/

mutual

def compact : Json → String
  | .null => "null"
  | .bool true => "true"
  | .bool false => "false"
  | .num n => n.text
  | .str s => quoted s
  | .arr items => "[" ++ ",".intercalate (compactItems items) ++ "]"
  | .obj members => "\x7b" ++ ",".intercalate (compactMembers members) ++ "\x7d"

def compactItems : List Json → List String
  | [] => []
  | j :: rest => compact j :: compactItems rest

def compactMembers : List (String × Json) → List String
  | [] => []
  | (k, v) :: rest => (quoted k ++ ":" ++ compact v) :: compactMembers rest

end

/-! ## Indented form -/

def indent (depth : Nat) : String := String.ofList (List.replicate (2 * depth) ' ')

/-- Lines one level deeper than `depth`, or nothing between the brackets. -/
def bracketed (opening closing : String) (depth : Nat) (lines : List String) : String :=
  match lines with
  | [] => opening ++ closing
  | lines =>
      opening ++ "\n" ++ ",\n".intercalate (lines.map (indent (depth + 1) ++ ·)) ++ "\n"
        ++ indent depth ++ closing

mutual

def prettyAt (depth : Nat) : Json → String
  | .arr items => bracketed "[" "]" depth (prettyItems (depth + 1) items)
  | .obj members => bracketed "\x7b" "\x7d" depth (prettyMembers (depth + 1) members)
  | .null => "null"
  | .bool true => "true"
  | .bool false => "false"
  | .num n => n.text
  | .str s => quoted s

def prettyItems (depth : Nat) : List Json → List String
  | [] => []
  | j :: rest => prettyAt depth j :: prettyItems depth rest

def prettyMembers (depth : Nat) : List (String × Json) → List String
  | [] => []
  | (k, v) :: rest => (quoted k ++ ": " ++ prettyAt depth v) :: prettyMembers depth rest

end

def pretty (j : Json) : String := prettyAt 0 j

end Json
end WireTypes
