import WireTypes.Json.Basic

/-!
# Json text — reading

`Json.parse?` reads one value with blanks around it. A repeated member replaces the earlier one. A
whole number outside the 64-bit ranges, and any number with a point or an exponent, is a double; one
too large for a double is refused.

A double is made from the leading digits that fit 64 bits, rounded, and then multiplied or divided by a
power of ten. So numbers with few digits are exact, and others may be off in the last place.
-/

namespace WireTypes
namespace Json

def isBlank (c : Char) : Bool := c == ' ' || c == '\n' || c == '\t' || c == '\r'

def skipBlanks (cs : List Char) : List Char := cs.dropWhile isBlank

/-! ## Strings -/

def hexValue? (c : Char) : Option Nat :=
  if '0' ≤ c ∧ c ≤ '9' then some (c.toNat - '0'.toNat)
  else if 'a' ≤ c ∧ c ≤ 'f' then some (c.toNat - 'a'.toNat + 10)
  else if 'A' ≤ c ∧ c ≤ 'F' then some (c.toNat - 'A'.toNat + 10)
  else none

/-- The number that four hexadecimal digits write. -/
def hex4? : List Char → Option (Nat × List Char)
  | a :: b :: c :: d :: rest => do
      let a ← hexValue? a
      let b ← hexValue? b
      let c ← hexValue? c
      let d ← hexValue? d
      some (((a * 16 + b) * 16 + c) * 16 + d, rest)
  | _ => none

/-- After the four digits of a code unit: two halves of a pair make one character. -/
def codeUnit? (unit : Nat) (rest : List Char) : Option (Char × List Char) :=
  if 0xD800 ≤ unit ∧ unit < 0xDC00 then
    match rest with
    | '\\' :: 'u' :: more =>
        match hex4? more with
        | some (low, after) =>
            if 0xDC00 ≤ low ∧ low < 0xE000 then
              some (Char.ofNat (0x10000 + (unit - 0xD800) * 0x400 + (low - 0xDC00)), after)
            else none
        | none => none
    | _ => none
  else if 0xDC00 ≤ unit ∧ unit < 0xE000 then none
  else some (Char.ofNat unit, rest)

def simpleEscape? : Char → Option Char
  | '"' => some '"'
  | '\\' => some '\\'
  | '/' => some '/'
  | 'b' => some '\x08'
  | 'f' => some '\x0c'
  | 'n' => some '\n'
  | 'r' => some '\r'
  | 't' => some '\t'
  | _ => none

/-- The text up to the closing quotation mark, which is dropped. -/
def stringBody : Nat → List Char → List Char → Option (String × List Char)
  | 0, _, _ => none
  | _ + 1, _, [] => none
  | fuel + 1, acc, c :: rest =>
      match c, rest with
      | '"', rest => some (String.ofList acc.reverse, rest)
      | '\\', 'u' :: more => do
          let (unit, after) ← hex4? more
          let (ch, after) ← codeUnit? unit after
          stringBody fuel (ch :: acc) after
      | '\\', e :: more => do
          let ch ← simpleEscape? e
          stringBody fuel (ch :: acc) more
      | '\\', [] => none
      | c, rest => if c.toNat < 0x20 then none else stringBody fuel (c :: acc) rest

def string? (cs : List Char) : Option (String × List Char) := stringBody (cs.length + 1) [] cs

/-! ## Numbers -/

def digitsValue (ds : List Char) : Nat :=
  ds.foldl (fun n d => n * 10 + (d.toNat - '0'.toNat)) 0

/-- A leading digit run that is `0` or does not start with it. -/
def wholePart? (cs : List Char) : Option (List Char × List Char) :=
  match cs.takeWhile Char.isDigit with
  | [] => none
  | ['0'] => some (['0'], cs.dropWhile Char.isDigit)
  | '0' :: _ => none
  | ds => some (ds, cs.dropWhile Char.isDigit)

def fraction? : List Char → Option (List Char × List Char)
  | '.' :: rest =>
      match rest.takeWhile Char.isDigit with
      | [] => none
      | ds => some (ds, rest.dropWhile Char.isDigit)
  | cs => some ([], cs)

def exponentDigits? (negative : Bool) (cs : List Char) : Option (Option Int × List Char) :=
  match cs.takeWhile Char.isDigit with
  | [] => none
  | ds =>
      let n : Int := digitsValue ds
      some (some (if negative then -n else n), cs.dropWhile Char.isDigit)

def exponent? : List Char → Option (Option Int × List Char)
  | e :: rest =>
      if e == 'e' || e == 'E' then
        match rest with
        | '+' :: more => exponentDigits? false more
        | '-' :: more => exponentDigits? true more
        | more => exponentDigits? false more
      else some (none, e :: rest)
  | [] => some (none, [])

def fitsWord (n : Int) : Bool := -(Int.pow 2 63) ≤ n && n < Int.pow 2 64

/-- The number of the leading digits after `n` that fit 64 bits, and how many digits follow them. -/
def leadingDigits (n : Nat) : List Char → Nat × Nat
  | [] => (n, 0)
  | d :: rest =>
      let next := n * 10 + (d.toNat - '0'.toNat)
      if next < Nat.pow 2 64 then leadingDigits next rest else (n, rest.length + 1)

/-- Powers of ten with greater exponents are no doubles. -/
def greatestPower : Nat := 308

/-- A double multiplied or divided by a power of ten. Small numbers are divided in several steps. -/
def timesPower? (x : Binary64) (exponent : Int) : Option Binary64 :=
  if exponent.natAbs ≤ greatestPower then do
    let power ← Binary64.ofDecimal? false 1 exponent.natAbs
    if 0 ≤ exponent then x.mul? power else x.div? power
  else if x.isZero then some x
  else if _h : 0 ≤ exponent then none
  else do
    let power ← Binary64.ofDecimal? false 1 greatestPower
    timesPower? (← x.div? power) (exponent + greatestPower)
termination_by exponent.natAbs
decreasing_by
  simp only [greatestPower] at *
  omega

/-- The double that a sign, digits before and after the point, and an exponent write. -/
def double? (negative : Bool) (whole frac : List Char) (exponent : Int) : Option Binary64 := do
  let (n, dropped) := leadingDigits 0 whole
  let (m, ignored) := leadingDigits n frac
  let x ← Binary64.ofRatio? false m 1
  let x ← timesPower? x (exponent + dropped - (frac.length - ignored : Nat))
  some (if negative then x.negate else x)

def number? (cs : List Char) : Option (Number × List Char) := do
  let (negative, unsigned) :=
    match cs with
    | '-' :: rest => (true, rest)
    | cs => (false, cs)
  let (whole, rest) ← wholePart? unsigned
  let (frac, rest) ← fraction? rest
  let (exponent, rest) ← exponent? rest
  let magnitude := digitsValue (whole ++ frac)
  let signed : Int := if negative then -(magnitude : Int) else magnitude
  if frac.isEmpty && exponent.isNone && fitsWord signed && !(negative && magnitude == 0) then
    some (.int signed, rest)
  else
    let x ← double? negative whole frac (exponent.getD 0)
    some (.float x, rest)

/-! ## Values -/

mutual

/-- A value that starts at the head of the text. -/
def value? : Nat → List Char → Option (Json × List Char)
  | 0, _ => none
  | fuel + 1, cs =>
      match cs with
      | 'n' :: 'u' :: 'l' :: 'l' :: rest => some (.null, rest)
      | 't' :: 'r' :: 'u' :: 'e' :: rest => some (.bool true, rest)
      | 'f' :: 'a' :: 'l' :: 's' :: 'e' :: rest => some (.bool false, rest)
      | '"' :: rest => do
          let (s, rest) ← string? rest
          some (.str s, rest)
      | '[' :: rest =>
          match skipBlanks rest with
          | ']' :: rest => some (.arr [], rest)
          | rest => do
              let (items, rest) ← items? fuel rest
              some (.arr items, rest)
      | '{' :: rest =>
          match skipBlanks rest with
          | '}' :: rest => some (.obj [], rest)
          | rest => do
              let (members, rest) ← members? fuel rest
              some (.obj (insertAll [] members), rest)
      | cs => do
          let (n, rest) ← number? cs
          some (.num n, rest)

/-- At least one value, then the closing bracket. -/
def items? : Nat → List Char → Option (List Json × List Char)
  | 0, _ => none
  | fuel + 1, cs => do
      let (item, rest) ← value? fuel (skipBlanks cs)
      match skipBlanks rest with
      | ',' :: rest =>
          let (items, rest) ← items? fuel rest
          some (item :: items, rest)
      | ']' :: rest => some ([item], rest)
      | _ => none

/-- At least one member, then the closing brace. -/
def members? : Nat → List Char → Option (List (String × Json) × List Char)
  | 0, _ => none
  | fuel + 1, cs =>
      match skipBlanks cs with
      | '"' :: rest => do
          let (key, rest) ← string? rest
          match skipBlanks rest with
          | ':' :: rest =>
              let (value, rest) ← value? fuel (skipBlanks rest)
              match skipBlanks rest with
              | ',' :: rest =>
                  let (members, rest) ← members? fuel rest
                  some ((key, value) :: members, rest)
              | '}' :: rest => some ([(key, value)], rest)
              | _ => none
          | _ => none
      | _ => none

end

def parse? (text : String) : Option Json := do
  let cs := text.toList
  let (j, rest) ← value? (cs.length + 1) (skipBlanks cs)
  if (skipBlanks rest).isEmpty then some j else none

end Json
end WireTypes
