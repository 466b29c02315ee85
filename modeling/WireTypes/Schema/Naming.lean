import WireTypes.Text.Case

/-!
# Naming — property names and free names

- `toCamel` turns `snake_case` into `camelCase`; leading underscores are kept;
- `uniqueName` appends the least number that makes a name free, as far as its counter goes.
-/

namespace WireTypes
namespace Schema

/-- Underscores are dropped, and the letter after them is written large. -/
def camelRest : Bool → List Char → List Char
  | _, [] => []
  | large, c :: rest =>
      if c = '_' then camelRest true rest
      else if large then Text.upperChar c ++ camelRest false rest
      else c :: camelRest false rest

def camelChars (cs : List Char) : List Char :=
  cs.takeWhile (· == '_') ++ camelRest false (cs.dropWhile (· == '_'))

def toCamel (name : String) : String := String.ofList (camelChars name.toList)

/-- The name with a number after it. -/
def numbered (preferred : String) (n : Nat) : String := preferred ++ toString n

/-- The first free name among the numbered ones, in increasing order from `n`; `next` is the number after
another one, if there is one. -/
def firstFree (next : Nat → Option Nat) (preferred : String) (taken : List String) :
    Nat → Nat → Option String
  | 0, _ => none
  | tries + 1, n =>
      -- The counter goes on before its number is tried.
      match next n with
      | none => none
      | some after =>
          if taken.contains (numbered preferred n) then firstFree next preferred taken tries after
          else some (numbered preferred n)

/-- The preferred name if it is free, else the first free name among the numbered ones. One candidate more
than there are taken names is enough. -/
def freeName (next : Nat → Option Nat) (preferred : String) (taken : List String) : Option String :=
  if taken.contains preferred then firstFree next preferred taken (taken.length + 1) 1
  else some preferred

/-- The greatest number of 32 bits with a sign. -/
def greatestCount : Nat := 2147483647

/-- The number after another one; the greatest one has none. -/
def nextCount? (n : Nat) : Option Nat := if n < greatestCount then some (n + 1) else none

/-- A name that is not taken. The numbers have 32 bits: the program stops where they come to an end. -/
def uniqueName (preferred : String) (taken : List String) : Option String :=
  freeName nextCount? preferred taken

/-- A name that is not taken, by numbers of any size. -/
def titleName (preferred : String) (taken : List String) : String :=
  (freeName (fun n => some (n + 1)) preferred taken).getD preferred

end Schema
end WireTypes
