import WireTypes.Json.Binary64

/-!
# Json — values, objects in insertion order

- `Json.Number` keeps whole numbers and doubles apart: `1` and `1.0` are different numbers.
- `Json.obj` is a list of members; `Json.insert` replaces a member where it stands, so that the
  order of members is the order of their first insertion.
- `Json.same` is equality of values: objects are compared without regard to order.
-/

namespace WireTypes

inductive Json.Number
  | int (value : Int)
  | float (value : Binary64)
  deriving DecidableEq, Repr

inductive Json
  | null
  | bool (value : Bool)
  | num (value : Json.Number)
  | str (value : String)
  | arr (items : List Json)
  | obj (members : List (String × Json))
  deriving Inhabited

namespace Json

/-! ## Members -/

/-- The value of the first member of that name. -/
def lookup (key : String) : List (String × Json) → Option Json
  | [] => none
  | (k, v) :: rest => if k = key then some v else lookup key rest

/-- Replaces the member of that name, or appends it. -/
def insert (key : String) (value : Json) : List (String × Json) → List (String × Json)
  | [] => [(key, value)]
  | (k, v) :: rest => if k = key then (k, value) :: rest else (k, v) :: insert key value rest

/-- Inserts members one after the other. -/
def insertAll (members : List (String × Json)) (new : List (String × Json)) :
    List (String × Json) :=
  new.foldl (fun acc m => insert m.1 m.2 acc) members

/-- The value of a member, if this is an object that has it. -/
def get? (j : Json) (key : String) : Option Json :=
  match j with
  | .obj members => lookup key members
  | _ => none

/-! ## Shorthands -/

def ofInt (n : Int) : Json := .num (.int n)

def ofNat (n : Nat) : Json := .num (.int n)

def strings (items : List String) : Json := .arr (items.map .str)

def ofOption {α : Type} (f : α → Json) : Option α → Json
  | none => .null
  | some a => f a

/-! ## Equality of values -/

def Number.same : Number → Number → Bool
  | .int a, .int b => a == b
  | .float a, .float b => a.same b
  | _, _ => false

mutual

def same : Json → Json → Bool
  | .null, .null => true
  | .bool a, .bool b => a == b
  | .num a, .num b => a.same b
  | .str a, .str b => a == b
  | .arr a, .arr b => sameItems a b
  | .obj a, .obj b => a.length == b.length && sameMembers a b
  | _, _ => false

def sameItems : List Json → List Json → Bool
  | [], [] => true
  | a :: as, b :: bs => same a b && sameItems as bs
  | _, _ => false

/-- Every member on the left has an equal one on the right. -/
def sameMembers : List (String × Json) → List (String × Json) → Bool
  | [], _ => true
  | (k, v) :: rest, right =>
      (match lookup k right with
        | some w => same v w
        | none => false) && sameMembers rest right

end

end Json

end WireTypes
