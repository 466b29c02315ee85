import Mathlib
import WireTypes.Json.Basic

/-!
# Value — the values that JSON texts denote

Two numbers are the same value when they are the same number of mathematics: `1` and `1.0` are, and both
are whole. This is the equality of JSON Schema, and coarser than `Json.same`.

- `Json.Number.units` is a number, counted in units of the last place of the smallest double;
- `Json.equal` compares values;
- `Json.HasKind` says which of the six kinds a value is of, whole numbers being a seventh one.
-/

namespace WireTypes
namespace Json

/-! ## Numbers -/

namespace Number

/-- The number times `2 ^ 1074`, which is whole for every double. -/
def units : Number → Int
  | .int n => n * 2 ^ 1074
  | .float x => if x.negative then -(x.scaledMagnitude : Int) else (x.scaledMagnitude : Int)

def IsWhole (n : Number) : Prop := (2 : Int) ^ 1074 ∣ n.units

theorem isWhole_int (n : Int) : IsWhole (.int n) := Int.dvd_mul_left n (2 ^ 1074)

end Number

/-! ## Equality -/

mutual

def equal : Json → Json → Bool
  | .null, .null => true
  | .bool a, .bool b => a == b
  | .num a, .num b => a.units == b.units
  | .str a, .str b => a == b
  | .arr a, .arr b => equalItems a b
  | .obj a, .obj b => a.length == b.length && equalMembers a b
  | _, _ => false

def equalItems : List Json → List Json → Bool
  | [], [] => true
  | a :: as, b :: bs => equal a b && equalItems as bs
  | _, _ => false

/-- Every member on the left has an equal one on the right. -/
def equalMembers : List (String × Json) → List (String × Json) → Bool
  | [], _ => true
  | (k, v) :: rest, right =>
      (match lookup k right with
        | some w => equal v w
        | none => false) && equalMembers rest right

end

/-- Whether no two of the items are equal. -/
def Distinct (items : List Json) : Prop := items.Pairwise fun a b => equal a b = false

/-! ## Kinds -/

inductive Kind
  | null
  | boolean
  | integer
  | number
  | string
  | array
  | object
  deriving DecidableEq, Repr

/-- The word for a kind in a schema. -/
def Kind.word : Kind → String
  | .null => "null"
  | .boolean => "boolean"
  | .integer => "integer"
  | .number => "number"
  | .string => "string"
  | .array => "array"
  | .object => "object"

theorem Kind.word_injective {a b : Kind} (h : a.word = b.word) : a = b := by
  cases a <;> cases b <;> simp [Kind.word] at h ⊢

inductive HasKind : Kind → Json → Prop
  | null : HasKind .null .null
  | boolean (b : Bool) : HasKind .boolean (.bool b)
  | integer {n : Number} : n.IsWhole → HasKind .integer (.num n)
  | number (n : Number) : HasKind .number (.num n)
  | string (s : String) : HasKind .string (.str s)
  | array (items : List Json) : HasKind .array (.arr items)
  | object (members : List (String × Json)) : HasKind .object (.obj members)

end Json
end WireTypes
