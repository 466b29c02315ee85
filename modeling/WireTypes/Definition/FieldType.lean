import WireTypes.Definition.Id
import WireTypes.Json.Basic

/-!
# FieldType — the types of fields

- `FieldType.unionOf` flattens nested unions, drops repetitions and turns a `null` member into
  `optional`;
- `FieldType.refs` lists the definitions that a type refers to, in order of occurrence;
- `FieldType.same` is equality, with literal values compared as JSON values.
-/

namespace WireTypes

inductive StringFormat
  | dateTime
  | date
  | time
  | duration
  | uuid
  | email
  | uri
  | path
  | ipv4
  | ipv6
  deriving DecidableEq, Repr

/-- The `format` keyword of a schema. -/
def StringFormat.keyword : StringFormat → String
  | .dateTime => "date-time"
  | .date => "date"
  | .time => "time"
  | .duration => "duration"
  | .uuid => "uuid"
  | .email => "email"
  | .uri => "uri"
  | .path => "path"
  | .ipv4 => "ipv4"
  | .ipv6 => "ipv6"

inductive FieldType
  | any
  | null
  | bool
  | int
  | float
  | str
  | bytes
  | decimal
  | formatted (format : StringFormat)
  | list (item : FieldType)
  | set (item : FieldType)
  /-- Items one by one, or any number of the first one when `variadic`. -/
  | tuple (items : List FieldType) (variadic : Bool)
  | dict (key value : FieldType)
  | optional (inner : FieldType)
  | union (members : List FieldType)
  | literal (values : List Json)
  | ref (id : DefinitionId)
  /-- A name that no schema can express. -/
  | unresolved (name : String)

namespace FieldType

/-! ## Equality -/

mutual

def same : FieldType → FieldType → Bool
  | .any, .any => true
  | .null, .null => true
  | .bool, .bool => true
  | .int, .int => true
  | .float, .float => true
  | .str, .str => true
  | .bytes, .bytes => true
  | .decimal, .decimal => true
  | .formatted a, .formatted b => a == b
  | .list a, .list b => same a b
  | .set a, .set b => same a b
  | .tuple as v, .tuple bs w => v == w && sameTypes as bs
  | .dict k v, .dict k' v' => same k k' && same v v'
  | .optional a, .optional b => same a b
  | .union as, .union bs => sameTypes as bs
  | .literal as, .literal bs => Json.sameItems as bs
  | .ref a, .ref b => a == b
  | .unresolved a, .unresolved b => a == b
  | _, _ => false

def sameTypes : List FieldType → List FieldType → Bool
  | [], [] => true
  | a :: as, b :: bs => same a b && sameTypes as bs
  | _, _ => false

end

/-- Whether an equal type is in the list. -/
def among (ty : FieldType) (types : List FieldType) : Bool := types.any (same · ty)

/-! ## Unions -/

mutual

/-- Appends the alternatives of a type that are not there yet. -/
def addAlternatives (acc : List FieldType) : FieldType → List FieldType
  | .union members => addAll acc members
  | ty => if ty.among acc then acc else acc ++ [ty]

def addAll (acc : List FieldType) : List FieldType → List FieldType
  | [] => acc
  | ty :: rest => addAll (addAlternatives acc ty) rest

end

def isNull : FieldType → Bool
  | .null => true
  | _ => false

def isOptional : FieldType → Bool
  | .optional _ => true
  | _ => false

/-- Whether the type says that `null` is allowed. -/
def allowsNull (ty : FieldType) : Bool := ty.isNull || ty.isOptional

/-- The alternatives of the members other than `null`, in order of first occurrence. -/
def alternatives (members : List FieldType) : List FieldType :=
  members.foldl
    (fun acc ty =>
      match ty with
      | .null => acc
      | .optional inner => addAlternatives acc inner
      | ty => addAlternatives acc ty)
    []

def unionOf (members : List FieldType) : FieldType :=
  let wrap := fun (ty : FieldType) => if members.any allowsNull then .optional ty else ty
  match alternatives members with
  | [] => .null
  | [ty] => wrap ty
  | types => wrap (.union types)

/-- The type or `null`. -/
def orNull (ty : FieldType) : FieldType := unionOf [ty, .null]

/-! ## References -/

mutual

def refs : FieldType → List DefinitionId
  | .ref id => [id]
  | .list item => refs item
  | .set item => refs item
  | .optional inner => refs inner
  | .tuple items _ => refsAll items
  | .union members => refsAll members
  | .dict key value => refs key ++ refs value
  | _ => []

def refsAll : List FieldType → List DefinitionId
  | [] => []
  | ty :: rest => refs ty ++ refsAll rest

end

end FieldType

end WireTypes
