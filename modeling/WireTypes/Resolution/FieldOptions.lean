import WireTypes.Definition.Model
import WireTypes.Python.Expr

/-!
# Field options — what the right side of a field says

A field has a constant default, a default that is not constant, or a call of `Field` whose arguments give
the default, the name on the wire, texts and constraints.
-/

namespace WireTypes

/-! ## Numbers as options -/

/-- A number as it stands. -/
def Json.asNumber? : Json → Option Json
  | .num n => some (.num n)
  | _ => none

/-- A whole number that is not negative. -/
def Json.asNatural? : Json → Option Nat
  | .num (.int n) => if 0 ≤ n then some n.toNat else none
  | _ => none

namespace Resolution

open Python

/-- A constant is kept, and anything else is made when a value is. -/
def staticDefault (e : Expr) : FieldDefault :=
  match e.toJson? with
  | some value => .literal value
  | none => .dynamic

/-- The policy that an expression names, as text or by the last segment of a name. -/
def extraPolicy? (e : Expr) : Option ExtraFields :=
  (e.asString? <|> e.lastSegment?).bind ExtraFields.parse?

def isEllipsis : Expr → Bool
  | .ellipsis => true
  | _ => false

namespace FieldOptions

/-- The arguments of a call of `Field`. -/
def ofValue? : Expr → Option (List Expr × List (String × Expr))
  | .call function args named =>
      if Expr.lastSegmentOf function = "Field" then some (args, named) else none
  | _ => none

/-- The default is the first argument or the one of that name. -/
def defaultArgument? (args : List Expr) (named : List (String × Expr)) : Option Expr :=
  args.head? <|> Expr.named? "default" named

def default (args : List Expr) (named : List (String × Expr)) : FieldDefault :=
  match defaultArgument? args named with
  | some .ellipsis => .required
  | some value => staticDefault value
  | none => if (Expr.named? "default_factory" named).isSome then .factory else .required

def text? (named : List (String × Expr)) (key : String) : Option String :=
  (Expr.named? key named).bind Expr.asString?

def constant? (named : List (String × Expr)) (key : String) : Option Json :=
  (Expr.named? key named).bind Expr.toJson?

def number? (named : List (String × Expr)) (key : String) : Option Json :=
  (constant? named key).bind Json.asNumber?

/-- The first of two names that has a constant decides. -/
def length? (named : List (String × Expr)) (key other : String) : Option Nat :=
  (constant? named key <|> constant? named other).bind Json.asNatural?

def constraints (named : List (String × Expr)) : Constraints :=
  { minimum := number? named "ge"
    exclusiveMinimum := number? named "gt"
    maximum := number? named "le"
    exclusiveMaximum := number? named "lt"
    minLength := length? named "min_length" "min_items"
    maxLength := length? named "max_length" "max_items"
    pattern := text? named "pattern" <|> text? named "regex" }

end FieldOptions

open FieldOptions in
/-- A field of a type with what its right side says. -/
def fieldOf (name : String) (type : FieldType) (value : Option Expr) : Field :=
  match value with
  | none => .required name type
  | some .ellipsis => .required name type
  | some e =>
      match ofValue? e with
      | some (args, named) =>
          { name
            alias? := text? named "serialization_alias" <|> text? named "alias"
            type
            default := FieldOptions.default args named
            description := text? named "description"
            title := text? named "title"
            constraints := constraints named
            computed := false }
      | none => { Field.required name type with default := staticDefault e }

/-- Whether the right side says that the field has no default. -/
def isMarkedRequired (value : Option Expr) : Bool :=
  match value with
  | some .ellipsis => true
  | some e =>
      match FieldOptions.ofValue? e with
      | some (args, named) => (FieldOptions.defaultArgument? args named).any isEllipsis
      | none => false
  | none => false

end Resolution
end WireTypes
