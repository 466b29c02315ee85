import WireTypes.Proofs.Json.Members
import WireTypes.Proofs.Json.Value
import WireTypes.Schema.Document

/-!
# Validity — what the keywords of a schema say about a value

`Valid d defs schema v` says that `v` validates against `schema`, where references are looked up by name
in `defs`. The relation is the least one that the keywords allow; keywords that are not listed in
`Keyword` are annotations.

- `Keyword.AppliesIn` says which keywords count: in draft 07 those beside a reference do not, and there is
  no `prefixItems`;
- `Holds` gives the meaning of each keyword;
- `valid_obj_iff` reads a schema keyword by keyword.
-/

namespace WireTypes
namespace Schema

inductive Keyword
  | type
  | enum
  | properties
  | required
  | additionalProperties
  | items
  | prefixItems
  | minItems
  | maxItems
  | uniqueItems
  | anyOf
  | allOf
  | ref
  deriving DecidableEq, Repr

namespace Keyword

/-- The keyword of a member of a schema; other members are annotations. -/
def ofName? : String → Option Keyword
  | "type" => some .type
  | "enum" => some .enum
  | "properties" => some .properties
  | "required" => some .required
  | "additionalProperties" => some .additionalProperties
  | "items" => some .items
  | "prefixItems" => some .prefixItems
  | "minItems" => some .minItems
  | "maxItems" => some .maxItems
  | "uniqueItems" => some .uniqueItems
  | "anyOf" => some .anyOf
  | "allOf" => some .allOf
  | "$ref" => some .ref
  | _ => none

/-- Whether a keyword of a schema counts. -/
def AppliesIn (d : Draft) (schema : List (String × Json)) (k : Keyword) : Prop :=
  match d with
  | .draft2020 => True
  | .draft07 => k ≠ .prefixItems ∧ (k = .ref ∨ Json.lookup "$ref" schema = none)

end Keyword

/-- Whether a schema declares a property of that name. -/
def Declares (schema : List (String × Json)) (key : String) : Prop :=
  ∃ props, Json.lookup "properties" schema = some (.obj props) ∧ (Json.lookup key props).isSome

/-- The number of items that `prefixItems` speaks of. -/
def prefixLength (d : Draft) (schema : List (String × Json)) : Nat :=
  match d, Json.lookup "prefixItems" schema with
  | .draft2020, some (.arr schemas) => schemas.length
  | _, _ => 0

theorem Draft.reference_injective {d : Draft} {a b : String}
    (h : d.reference a = d.reference b) : a = b := by
  have hlist := congrArg String.toList h
  simp only [Draft.reference, String.toList_append] at hlist
  exact String.ext (List.append_cancel_left hlist)

/-! ## Validation -/

mutual

inductive Valid (d : Draft) (defs : List (String × Json)) : Json → Json → Prop
  | anything {v : Json} : Valid d defs (.bool true) v
  | object {schema : List (String × Json)} {v : Json} :
      (∀ (k : Keyword) (m : String × Json), m ∈ schema → Keyword.ofName? m.1 = some k →
        k.AppliesIn d schema → Holds d defs schema k m.2 v) →
      Valid d defs (.obj schema) v

/-- The meaning of a keyword with its argument, in a schema. -/
inductive Holds (d : Draft) (defs : List (String × Json)) :
    List (String × Json) → Keyword → Json → Json → Prop
  | type {schema : List (String × Json)} {v : Json} {kind : Json.Kind} {word : String} :
      kind.word = word → Json.HasKind kind v → Holds d defs schema .type (.str word) v
  | enum {schema : List (String × Json)} {v w : Json} {values : List Json} :
      w ∈ values → Json.equal w v → Holds d defs schema .enum (.arr values) v
  | properties {schema props : List (String × Json)} {v : Json} :
      (∀ key inner w, Json.lookup key props = some inner → v.get? key = some w →
        Valid d defs inner w) →
      Holds d defs schema .properties (.obj props) v
  | required {schema : List (String × Json)} {names : List Json} {v : Json} :
      (∀ members name, v = .obj members → .str name ∈ names → (v.get? name).isSome) →
      Holds d defs schema .required (.arr names) v
  | additionalProperties {schema : List (String × Json)} {inner v : Json} :
      (∀ key w, v.get? key = some w → ¬ Declares schema key → Valid d defs inner w) →
      Holds d defs schema .additionalProperties inner v
  /-- One schema for the items after those of `prefixItems`. -/
  | items {schema : List (String × Json)} {inner v : Json} :
      (∀ schemas, inner ≠ .arr schemas) →
      (∀ values i w, v = .arr values → prefixLength d schema ≤ i → values[i]? = some w →
        Valid d defs inner w) →
      Holds d defs schema .items inner v
  /-- A schema for each of the first items, in the older draft. -/
  | itemsInOrder {schema : List (String × Json)} {schemas : List Json} {v : Json} :
      d = .draft07 →
      (∀ values (i : Nat) inner w, v = .arr values → schemas[i]? = some inner →
        values[i]? = some w → Valid d defs inner w) →
      Holds d defs schema .items (.arr schemas) v
  /-- A schema for each of the first items. -/
  | prefixItems {schema : List (String × Json)} {schemas : List Json} {v : Json} :
      (∀ values (i : Nat) inner w, v = .arr values → schemas[i]? = some inner →
        values[i]? = some w → Valid d defs inner w) →
      Holds d defs schema .prefixItems (.arr schemas) v
  | minItems {schema : List (String × Json)} {v : Json} {n : Int} :
      (∀ values, v = .arr values → n ≤ values.length) →
      Holds d defs schema .minItems (.num (.int n)) v
  | maxItems {schema : List (String × Json)} {v : Json} {n : Int} :
      (∀ values, v = .arr values → values.length ≤ n) →
      Holds d defs schema .maxItems (.num (.int n)) v
  | uniqueItems {schema : List (String × Json)} {v : Json} {wanted : Bool} :
      (∀ values, wanted = true → v = .arr values → Json.Distinct values) →
      Holds d defs schema .uniqueItems (.bool wanted) v
  | anyOf {schema : List (String × Json)} {schemas : List Json} {inner v : Json} :
      inner ∈ schemas → Valid d defs inner v → Holds d defs schema .anyOf (.arr schemas) v
  | allOf {schema : List (String × Json)} {schemas : List Json} {v : Json} :
      (∀ inner ∈ schemas, Valid d defs inner v) → Holds d defs schema .allOf (.arr schemas) v
  | ref {schema : List (String × Json)} {name target : String} {inner v : Json} :
      d.reference name = target → Json.lookup name defs = some inner → Valid d defs inner v →
      Holds d defs schema .ref (.str target) v

end

/-! ## Keyword by keyword -/

section

variable {d : Draft} {defs schema : List (String × Json)} {v : Json}

/-- What a member of a schema demands, if it is a keyword. -/
def Demands (d : Draft) (defs schema : List (String × Json)) (m : String × Json) (v : Json) : Prop :=
  ∀ k, Keyword.ofName? m.1 = some k → k.AppliesIn d schema → Holds d defs schema k m.2 v

theorem valid_obj_iff : Valid d defs (.obj schema) v ↔ ∀ m ∈ schema, Demands d defs schema m v := by
  constructor
  · intro h m hm k hk happlies
    cases h with
    | object hall => exact hall k m hm hk happlies
  · intro h
    exact .object fun k m hm hk happlies => h m hm k hk happlies

theorem not_valid_false : ¬ Valid d defs (.bool false) v := by
  intro h
  cases h

theorem demands_annotation {key : String} {arg : Json} (h : Keyword.ofName? key = none) :
    Demands d defs schema (key, arg) v := by
  intro k hk
  rw [h] at hk
  cases hk

theorem demands_keyword {key : String} {arg : Json} {k : Keyword} (hk : Keyword.ofName? key = some k)
    (happlies : k.AppliesIn d schema) :
    Demands d defs schema (key, arg) v ↔ Holds d defs schema k arg v := by
  constructor
  · intro h
    exact h k hk happlies
  · intro h k' hk' _
    rw [hk] at hk'
    cases hk'
    exact h

theorem holds_type_iff {kind : Json.Kind} :
    Holds d defs schema .type (.str kind.word) v ↔ Json.HasKind kind v := by
  constructor
  · intro h
    cases h with
    | type hword hkind =>
        rw [← Json.Kind.word_injective hword]
        exact hkind
  · exact Holds.type rfl

theorem holds_enum_iff {values : List Json} :
    Holds d defs schema .enum (.arr values) v ↔ ∃ w ∈ values, Json.equal w v := by
  constructor
  · intro h
    cases h with
    | enum hmem heq => exact ⟨_, hmem, heq⟩
  · rintro ⟨w, hmem, heq⟩
    exact .enum hmem heq

theorem holds_anyOf_iff {schemas : List Json} :
    Holds d defs schema .anyOf (.arr schemas) v ↔ ∃ inner ∈ schemas, Valid d defs inner v := by
  constructor
  · intro h
    cases h with
    | anyOf hmem hvalid => exact ⟨_, hmem, hvalid⟩
  · rintro ⟨inner, hmem, hvalid⟩
    exact .anyOf hmem hvalid

theorem holds_allOf_iff {schemas : List Json} :
    Holds d defs schema .allOf (.arr schemas) v ↔ ∀ inner ∈ schemas, Valid d defs inner v := by
  constructor
  · intro h
    cases h with
    | allOf hall => exact hall
  · exact .allOf

theorem holds_ref_iff {name : String} :
    Holds d defs schema .ref (.str (d.reference name)) v ↔
      ∃ inner, Json.lookup name defs = some inner ∧ Valid d defs inner v := by
  constructor
  · intro h
    cases h with
    | ref hname hlookup hvalid =>
        rw [← Draft.reference_injective hname]
        exact ⟨_, hlookup, hvalid⟩
  · rintro ⟨inner, hlookup, hvalid⟩
    exact .ref rfl hlookup hvalid

end

end Schema
end WireTypes
