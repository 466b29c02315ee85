import WireTypes.Proofs.Json.Value
import WireTypes.Schema.Synthesis

/-!
# Instances — the JSON values that a model describes

The values of field types and models, read off the catalog without any schema:

- `Inhabits c o ty v`: the value `v` is of type `ty`;
- `Carries c o f v`: the property of a field may have the value `v`;
- `Instance c o m v`: the value `v` is an object that the model `m` describes.

A type refers to models and enumerations by identity, so that instances of recursive models are
described by the least relation with these rules. Object keys are strings; what the key type of a
dictionary says about them is not read.
-/

namespace WireTypes

/-! ## Scalars -/

namespace FieldType

/-- The kind of JSON value that a scalar type stands for. -/
def scalarKind? : FieldType → Option Json.Kind
  | .null => some .null
  | .bool => some .boolean
  | .int => some .integer
  | .float => some .number
  | .str => some .string
  | .bytes => some .string
  | .decimal => some .string
  | .formatted _ => some .string
  | _ => none

/-- The format of the texts that a scalar type stands for. -/
def format? : FieldType → Option String
  | .bytes => some "binary"
  | .formatted format => some format.keyword
  | _ => none

theorem scalarKind?_of_format? {ty : FieldType} {format : String} (h : ty.format? = some format) :
    ty.scalarKind? = some .string := by
  cases ty <;> first | rfl | cases h

end FieldType

namespace Catalog

/-- Equal identities mean equal definitions, and no model has the identity of an enumeration. -/
structure UniqueIds (c : Catalog) : Prop where
  models : ∀ a ∈ c.allModels, ∀ b ∈ c.allModels, a.id = b.id → a = b
  enums : ∀ a ∈ c.enums, ∀ b ∈ c.enums, a.id = b.id → a = b
  apart : ∀ m ∈ c.allModels, ∀ e ∈ c.enums, m.id ≠ e.id

/-- The catalog with further models in scope. -/
def withModels (c : Catalog) (models : List Model) : Catalog :=
  { c with models := models ++ c.models }

theorem mem_allModels_withModels {c : Catalog} {models : List Model} {m : Model} :
    m ∈ (c.withModels models).allModels ↔ m ∈ models ∨ m ∈ c.allModels := by
  simp [withModels, allModels]

end Catalog

namespace Schema

open Synthesis (propertyName)

/-! ## Requirements of a model -/

/-- Computed fields are always there, and others unless they have a default or may be left out. -/
def MustBePresent (o : Options) (f : Field) : Prop :=
  f.computed = true ∨
    (f.default.isRequired = true ∧ ¬ (o.nullable = .optional ∧ f.type.isOptional = true))

/-- Whether an instance of the model has no properties but the declared ones. -/
def IsClosed (o : Options) (m : Model) : Prop :=
  m.extra = some .forbid ∨ (m.extra ≠ some .allow ∧ o.forbidUnlessAllowed = true)

/-! ## Values of types and models -/

mutual

inductive Inhabits (c : Catalog) (o : Options) : FieldType → Json → Prop
  | any {v : Json} : Inhabits c o .any v
  | scalar {ty : FieldType} {kind : Json.Kind} {v : Json} :
      ty.scalarKind? = some kind → Json.HasKind kind v → Inhabits c o ty v
  | list {item : FieldType} {values : List Json} :
      (∀ v ∈ values, Inhabits c o item v) → Inhabits c o (.list item) (.arr values)
  | set {item : FieldType} {values : List Json} :
      (∀ v ∈ values, Inhabits c o item v) → Json.Distinct values →
      Inhabits c o (.set item) (.arr values)
  | tuple {items : List FieldType} {values : List Json} :
      values.length = items.length →
      (∀ (i : Nat) item v, items[i]? = some item → values[i]? = some v → Inhabits c o item v) →
      Inhabits c o (.tuple items false) (.arr values)
  /-- Any number of the first item; without one, anything. -/
  | variadic {items : List FieldType} {values : List Json} :
      (∀ item, items.head? = some item → ∀ v ∈ values, Inhabits c o item v) →
      Inhabits c o (.tuple items true) (.arr values)
  | dict {key value : FieldType} {members : List (String × Json)} :
      (∀ k v, Json.lookup k members = some v → Inhabits c o value v) →
      Inhabits c o (.dict key value) (.obj members)
  | absent {inner : FieldType} : Inhabits c o (.optional inner) .null
  | optional {inner : FieldType} {v : Json} :
      Inhabits c o inner v → Inhabits c o (.optional inner) v
  | union {members : List FieldType} {ty : FieldType} {v : Json} :
      ty ∈ members → Inhabits c o ty v → Inhabits c o (.union members) v
  | literal {values : List Json} {v w : Json} :
      w ∈ values → Json.equal w v → Inhabits c o (.literal values) v
  | enum {e : Enumeration} {v w : Json} :
      e ∈ c.enums → w ∈ e.values → Json.equal w v → Inhabits c o (.ref e.id) v
  | model {m : Model} {v : Json} :
      m ∈ c.allModels → Instance c o m v → Inhabits c o (.ref m.id) v

/-- A field of optional type may be `null` only where optional fields are unions. -/
inductive Carries (c : Catalog) (o : Options) : Field → Json → Prop
  | plain {f : Field} {v : Json} :
      f.type.isOptional = false → Inhabits c o f.type v → Carries c o f v
  | null {f : Field} {inner : FieldType} :
      f.type = .optional inner → o.nullable = .union → Carries c o f .null
  | optional {f : Field} {inner : FieldType} {v : Json} :
      f.type = .optional inner → Inhabits c o inner v → Carries c o f v

inductive Instance (c : Catalog) (o : Options) : Model → Json → Prop
  | object {m : Model} {members : List (String × Json)} :
      (∀ f ∈ m.fields, MustBePresent o f → (Json.lookup (propertyName o f) members).isSome) →
      (∀ f ∈ m.fields, ∀ v, Json.lookup (propertyName o f) members = some v → Carries c o f v) →
      (IsClosed o m → ∀ key v, Json.lookup key members = some v →
        ∃ f ∈ m.fields, propertyName o f = key) →
      Instance c o m (.obj members)

end

/-! ## The values of each type -/

section

variable {c : Catalog} {o : Options} {v : Json}

theorem inhabits_scalar_iff {ty : FieldType} {kind : Json.Kind} (hty : ty.scalarKind? = some kind) :
    Inhabits c o ty v ↔ Json.HasKind kind v := by
  constructor
  · intro h
    cases h with
    | scalar hty' hkind =>
        rw [hty] at hty'
        cases hty'
        exact hkind
    | _ => cases hty
  · exact .scalar hty

theorem inhabits_list_iff {item : FieldType} :
    Inhabits c o (.list item) v ↔ ∃ values, v = .arr values ∧ ∀ w ∈ values, Inhabits c o item w := by
  constructor
  · intro h
    cases h with
    | list hall => exact ⟨_, rfl, hall⟩
    | scalar hty _ => cases hty
  · rintro ⟨values, rfl, hall⟩
    exact .list hall

theorem inhabits_set_iff {item : FieldType} :
    Inhabits c o (.set item) v ↔
      ∃ values, v = .arr values ∧ (∀ w ∈ values, Inhabits c o item w) ∧ Json.Distinct values := by
  constructor
  · intro h
    cases h with
    | set hall hdistinct => exact ⟨_, rfl, hall, hdistinct⟩
    | scalar hty _ => cases hty
  · rintro ⟨values, rfl, hall, hdistinct⟩
    exact .set hall hdistinct

theorem inhabits_tuple_iff {items : List FieldType} :
    Inhabits c o (.tuple items false) v ↔
      ∃ values, v = .arr values ∧ values.length = items.length ∧
        ∀ (i : Nat) item w, items[i]? = some item → values[i]? = some w → Inhabits c o item w := by
  constructor
  · intro h
    cases h with
    | tuple hlength hall => exact ⟨_, rfl, hlength, hall⟩
    | scalar hty _ => cases hty
  · rintro ⟨values, rfl, hlength, hall⟩
    exact .tuple hlength hall

theorem inhabits_variadic_iff {items : List FieldType} :
    Inhabits c o (.tuple items true) v ↔
      ∃ values, v = .arr values ∧
        ∀ w ∈ values, ∀ item, items.head? = some item → Inhabits c o item w := by
  constructor
  · intro h
    cases h with
    | variadic hall => exact ⟨_, rfl, fun w hw item hitem => hall item hitem w hw⟩
    | scalar hty _ => cases hty
  · rintro ⟨values, rfl, hall⟩
    exact .variadic fun item hitem w hw => hall w hw item hitem

theorem inhabits_dict_iff {key value : FieldType} :
    Inhabits c o (.dict key value) v ↔
      ∃ members, v = .obj members ∧ ∀ k w, Json.lookup k members = some w → Inhabits c o value w := by
  constructor
  · intro h
    cases h with
    | dict hall => exact ⟨_, rfl, hall⟩
    | scalar hty _ => cases hty
  · rintro ⟨members, rfl, hall⟩
    exact .dict hall

theorem inhabits_optional_iff {inner : FieldType} :
    Inhabits c o (.optional inner) v ↔ Inhabits c o inner v ∨ v = .null := by
  constructor
  · intro h
    cases h with
    | absent => exact Or.inr rfl
    | optional hinner => exact Or.inl hinner
    | scalar hty _ => cases hty
  · rintro (hinner | rfl)
    · exact .optional hinner
    · exact .absent

theorem inhabits_union_iff {members : List FieldType} :
    Inhabits c o (.union members) v ↔ ∃ ty ∈ members, Inhabits c o ty v := by
  constructor
  · intro h
    cases h with
    | union hmem hty => exact ⟨_, hmem, hty⟩
    | scalar hty _ => cases hty
  · rintro ⟨ty, hmem, hty⟩
    exact .union hmem hty

theorem inhabits_literal_iff {values : List Json} :
    Inhabits c o (.literal values) v ↔ ∃ w ∈ values, Json.equal w v := by
  constructor
  · intro h
    cases h with
    | literal hmem heq => exact ⟨_, hmem, heq⟩
    | scalar hty _ => cases hty
  · rintro ⟨w, hmem, heq⟩
    exact .literal hmem heq

theorem inhabits_ref_iff {id : DefinitionId} :
    Inhabits c o (.ref id) v ↔
      (∃ e ∈ c.enums, e.id = id ∧ ∃ w ∈ e.values, Json.equal w v) ∨
        ∃ m ∈ c.allModels, m.id = id ∧ Instance c o m v := by
  constructor
  · intro h
    cases h with
    | enum he hw heq => exact Or.inl ⟨_, he, rfl, _, hw, heq⟩
    | model hm hinstance => exact Or.inr ⟨_, hm, rfl, hinstance⟩
    | scalar hty _ => cases hty
  · rintro (⟨e, he, rfl, w, hw, heq⟩ | ⟨m, hm, rfl, hinstance⟩)
    · exact .enum he hw heq
    · exact .model hm hinstance

/-- Where identities are unique, that of a model has the values of this model, -/
theorem inhabits_model_iff (hunique : c.UniqueIds) {m : Model} (hm : m ∈ c.allModels) :
    Inhabits c o (.ref m.id) v ↔ Instance c o m v := by
  rw [inhabits_ref_iff]
  constructor
  -- The identity could be that of an enumeration or of another model. It is neither.
  · rintro (⟨e, he, hid, _⟩ | ⟨m', hm', hid, hinstance⟩)
    · exact absurd hid.symm (hunique.apart m hm e he)
    · rw [← hunique.models m' hm' m hm hid]
      exact hinstance
  · intro h
    exact Or.inr ⟨m, hm, rfl, h⟩

/-- and that of an enumeration its values. -/
theorem inhabits_enum_iff (hunique : c.UniqueIds) {e : Enumeration} (he : e ∈ c.enums) :
    Inhabits c o (.ref e.id) v ↔ ∃ w ∈ e.values, Json.equal w v := by
  rw [inhabits_ref_iff]
  constructor
  · rintro (⟨e', he', hid, hvalue⟩ | ⟨m, hm, hid, _⟩)
    · rw [← hunique.enums e' he' e he hid]
      exact hvalue
    · exact absurd hid (hunique.apart m hm e he)
  · intro h
    exact Or.inl ⟨e, he, rfl, h⟩

end

end Schema
end WireTypes
