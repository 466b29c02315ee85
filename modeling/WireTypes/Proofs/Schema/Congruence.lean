import WireTypes.Proofs.Schema.Emission

/-!
# Congruence — a synthesis reads its catalog by identity only

What is written for a model depends on the definitions that the identities in its fields lead to, and on
nothing else of the catalog but how many models it has.

- `Alike`: contexts in which every identity leads to the same definition;
- `Agree`: ways to write a model in place that agree where they are asked;
- `properties_congr`, `objectSchema_congr`: what is written in such contexts is the same;
- `synthesize_congr`: so two catalogs that are read alike give the same document, or fail alike.
-/

namespace WireTypes
namespace Schema

open Synthesis

/-- Every identity leads to the same in both contexts. -/
structure Alike (c c' : Context) : Prop where
  options : c'.options = c.options
  retained : c'.retained = c.retained
  model? : c'.catalog.model? = c.catalog.model?
  enum? : c'.catalog.enum? = c.catalog.enum?

theorem Alike.refl (c : Context) : Alike c c := ⟨rfl, rfl, rfl, rfl⟩

/-- The two ways to write a model in place agree on the models that are not being written. -/
def Agree (c : Context) (stack : List DefinitionId) (inline inline' : Model → Build Json) : Prop :=
  ∀ id m, c.catalog.model? id = some m → id ∉ stack → inline m = inline' m

/-! ## Types -/

section

variable {catalog catalog' : Catalog}

mutual

theorem isStringKey_congr (h : catalog'.enum? = catalog.enum?) :
    ∀ ty, isStringKey catalog' ty = isStringKey catalog ty
  | .any | .null | .bool | .int | .float | .str | .decimal | .bytes | .formatted _ | .list _ | .set _
  | .tuple _ _ | .dict _ _ | .optional _ | .literal _ | .unresolved _ => by simp only [isStringKey]
  | .union members => by simp only [isStringKey, areStringKeys_congr h members]
  | .ref id => by simp only [isStringKey, h]

theorem areStringKeys_congr (h : catalog'.enum? = catalog.enum?) :
    ∀ types, areStringKeys catalog' types = areStringKeys catalog types
  | [] => by simp only [areStringKeys]
  | ty :: rest => by
      simp only [areStringKeys, isStringKey_congr h ty, areStringKeys_congr h rest]

end

end

section

variable {c c' : Context} {inline inline' : Model → Build Json} {stack : List DefinitionId} {p : Place}

theorem reference_congr (hc : Alike c c') (h : Agree c stack inline inline') (id : DefinitionId) :
    reference c inline stack p id = reference c' inline' stack p id := by
  unfold reference
  rw [hc.options, hc.retained, hc.enum?, hc.model?]
  cases c.retained.lookup id with
  | some name => rfl
  | none =>
      cases c.catalog.enum? id with
      | some e => rfl
      | none =>
          cases hmodel : c.catalog.model? id with
          | none => rfl
          | some m =>
              by_cases hstack : id ∈ stack
              · simp only [List.contains_iff_mem, hstack, if_true]
              · simp only [List.contains_iff_mem, hstack, h id m hmodel hstack]

mutual

theorem typeSchema_congr (hc : Alike c c') (h : Agree c stack inline inline') :
    ∀ ty, typeSchema c inline stack p ty = typeSchema c' inline' stack p ty
  | .any | .null | .bool | .int | .float | .str | .decimal | .bytes | .formatted _
  | .tuple [] true | .literal _ | .unresolved _ => by simp only [typeSchema]
  | .list item | .set item | .tuple (item :: _) true | .optional item => by
      simp only [typeSchema, typeSchema_congr hc h item]
  | .tuple items false => by simp only [typeSchema, typeSchemas_congr hc h items, hc.options]
  | .union members => by simp only [typeSchema, typeSchemas_congr hc h members]
  | .dict key value => by
      have hkey := isStringKey_congr hc.enum? key
      have hvalue := typeSchema_congr hc h value
      unfold typeSchema
      cases value with
      | any => simp only [hkey]
      | _ => simp only [hkey, hvalue]
  | .ref id => by simp only [typeSchema, reference_congr hc h id]

theorem typeSchemas_congr (hc : Alike c c') (h : Agree c stack inline inline') :
    ∀ types, typeSchemas c inline stack p types = typeSchemas c' inline' stack p types
  | [] => by simp only [typeSchemas]
  | ty :: rest => by
      simp only [typeSchemas, typeSchema_congr hc h ty, typeSchemas_congr hc h rest]

end

/-! ## Fields and models -/

theorem fieldSchema_congr (hc : Alike c c') (h : Agree c stack inline inline') (model : String)
    (f : Field) : fieldSchema c inline stack model f = fieldSchema c' inline' stack model f := by
  simp only [fieldSchema, typeSchema_congr hc h, hc.options]

theorem properties_congr (hc : Alike c c') (h : Agree c stack inline inline') (model : String) :
    ∀ fields, properties c inline stack model fields = properties c' inline' stack model fields
  | [] => rfl
  | f :: rest => by
      simp only [properties, fieldSchema_congr hc h model f, properties_congr hc h model rest,
        hc.options]

/-- A model is written alike at any depth, since the models inside it are. -/
theorem objectSchema_congr (hc : Alike c c') (depth : Nat) : ∀ titled stack m,
    objectSchema c titled stack m depth = objectSchema c' titled stack m depth := by
  induction depth with
  | zero => exact fun _ _ _ => rfl
  | succ depth ih =>
      intro titled stack m
      have hagree : Agree c stack (fun inner => objectSchema c false (inner.id :: stack) inner depth)
          fun inner => objectSchema c' false (inner.id :: stack) inner depth :=
        fun _ inner _ _ => ih false (inner.id :: stack) inner
      simp only [objectSchema, properties_congr hc hagree m.name m.fields, hc.options]

theorem modelSchemas_congr (hc : Alike c c')
    (hlength : c'.catalog.allModels.length = c.catalog.allModels.length) :
    ∀ models, modelSchemas c models = modelSchemas c' models
  | [] => rfl
  | m :: rest => by
      simp only [modelSchemas, modelSchema, objectSchema_congr hc, hlength,
        modelSchemas_congr hc hlength rest]

end

/-! ## Documents -/

/-- Catalogs of the same size in which every identity leads to the same have the same documents. -/
theorem synthesize_congr {catalog catalog' : Catalog} (hmodel : catalog'.model? = catalog.model?)
    (henum : catalog'.enum? = catalog.enum?)
    (hlength : catalog'.allModels.length = catalog.allModels.length) (models : List Model)
    (o : Options) : synthesize models catalog' o = synthesize models catalog o := by
  have hc : Alike (contextOf models catalog o) (contextOf models catalog' o) :=
    ⟨rfl, rfl, hmodel, henum⟩
  have hschemas := modelSchemas_congr hc hlength models
  simp only [synthesize_eq, writingOf, hschemas]

end Schema
end WireTypes
