import WireTypes.Proofs.Definition.References
import WireTypes.Proofs.Resolution.CatalogClosure
import WireTypes.Proofs.Schema.Written

/-!
# Refusals — how a synthesis fails

- `FailsWith x P`: the reason of every failure of `x` satisfies `P`;
- `synthesize_resolves`: where the fields of all models refer to definitions of the catalog, no synthesis
  from its models fails with an unknown definition;
- `catalog_closed`: the catalog of a program defines whatever it refers to, each once.
-/

namespace WireTypes
namespace Schema
namespace Synthesis

/-! ## Failing runs -/

def FailsWith {α : Type} (x : Build α) (P : Failure → Prop) : Prop :=
  ∀ s e, x.run s = .error e → P e.failure

namespace FailsWith

variable {α β : Type} {P : Failure → Prop}

theorem pure (a : α) : FailsWith (Pure.pure a : Build α) P := by
  intro s e hrun
  cases hrun

theorem throw {e : SynthesisError} (h : P e.failure) :
    FailsWith (MonadExcept.throw e : Build α) P := by
  intro s e' hrun
  cases hrun
  exact h

theorem bind {x : Build α} {f : α → Build β} (hx : FailsWith x P) (hf : ∀ a, FailsWith (f a) P) :
    FailsWith (x >>= f) P := by
  intro s e hrun
  rw [StateT.run_bind] at hrun
  cases hfirst : x.run s with
  | error e' =>
      rw [hfirst] at hrun
      cases hrun
      exact hx s e hfirst
  | ok r =>
      rw [hfirst] at hrun
      exact hf r.1 r.2 e hrun

end FailsWith

/-! ## Unknown definitions -/

/-- The reason is not that a definition is unknown. -/
def IsResolved (f : Failure) : Prop := ∀ id, f ≠ .unknownDefinition id

section

variable {c : Context} {inline : Model → Build Json} {stack : List DefinitionId} {p : Place}

theorem model?_mem {catalog : Catalog} {id : DefinitionId} {m : Model}
    (h : catalog.model? id = some m) : m ∈ catalog.allModels := List.mem_of_find?_eq_some h

/-- An identity of a catalog is found among its enumerations or its models. -/
theorem exists_of_mem_ids {catalog : Catalog} {id : DefinitionId} (h : id ∈ catalog.ids) :
    (catalog.enum? id).isSome ∨ (catalog.model? id).isSome := by
  rcases List.mem_append.1 h with hmodel | henum
  · rcases List.mem_map.1 hmodel with ⟨m, hm, hid⟩
    exact Or.inr (List.find?_isSome.2 ⟨m, hm, by simp [hid]⟩)
  · rcases List.mem_map.1 henum with ⟨e, he, hid⟩
    exact Or.inl (List.find?_isSome.2 ⟨e, he, by simp [hid]⟩)

theorem claim_resolves (name : String) (id : DefinitionId) (model : String) (field : Option String) :
    FailsWith (claim name id model field) IsResolved := by
  intro s e hrun
  rw [claim_run] at hrun
  cases hown : s.owners.lookup name with
  | none => simp [hown] at hrun
  | some owner =>
      by_cases hid : owner = id
      · simp [hown, hid] at hrun
      · simp only [hown, hid, if_false] at hrun
        cases hrun
        intro id' hfailure
        cases hfailure

theorem reference_resolves (hinline : ∀ m ∈ c.catalog.allModels, FailsWith (inline m) IsResolved)
    {id : DefinitionId} (hid : id ∈ c.catalog.ids) :
    FailsWith (reference c inline stack p id) IsResolved := by
  unfold reference
  cases c.retained.lookup id with
  | some name => exact .pure _
  | none =>
      cases henum : c.catalog.enum? id with
      | some e =>
          refine (claim_resolves _ _ _ _).bind fun _ => FailsWith.bind ?_ fun _ => .pure _
          intro s e hrun
          cases hrun
      | none =>
          cases hmodel : c.catalog.model? id with
          | none =>
              -- The identity would be that of no definition.
              have hfound := exists_of_mem_ids hid
              simp [henum, hmodel] at hfound
          | some m =>
              by_cases hstack : stack.contains id
              · simp only [hstack, if_true]
                exact .throw fun _ h => by cases h
              · simp only [hstack]
                exact hinline m (model?_mem hmodel)

mutual

theorem typeSchema_resolves
    (hinline : ∀ m ∈ c.catalog.allModels, FailsWith (inline m) IsResolved) :
    ∀ ty : FieldType, ty.RefsIn (· ∈ c.catalog.ids) →
      FailsWith (typeSchema c inline stack p ty) IsResolved
  | .any, _ => .pure _
  | .null, _ => .pure _
  | .bool, _ => .pure _
  | .int, _ => .pure _
  | .float, _ => .pure _
  | .str, _ => .pure _
  | .decimal, _ => .pure _
  | .bytes, _ => .pure _
  | .formatted _, _ => .pure _
  | .list item, h => (typeSchema_resolves hinline item h).bind fun _ => .pure _
  | .set item, h => (typeSchema_resolves hinline item h).bind fun _ => .pure _
  | .tuple [] true, _ => .pure _
  | .tuple (item :: _) true, h =>
      (typeSchema_resolves hinline item fun id hid => h id (List.mem_append_left _ hid)).bind
        fun _ => .pure _
  | .tuple items false, h => by
      rw [typeSchema]
      exact (typeSchemas_resolves hinline items h).bind fun _ => .pure _
  | .dict key value, h => by
      have hvalue : value.RefsIn (· ∈ c.catalog.ids) :=
        fun id hid => h id (List.mem_append_right _ hid)
      unfold typeSchema
      by_cases hkey : isStringKey c.catalog key = true
      · simp only [hkey, if_true]
        cases value with
        | any => exact .pure _
        | _ => exact (typeSchema_resolves hinline _ hvalue).bind fun _ => .pure _
      · simp only [hkey]
        exact .throw fun _ hfailure => by cases hfailure
  | .optional inner, h => (typeSchema_resolves hinline inner h).bind fun _ => .pure _
  | .union members, h => (typeSchemas_resolves hinline members h).bind fun _ => .pure _
  | .literal _, _ => .pure _
  | .ref id, h => reference_resolves hinline (h id List.mem_cons_self)
  | .unresolved _, _ => .throw fun _ hfailure => by cases hfailure

theorem typeSchemas_resolves
    (hinline : ∀ m ∈ c.catalog.allModels, FailsWith (inline m) IsResolved) :
    ∀ types : List FieldType, (∀ id ∈ FieldType.refsAll types, id ∈ c.catalog.ids) →
      FailsWith (typeSchemas c inline stack p types) IsResolved
  | [], _ => .pure _
  | ty :: rest, h =>
      (typeSchema_resolves hinline ty fun id hid => h id (List.mem_append_left _ hid)).bind fun _ =>
        (typeSchemas_resolves hinline rest fun id hid => h id (List.mem_append_right _ hid)).bind
          fun _ => .pure _

end

theorem fieldSchema_resolves
    (hinline : ∀ m ∈ c.catalog.allModels, FailsWith (inline m) IsResolved) (model : String)
    {f : Field} (h : f.type.RefsIn (· ∈ c.catalog.ids)) :
    FailsWith (fieldSchema c inline stack model f) IsResolved := by
  unfold fieldSchema
  split
  · next inner hty =>
      have hinner : inner.RefsIn (· ∈ c.catalog.ids) := by
        rw [hty] at h
        exact h
      exact (typeSchema_resolves hinline inner hinner).bind fun _ => .pure _
  · exact (typeSchema_resolves hinline f.type h).bind fun _ => .pure _

theorem properties_resolves
    (hinline : ∀ m ∈ c.catalog.allModels, FailsWith (inline m) IsResolved) (model : String) :
    ∀ fields : List Field, (∀ f ∈ fields, f.type.RefsIn (· ∈ c.catalog.ids)) →
      FailsWith (properties c inline stack model fields) IsResolved
  | [], _ => .pure _
  | f :: rest, h =>
      (fieldSchema_resolves hinline model (h f List.mem_cons_self)).bind fun _ =>
        (properties_resolves hinline model rest fun g hg => h g (List.mem_cons_of_mem _ hg)).bind
          fun _ => .pure _

end

variable {c : Context}

/-- Models written inside each other refer to definitions of the catalog. -/
theorem objectSchema_resolves
    (hclosed : ∀ m ∈ c.catalog.allModels, ∀ f ∈ m.fields, f.type.RefsIn (· ∈ c.catalog.ids))
    (depth : Nat) : ∀ (titled : Bool) (stack : List DefinitionId) (m : Model),
      m ∈ c.catalog.allModels → FailsWith (objectSchema c titled stack m depth) IsResolved := by
  -- The schemas of inlined models are written one level deeper.
  induction depth with
  | zero =>
      intro titled stack m _
      exact .throw fun _ hfailure => by cases hfailure
  | succ depth ih =>
      intro titled stack m hm
      refine FailsWith.bind (properties_resolves ?_ m.name m.fields (hclosed m hm)) fun _ => .pure _
      intro inner hinner
      exact ih false (inner.id :: stack) inner hinner

theorem claimAll_resolves : ∀ models : List Model, FailsWith (claimAll models) IsResolved
  | [] => .pure _
  | _ :: rest => (claim_resolves _ _ _ _).bind fun _ => claimAll_resolves rest

theorem modelSchemas_resolves
    (hclosed : ∀ m ∈ c.catalog.allModels, ∀ f ∈ m.fields, f.type.RefsIn (· ∈ c.catalog.ids)) :
    ∀ models : List Model, (∀ m ∈ models, m ∈ c.catalog.allModels) →
      FailsWith (modelSchemas c models) IsResolved
  | [], _ => .pure _
  | m :: rest, h =>
      (objectSchema_resolves hclosed _ true [] m (h m List.mem_cons_self)).bind fun _ =>
        (modelSchemas_resolves hclosed rest fun x hx => h x (List.mem_cons_of_mem _ hx)).bind
          fun _ => .pure _

end Synthesis

open Synthesis

/-- A catalog that defines whatever its models refer to has no unknown definitions. -/
theorem synthesize_resolves {models : List Model} {catalog : Catalog} {o : Options}
    {e : SynthesisError}
    (hclosed : ∀ m ∈ catalog.allModels, ∀ f ∈ m.fields, f.type.RefsIn (· ∈ catalog.ids))
    (hmodels : ∀ m ∈ models, m ∈ catalog.allModels)
    (h : synthesize models catalog o = .error e) (id : DefinitionId) :
    e.failure ≠ .unknownDefinition id := by
  have hfails : FailsWith (writingOf models catalog o) IsResolved :=
    (claimAll_resolves models).bind fun _ =>
      modelSchemas_resolves (c := contextOf models catalog o) hclosed models hmodels
  rw [synthesize_eq] at h
  cases hrun : (writingOf models catalog o).run ⟨[], []⟩ with
  | ok r =>
      rw [hrun] at h
      cases h
  | error e' =>
      rw [hrun] at h
      cases h
      exact hfails _ _ hrun id

end Schema

namespace Resolution

open Schema (Options SynthesisError synthesize)

/-- The catalog of a program defines every identity once and whatever its fields refer to, so that no
synthesis from it meets an unknown definition; and what is not in scope is referred to. -/
theorem Program.catalog_closed (p : Program) :
    p.classified.catalog.ids.Nodup ∧
      (∀ m ∈ p.classified.catalog.allModels, ∀ f ∈ m.fields, ∀ id ∈ f.type.refs,
        p.classified.catalog.ids.count id = 1) ∧
      (∀ (models : List Model) (o : Options) (e : SynthesisError),
        (∀ m ∈ models, m ∈ p.classified.catalog.allModels) →
        synthesize models p.classified.catalog o = .error e →
        ∀ id, e.failure ≠ .unknownDefinition id) ∧
      (∀ m ∈ p.classified.catalog.dependencies, p.classified.catalog.Reached m.id) ∧
      ∀ e ∈ p.classified.catalog.enums, e.id ∉ p.scopeIds → p.classified.catalog.Reached e.id := by
  have hdistinct := p.nodup_catalog_ids
  rcases p.catalog_collected with ⟨s, hs, hcollected, hqueue⟩
  rw [← hs] at hdistinct ⊢
  -- Nothing waits, so that whatever is referred to was met.
  have hclosed : ∀ m ∈ s.catalog.allModels, ∀ f ∈ m.fields, f.type.RefsIn (· ∈ s.catalog.ids) := by
    intro m hm f hf id hid
    rcases hqueue.covers m hm id (List.mem_flatMap.2 ⟨f, hf, hid⟩) with hmet | hwaits
    · exact hcollected.ids.mem_iff.2 hmet
    · exact absurd hwaits List.not_mem_nil
  refine ⟨hdistinct, ?_, ?_, hcollected.dependencies, ?_⟩
  · intro m hm f hf id hid
    exact List.count_eq_one_of_mem hdistinct (hclosed m hm f hf id hid)
  · intro models o e hmodels herror
    exact Schema.synthesize_resolves hclosed hmodels herror
  · intro e he hscope
    exact (hcollected.enums e he).resolve_left hscope

end Resolution
end WireTypes
