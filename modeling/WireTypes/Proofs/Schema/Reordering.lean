import WireTypes.Generation
import WireTypes.Proofs.Resolution.CatalogClosure
import WireTypes.Proofs.Schema.Congruence
import WireTypes.Proofs.Selection

/-!
# Reordering — the order of discovery does not show

The definitions of a catalog are in the order in which they were found. Neither this order nor repetitions
among the models that are selected from can be seen in what comes out, be it a document or a failure.

- `selectedDocument`: the document of the models that are retained, or why there is none;
- `Catalog.Unambiguous`: equal identities are equal definitions, as in every catalog that is collected;
- `Catalog.Reordered`: the same definitions in another order;
- `Catalog.Reordered.model?`, `Catalog.Reordered.enum?`: an identity leads to the same in both;
- `selectedDocument_of_reordered`: so the result is the same.
-/

namespace WireTypes

/-- The document of the models that are left when the excluded ones are dropped. -/
def selectedDocument (catalog : Catalog) (models : List Model) (excluded : List String)
    (o : Schema.Options) : Except GenerationError Schema.Document := do
  let retained ← (select models excluded).mapError .collision
  (Schema.synthesize retained catalog o).mapError .synthesis

/-- The first element that meets a condition is the same in any order, if there is one such element. -/
theorem find?_of_perm {α : Type} {xs ys : List α} {q : α → Bool}
    (hunique : ∀ a ∈ xs, ∀ b ∈ xs, q a = true → q b = true → a = b) (h : xs.Perm ys) :
    ys.find? q = xs.find? q := by
  cases hfound : xs.find? q with
  | none =>
      rw [List.find?_eq_none] at hfound ⊢
      exact fun a ha => hfound a (h.mem_iff.2 ha)
  | some a =>
      have ha : a ∈ xs := List.mem_of_find?_eq_some hfound
      have hsome : (ys.find? q).isSome = true :=
        List.find?_isSome.2 ⟨a, h.mem_iff.1 ha, List.find?_some hfound⟩
      rcases Option.isSome_iff_exists.1 hsome with ⟨b, hb⟩
      have hmem : b ∈ xs := h.mem_iff.2 (List.mem_of_find?_eq_some hb)
      rw [hb, hunique b hmem a ha (List.find?_some hb) (List.find?_some hfound)]

namespace Catalog

/-! ## Definitions in another order -/

/-- Equal identities are equal definitions. -/
structure Unambiguous (catalog : Catalog) : Prop where
  models : Selection.Identified catalog.allModels
  enums : ∀ a ∈ catalog.enums, ∀ b ∈ catalog.enums, a.id = b.id → a = b

/-- The same definitions of each kind, in another order. -/
structure Reordered (catalog catalog' : Catalog) : Prop where
  models : catalog.models.Perm catalog'.models
  dependencies : catalog.dependencies.Perm catalog'.dependencies
  enums : catalog.enums.Perm catalog'.enums

section

variable {catalog catalog' : Catalog}

theorem unambiguous_of_nodup (h : catalog.ids.Nodup) : catalog.Unambiguous := by
  rcases List.nodup_append.1 h with ⟨hmodels, henums, _⟩
  exact ⟨fun _ ha _ hb heq => List.inj_on_of_nodup_map hmodels ha hb heq,
    fun _ ha _ hb heq => List.inj_on_of_nodup_map henums ha hb heq⟩

namespace Reordered

theorem allModels (h : catalog.Reordered catalog') : catalog.allModels.Perm catalog'.allModels :=
  h.models.append h.dependencies

theorem model? (h : catalog.Reordered catalog') (hids : catalog.Unambiguous) :
    catalog'.model? = catalog.model? := by
  funext id
  refine find?_of_perm (fun a ha b hb haid hbid => hids.models a ha b hb ?_) h.allModels
  exact (eq_of_beq haid).trans (eq_of_beq hbid).symm

theorem enum? (h : catalog.Reordered catalog') (hids : catalog.Unambiguous) :
    catalog'.enum? = catalog.enum? := by
  funext id
  refine find?_of_perm (fun a ha b hb haid hbid => hids.enums a ha b hb ?_) h.enums
  exact (eq_of_beq haid).trans (eq_of_beq hbid).symm

theorem synthesize (h : catalog.Reordered catalog') (hids : catalog.Unambiguous) (models : List Model)
    (o : Schema.Options) : Schema.synthesize models catalog' o = Schema.synthesize models catalog o :=
  Schema.synthesize_congr (h.model? hids) (h.enum? hids) h.allModels.length_eq.symm models o

end Reordered

end

end Catalog

/-- A catalog that is collected defines no identity twice. -/
theorem Resolution.Program.catalog_unambiguous (p : Resolution.Program) :
    p.classified.catalog.Unambiguous :=
  Catalog.unambiguous_of_nodup p.nodup_catalog_ids

/-! ## Results -/

/-- The order of the definitions and repetitions among the models change neither the document nor the
failure. -/
theorem selectedDocument_of_reordered {catalog catalog' : Catalog} {models models' : List Model}
    (hids : catalog.Unambiguous) (h : catalog.Reordered catalog')
    (hmodels : ∀ m, m ∈ models ↔ m ∈ catalog.allModels)
    (hmodels' : ∀ m, m ∈ models' ↔ m ∈ catalog'.allModels) (excluded : List String)
    (o : Schema.Options) :
    selectedDocument catalog' models' excluded o = selectedDocument catalog models excluded o := by
  have hidentified : Selection.Identified models := fun a ha b hb =>
    hids.models a ((hmodels a).1 ha) b ((hmodels b).1 hb)
  have hsame (m : Model) : m ∈ models' ↔ m ∈ models :=
    calc m ∈ models' ↔ m ∈ catalog'.allModels := hmodels' m
      _ ↔ m ∈ catalog.allModels := h.allModels.mem_iff.symm
      _ ↔ m ∈ models := (hmodels m).symm
  have hselect := select_eq_of_same hidentified hsame excluded
  have hsynthesize := h.synthesize hids (o := o)
  simp only [selectedDocument, hselect, hsynthesize]

namespace Sample.Found

/-- A model without fields in this file. -/
def modelIn (module : String) : Model where
  id := ⟨module, "X"⟩
  name := "X"
  qualname := "m.X"
  docs := none
  fields := []
  extra := none

def catalog : Catalog := ⟨[modelIn "/a.py", modelIn "/b.py"], [modelIn "/c.py"], []⟩

/-- The same models, found in another order. -/
def later : Catalog := ⟨[modelIn "/b.py", modelIn "/a.py"], [modelIn "/c.py"], []⟩

end Sample.Found

/-- Three models of one name collide alike, in whatever order they are found and however often. -/
theorem collision_of_reordered :
    Sample.Found.catalog.Unambiguous ∧ Sample.Found.catalog.Reordered Sample.Found.later ∧
      selectedDocument Sample.Found.later
          (Sample.Found.later.allModels ++ Sample.Found.catalog.allModels) [] .standard
        = selectedDocument Sample.Found.catalog Sample.Found.catalog.allModels [] .standard := by
  have hids : Sample.Found.catalog.ids.Nodup := by decide
  have hunambiguous := Catalog.unambiguous_of_nodup hids
  have hreordered : Sample.Found.catalog.Reordered Sample.Found.later :=
    ⟨List.Perm.swap _ _ _, List.Perm.refl _, List.Perm.refl _⟩
  refine ⟨hunambiguous, hreordered, ?_⟩
  apply selectedDocument_of_reordered hunambiguous hreordered
  case hmodels => exact fun _ => Iff.rfl
  case hmodels' =>
    intro m
    rw [List.mem_append, hreordered.allModels.mem_iff, or_self]

end WireTypes
