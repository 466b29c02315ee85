import WireTypes.Proofs.Schema.Meaning

/-!
# Preservation — a document defines what its models describe

- `defines_model`, `defines_enum`: a name of the document stands for the model or the enumeration that
  owns it, since a name has one owner;
- `settled_document`: so the definitions are what the references in them assume;
- `synthesize_preserves_meaning`: the definition of a model accepts the instances of the model.
-/

namespace WireTypes
namespace Schema

open Synthesis

/-! ## Names of the definitions -/

section

variable {models : List Model} {catalog : Catalog} {o : Options} {c : Context} {t : State}
  {schemas : List (String × Json)}

theorem Synthesis.Defines.exists_of_mem (h : Defines c t models schemas) {m : Model} (hm : m ∈ models) :
    ∃ j, (m.name, j) ∈ schemas := by
  induction h with
  | nil => cases hm
  | cons hfirst _ ih =>
      rcases List.mem_cons.1 hm with rfl | hrest
      · rcases hfirst with ⟨hname, _⟩
        exact ⟨_, by rw [← hname]; exact List.mem_cons_self⟩
      · rcases ih hrest with ⟨j, hj⟩
        exact ⟨j, List.mem_cons_of_mem _ hj⟩

theorem Synthesis.Defines.written (h : Defines c t models schemas) {name : String} {j : Json}
    (hj : (name, j) ∈ schemas) : ∃ m ∈ models, m.name = name ∧ WrittenModel c t true m j := by
  induction h with
  | nil => cases hj
  | cons hfirst _ ih =>
      rcases List.mem_cons.1 hj with rfl | hrest
      · exact ⟨_, List.mem_cons_self, hfirst.1.symm, hfirst.2⟩
      · rcases ih hrest with ⟨m, hm, hname, hwritten⟩
        exact ⟨m, List.mem_cons_of_mem _ hm, hname, hwritten⟩

theorem mem_map_fst_mergeSort {enums : List (String × Json)}
    {le : String × Json → String × Json → Bool} {name : String} :
    name ∈ (enums.mergeSort le).map Prod.fst ↔ name ∈ enums.map Prod.fst := by
  simp only [List.mem_map, List.mem_mergeSort]

/-- A name that is not of an enumeration stands for a model of that name. -/
theorem lookup_definitionsOf_of_mem {enums : List (String × Json)} {name : String}
    (hmodel : name ∈ schemas.map Prod.fst) (henum : name ∉ enums.map Prod.fst) :
    ∃ j, Json.lookup name (definitionsOf schemas enums) = some j ∧ (name, j) ∈ schemas := by
  unfold definitionsOf
  rw [Json.lookup_insertAll_of_not_mem (mem_map_fst_mergeSort.not.2 henum)]
  exact Json.lookup_insertAll_of_mem hmodel []

theorem lookup_definitionsOf_of_mem_enums {enums : List (String × Json)} {name : String}
    (henum : name ∈ enums.map Prod.fst) :
    ∃ j, Json.lookup name (definitionsOf schemas enums) = some j ∧ (name, j) ∈ enums := by
  rcases Json.lookup_insertAll_of_mem (mem_map_fst_mergeSort.2 henum) (Json.insertAll [] schemas) with
    ⟨j, hlookup, hmem⟩
  exact ⟨j, hlookup, List.mem_mergeSort.1 hmem⟩

/-! ## Owners of the names -/

/-- The name of a model stands for this model: no other definition owns it. -/
theorem defines_model (hunique : (catalog.withModels models).UniqueIds)
    (hsound : t.Sound (contextOf models catalog o))
    (howners : ∀ m ∈ models, t.owners.lookup m.name = some m.id)
    (hdefines : Defines (contextOf models catalog o) t models schemas) {m : Model} (hm : m ∈ models) :
    ∃ j, Json.lookup m.name (definitionsOf schemas t.enums) = some j ∧
      WrittenModel (contextOf models catalog o) t true m j := by
  have hworld : ∀ m ∈ models, m ∈ (catalog.withModels models).allModels :=
    fun m hm => Catalog.mem_allModels_withModels.2 (Or.inl hm)
  -- An enumeration of this name would own it, and the model does.
  have henum : m.name ∉ t.enums.map Prod.fst := by
    intro hmem
    rcases List.mem_map.1 hmem with ⟨⟨name, j⟩, hj, rfl⟩
    rcases hsound _ _ hj with ⟨e, he, _, _, howner⟩
    -- The schema was written for a model of this name, and the name has one owner.
    have hid : some m.id = some e.id :=
      calc
        some m.id = t.owners.lookup m.name := (howners m hm).symm
        _ = some e.id := howner
    exact hunique.apart m (hworld m hm) e he (Option.some.inj hid)
  rcases hdefines.exists_of_mem hm with ⟨_, hmodel⟩
  rcases lookup_definitionsOf_of_mem (List.mem_map_of_mem hmodel) henum with ⟨j, hlookup, hj⟩
  rcases hdefines.written hj with ⟨m', hm', hname, hwritten⟩
  have hid : some m'.id = some m.id :=
    calc
      some m'.id = t.owners.lookup m'.name := (howners m' hm').symm
      _ = t.owners.lookup m.name := by rw [hname]
      _ = some m.id := howners m hm
  have hsame : m' = m :=
    hunique.models m' (hworld m' hm') m (hworld m hm) (Option.some.inj hid)
  rw [hsame] at hwritten
  exact ⟨j, hlookup, hwritten⟩

/-- The name of an enumeration that was met stands for it. -/
theorem defines_enum (hunique : (catalog.withModels models).UniqueIds)
    (hsound : t.Sound (contextOf models catalog o)) {e : Enumeration} (he : e ∈ catalog.enums)
    (howner : t.owners.lookup e.name = some e.id) (hmet : e.name ∈ t.enums.map Prod.fst) :
    Json.lookup e.name (definitionsOf schemas t.enums) = some (enumSchema e) := by
  have hdefined : ∃ j, Json.lookup e.name (definitionsOf schemas t.enums) = some j ∧
      (e.name, j) ∈ t.enums := lookup_definitionsOf_of_mem_enums hmet
  rcases hdefined with ⟨j, hlookup, hj⟩
  rcases hsound _ _ hj with ⟨e', he', _, hschema, howner'⟩
  have hid : some e'.id = some e.id :=
    calc
      some e'.id = t.owners.lookup e.name := howner'.symm
      _ = some e.id := howner
  have hsame : e' = e := hunique.enums e' he' e he (Option.some.inj hid)
  rw [hlookup, ← hschema, hsame]

theorem mem_of_lookup_retained {id : DefinitionId} {name : String}
    (h : (contextOf models catalog o).retained.lookup id = some name) :
    ∃ m ∈ models, m.id = id ∧ m.name = name := by
  -- Names are looked up in the reversed list of the models.
  rcases List.lookup_eq_some_iff.1 h with ⟨front, back, hsplit, _⟩
  have hmem : (id, name) ∈ (models.map fun m => (m.id, m.name)).reverse := by
    rw [show (models.map fun m => (m.id, m.name)).reverse = front ++ (id, name) :: back from hsplit]
    exact List.mem_append_right _ List.mem_cons_self
  rcases List.mem_map.1 (List.mem_reverse.1 hmem) with ⟨m, hm, heq⟩
  cases heq
  exact ⟨m, hm, rfl, rfl⟩

/-! ## Documents -/

theorem settled_document (hunique : (catalog.withModels models).UniqueIds)
    (hunbounded : ∀ m ∈ (catalog.withModels models).allModels, ∀ f ∈ m.fields,
      f.constraints.isEmpty = true)
    (hdistinct : ∀ m ∈ (catalog.withModels models).allModels,
      (m.fields.map (propertyName o)).Nodup)
    (hsound : t.Sound (contextOf models catalog o))
    (howners : ∀ m ∈ models, t.owners.lookup m.name = some m.id)
    (hdefines : Defines (contextOf models catalog o) t models schemas) :
    Settled (contextOf models catalog o) t (catalog.withModels models)
      (definitionsOf schemas t.enums) where
  unique := hunique
  unbounded := hunbounded
  distinct := hdistinct
  retained := by
    intro id name hretained
    rcases mem_of_lookup_retained hretained with ⟨m, hm, rfl, rfl⟩
    exact ⟨m, Catalog.mem_allModels_withModels.2 (Or.inl hm), rfl,
      defines_model hunique hsound howners hdefines hm⟩
  enums := by
    intro id e henum howner hmet
    have he : e ∈ catalog.enums := List.mem_of_find?_eq_some henum
    have hid : e.id = id := by simpa using List.find?_some henum
    refine ⟨he, hid, defines_enum hunique hsound he ?_ hmet⟩
    rw [howner, hid]
  inlined := by
    intro id m hmodel
    have hm : m ∈ catalog.allModels := List.mem_of_find?_eq_some hmodel
    have hid : m.id = id := by simpa using List.find?_some hmodel
    exact ⟨Catalog.mem_allModels_withModels.2 (Or.inr hm), hid⟩

end

/-- Schema synthesis preserves meaning: every retained model has a definition, and a value validates
against it just if it is an instance of the model. Bounds on fields are not modelled by `Valid`. -/
theorem synthesize_preserves_meaning {models : List Model} {catalog : Catalog} {o : Options}
    {doc : Document} (hunique : (catalog.withModels models).UniqueIds)
    (hunbounded : ∀ m ∈ (catalog.withModels models).allModels, ∀ f ∈ m.fields,
      f.constraints.isEmpty = true)
    (hdistinct : ∀ m ∈ (catalog.withModels models).allModels,
      (m.fields.map (propertyName o)).Nodup)
    (hdoc : synthesize models catalog o = .ok doc) :
    ∀ m ∈ models, ∃ schema, doc.definition? m.name = some schema ∧
      ∀ v, Valid o.draft doc.definitions schema v ↔
        Instance (catalog.withModels models) o m v := by
  intro m hm
  rcases synthesize_ok hdoc with ⟨t, schemas, hsound, howners, hdefines, rfl⟩
  have hsettled := settled_document hunique hunbounded hdistinct hsound howners hdefines
  rcases defines_model hunique hsound howners hdefines hm with ⟨schema, hlookup, hwritten⟩
  refine ⟨schema, hlookup, fun v => ?_⟩
  exact valid_definition_iff hsettled (Catalog.mem_allModels_withModels.2 (Or.inl hm)) hwritten

/-! ## A recursive model -/

namespace Sample

def layer : Model where
  id := ⟨"paint.py", "Layer"⟩
  name := "Layer"
  qualname := "paint.Layer"
  docs := some "One coat."
  fields := [
    .required "colour" (.ref ⟨"paint.py", "Colour"⟩),
    .required "below" (.optional (.ref ⟨"paint.py", "Layer"⟩))]
  extra := none

def colour : Enumeration where
  id := ⟨"paint.py", "Colour"⟩
  name := "Colour"
  qualname := "paint.Colour"
  docs := none
  values := [.str "red", .str "blue"]

def paint : Catalog := ⟨[layer], [], [colour]⟩

end Sample

theorem paint_preserves_meaning :
    ∃ doc schema, synthesize [Sample.layer] Sample.paint .standard = .ok doc ∧
      doc.definition? "Layer" = some schema ∧
      ∀ v, Valid .draft2020 doc.definitions schema v ↔
        Instance (Sample.paint.withModels [Sample.layer]) .standard Sample.layer v := by
  -- The only model refers to itself, and to the enumeration.
  have hmodels : ∀ m ∈ (Sample.paint.withModels [Sample.layer]).allModels, m = Sample.layer := by
    intro m hm
    simpa [Sample.paint, Catalog.withModels, Catalog.allModels] using hm
  have hunique : (Sample.paint.withModels [Sample.layer]).UniqueIds := by
    refine ⟨?_, ?_, ?_⟩
    · intro a ha b hb _
      rw [hmodels a ha, hmodels b hb]
    · intro a ha b hb _
      rw [List.mem_singleton.1 ha, List.mem_singleton.1 hb]
    · intro m hm e he
      rw [hmodels m hm, List.mem_singleton.1 he]
      decide
  have hunbounded : ∀ m ∈ (Sample.paint.withModels [Sample.layer]).allModels, ∀ f ∈ m.fields,
      f.constraints.isEmpty = true := by
    intro m hm
    rw [hmodels m hm]
    decide
  have hdistinct : ∀ m ∈ (Sample.paint.withModels [Sample.layer]).allModels,
      (m.fields.map (Synthesis.propertyName .standard)).Nodup := by
    intro m hm
    rw [hmodels m hm]
    decide
  cases hdoc : synthesize [Sample.layer] Sample.paint .standard with
  | error e =>
      have hok : (synthesize [Sample.layer] Sample.paint .standard).toBool = true := by cbv
      rw [hdoc] at hok
      cases hok
  | ok doc =>
      rcases synthesize_preserves_meaning hunique hunbounded hdistinct hdoc Sample.layer
        List.mem_cons_self with ⟨schema, hschema, hvalid⟩
      exact ⟨doc, schema, rfl, hschema, hvalid⟩

end Schema
end WireTypes
