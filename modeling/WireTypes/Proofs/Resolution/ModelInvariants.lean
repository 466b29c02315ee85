import WireTypes.Proofs.Resolution.CatalogClosure
import WireTypes.Proofs.Resolution.Yields

/-!
# Model invariants — what holds of all models of a catalog

Models are put together from classes, kept, and looked up again under the names of instances. What these
three steps give is all that a catalog holds.

- `Keeps A P Q`: for arguments that are `A`, bases have such arguments and models of classes are `Q`, what
  is recorded on the way is `P`, and models stay `Q` under the name of an instance that is `P`;
- `Holds P Q`: all that is kept while models are built is so;
- `Keeps.model`, `Keeps.referenced`: one model keeps this, and it is `Q` itself;
- `Keeps.catalog`: so all models and dependencies of a catalog are;
- `Stable P Q`: arguments do not matter.
-/

namespace WireTypes
namespace Resolution

open Discovery Python

/-- All instances are `P`, and all models that are kept are `Q`. -/
structure Building.Holds (P : Instance → Prop) (Q : Model → Prop) (b : Building) : Prop where
  instances : ∀ i ∈ b.instances, P i
  finished : ∀ entry ∈ b.finished, Q entry.2

theorem Building.Holds.read {P : Instance → Prop} {Q : Model → Prop} {b : Building}
    (h : b.Holds P Q) {known : List Instance} (hknown : ∀ i ∈ known, P i) :
    Building.Holds P Q { b with instances := known } := ⟨hknown, h.finished⟩

/-- What is kept is so, and all models that were collected are `Q`. -/
structure Collection.Holds (P : Instance → Prop) (Q : Model → Prop) (s : Collection) : Prop where
  building : s.building.Holds P Q
  models : ∀ m ∈ s.catalog.allModels, Q m

namespace ClassifiedProgram

/-- What holds of models that are built with arguments that are `A`. -/
structure Keeps (c : ClassifiedProgram) (A : TypeArgs → Prop) (P : Instance → Prop) (Q : Model → Prop) :
    Prop where
  unapplied : A []
  recorded : ∀ {i}, P i → A i.args
  bases : ∀ m {args} base, A args →
    Upholds P (fun applied? => ∀ applied ∈ applied?, A applied.2) (c.modelBase? m args base)
  assembled : ∀ {m d} id {args bases}, c.modules.classDecl? id = some (m, d) → A args →
    (∀ b ∈ bases, Q b) → Upholds P Q (c.assemble m id d args bases)
  renamed : ∀ {i m d model}, P i → c.modules.classDecl? i.generic = some (m, d) → Q model →
    Q { model with id := i.id, name := i.id.name, qualname := Program.qualname m i.id.name }

/-- What is put together is `Q`, and what is recorded on the way is `P`. -/
structure Stable (c : ClassifiedProgram) (P : Instance → Prop) (Q : Model → Prop) : Prop where
  applied : ∀ generic types, c.kind generic = .genericModel →
    P ⟨instanceId generic types, generic, c.bindParameters generic types⟩
  assembled : ∀ {m d} id args bases known, c.modules.classDecl? id = some (m, d) →
    Q (c.assemble m id d args bases known).1
  renamed : ∀ {i m d model}, P i → c.modules.classDecl? i.generic = some (m, d) → Q model →
    Q { model with id := i.id, name := i.id.name, qualname := Program.qualname m i.id.name }

variable {c : ClassifiedProgram} {A : TypeArgs → Prop} {P : Instance → Prop} {Q : Model → Prop}
  {b : Building}

/-! ## Models -/

theorem remember_holds (hb : b.Holds P Q) {id : DefinitionId} {args : TypeArgs} {model : Model}
    (hmodel : Q model) : Building.Holds P Q (remember id args model b).2 := by
  cases args with
  | cons a rest => exact hb
  | nil => exact ⟨hb.instances, List.forall_mem_cons.2 ⟨hmodel, hb.finished⟩⟩

theorem known_of_lookup (hb : b.Holds P Q) {id : DefinitionId} {args : TypeArgs} {model : Model}
    (hknown : (if args.isEmpty then b.finished.lookup id else none) = some model) : Q model := by
  split at hknown
  · rw [List.lookup_eq_some_iff] at hknown
    rcases hknown with ⟨before, after, hfinished, _⟩
    exact hb.finished (id, model) (by simp [hfinished])
  · cases hknown

/-- The models of bases are `Q`, if those of single classes are. -/
theorem Keeps.baseModels (h : c.Keeps A P Q) {depth : Nat} {above : List DefinitionId}
    (m : SourceModule) {args : TypeArgs} (hargs : A args)
    (hmodel : ∀ id {args} b, A args → b.Holds P Q →
      Building.Holds P Q (c.model depth above id args b).2 ∧
        ∀ model ∈ (c.model depth above id args b).1, Q model) :
    ∀ (bases : List Expr) (b : Building), b.Holds P Q →
      Building.Holds P Q (c.baseModels depth above m args bases b).2 ∧
        ∀ model ∈ (c.baseModels depth above m args bases b).1, Q model
  | [], _, hb => ⟨hb, fun _ hmem => absurd hmem List.not_mem_nil⟩
  | base :: rest, b, hb => by
      rcases h.bases m base hargs b.instances hb.instances with ⟨hinstances, happlied⟩
      have hread := hb.read hinstances
      cases hbase : (c.modelBase? m args base b.instances).1 with
      | none =>
          rw [baseModels_of_none hbase]
          exact h.baseModels m hargs hmodel rest _ hread
      | some applied =>
          rw [baseModels_of_some hbase]
          -- The model of the base is built first, and then those of the others.
          rcases hmodel applied.1 _ (happlied applied hbase) hread with ⟨hbuilt, hfirst⟩
          rcases h.baseModels m hargs hmodel rest _ hbuilt with ⟨hlast, hothers⟩
          refine ⟨hlast, fun model hmem => ?_⟩
          rcases List.mem_append.1 hmem with hmem | hmem
          · exact hfirst model (Option.mem_toList.1 hmem)
          · exact hothers model hmem

/-- A model that is built is `Q`, by induction on the steps that are left. -/
theorem Keeps.model (h : c.Keeps A P Q) (depth : Nat) :
    ∀ (above : List DefinitionId) (id : DefinitionId) {args : TypeArgs} (b : Building), A args →
      b.Holds P Q → Building.Holds P Q (c.model depth above id args b).2 ∧
        ∀ model ∈ (c.model depth above id args b).1, Q model := by
  induction depth with
  | zero => exact fun _ _ _ _ _ hb => ⟨hb, fun _ hmodel => by cases hmodel⟩
  | succ depth ih =>
      intro above id args b hargs hb
      cases hknown : (if args.isEmpty then b.finished.lookup id else none) with
      | some kept =>
          rw [model_of_known hknown]
          refine ⟨hb, fun model hmodel => ?_⟩
          cases hmodel
          exact known_of_lookup hb hknown
      | none =>
          by_cases habove : id ∈ above
          · rw [model_of_above hknown habove]
            exact ⟨hb, fun _ hmodel => by cases hmodel⟩
          · cases hdecl : c.modules.classDecl? id with
            | none =>
                rw [model_of_no_class hknown habove hdecl]
                exact ⟨hb, fun _ hmodel => by cases hmodel⟩
            | some decl =>
                rcases decl with ⟨m, d⟩
                -- The bases are built first, and then the class is put together.
                rw [model_of_class hknown habove hdecl]
                rcases h.baseModels m hargs (ih (id :: above)) d.bases b hb with ⟨hbases, hmodels⟩
                rcases h.assembled id hdecl hargs hmodels _ hbases.instances with
                  ⟨hinstances, hmodel⟩
                refine ⟨remember_holds (hbases.read hinstances) hmodel, fun model hmem => ?_⟩
                cases hmem
                exact hmodel

theorem Keeps.modelOf (h : c.Keeps A P Q) (hb : b.Holds P Q) (id : DefinitionId) {args : TypeArgs}
    (hargs : A args) :
    Building.Holds P Q (c.modelOf id args b).2 ∧ ∀ model ∈ (c.modelOf id args b).1, Q model :=
  h.model _ [] id b hargs hb

theorem Keeps.referenced (h : c.Keeps A P Q) (hb : b.Holds P Q) (id : DefinitionId) :
    Building.Holds P Q (c.referenced id b).2 ∧ ∀ model ∈ (c.referenced id b).1, Q model := by
  cases hfind : b.instances.find? (·.id == id) with
  | none =>
      rw [referenced_of_no_instance hfind]
      by_cases hkind : c.kind id = .model
      · rw [if_pos hkind]
        exact h.modelOf hb id h.unapplied
      · rw [if_neg hkind]
        exact ⟨hb, fun _ hmodel => by cases hmodel⟩
  | some i =>
      have hi := hb.instances i (List.mem_of_find?_eq_some hfind)
      have hid : i.id = id := by simpa using List.find?_some hfind
      cases hdecl : c.modules.classDecl? i.generic with
      | none =>
          rw [referenced_of_no_class hfind hdecl]
          exact ⟨hb, fun _ hmodel => by cases hmodel⟩
      | some decl =>
          rcases decl with ⟨m, d⟩
          rw [referenced_of_instance hfind hdecl]
          rcases h.modelOf hb i.generic (h.recorded hi) with ⟨hkept, hmodel⟩
          refine ⟨hkept, fun model hmem => ?_⟩
          rcases Option.mem_map.1 hmem with ⟨built, hbuilt, rfl⟩
          rw [← hid]
          exact h.renamed hi hdecl (hmodel built hbuilt)

/-! ## Catalogs -/

theorem Keeps.addInScope (h : c.Keeps A P Q) {s : Collection} (hs : s.Holds P Q) (id : DefinitionId) :
    Collection.Holds P Q (Collection.addInScope c s id) := by
  unfold Collection.addInScope
  cases c.kind id with
  | model =>
      rcases h.modelOf hs.building id h.unapplied with ⟨hkept, hmodel⟩
      dsimp only
      cases hrun : (c.modelOf id []).run s.building with
      | mk model? building =>
          rw [show c.modelOf id [] s.building = (model?, building) from hrun] at hkept hmodel
          cases model? with
          | none => exact ⟨hkept, hs.models⟩
          | some model =>
              refine ⟨hkept, fun m hm => ?_⟩
              rcases Collection.mem_allModels_addModel.1 hm with rfl | hm
              · exact hmodel _ rfl
              · exact hs.models m hm
  | enum => cases c.enumeration? id <;> exact ⟨hs.building, hs.models⟩
  | strEnum => cases c.enumeration? id <;> exact ⟨hs.building, hs.models⟩
  | genericModel => exact hs
  | plain => exact hs

theorem Keeps.addReferenced (h : c.Keeps A P Q) {s : Collection} (hs : s.Holds P Q)
    (id : DefinitionId) : Collection.Holds P Q (Collection.addReferenced c s id).1 := by
  rcases h.referenced hs.building id with ⟨hkept, hmodel⟩
  unfold Collection.addReferenced
  cases hrun : (c.referenced id).run s.building with
  | mk model? building =>
      rw [show c.referenced id s.building = (model?, building) from hrun] at hkept hmodel
      cases model? with
      | some model =>
          refine ⟨hkept, fun m hm => ?_⟩
          rcases Collection.mem_allModels_addDependency.1 hm with rfl | hm
          · exact hmodel _ rfl
          · exact hs.models m hm
      | none => cases c.enumeration? id <;> exact ⟨hkept, hs.models⟩

theorem Keeps.close (h : c.Keeps A P Q) (budget : Nat) (s : Collection) (queue : List DefinitionId) :
    s.Holds P Q → Collection.Holds P Q (Collection.close c budget s queue) := by
  fun_induction Collection.close c budget s queue with
  | case1 => exact id
  | case2 budget s x rest hseen ih => exact ih
  | case3 => exact id
  | case4 s x rest hnew budget next refs hstep ih =>
      intro hs
      have hnext := h.addReferenced hs x
      rw [hstep] at hnext
      exact ih hnext

/-- All models in scope and all that they depend on are `Q`. -/
theorem Keeps.catalog (h : c.Keeps A P Q) : ∀ m ∈ c.catalog.allModels, Q m := by
  have hempty : Collection.empty.Holds P Q := by
    refine ⟨⟨?_, ?_⟩, ?_⟩
    all_goals exact fun _ hmem => absurd hmem List.not_mem_nil
  have hinScope := List.foldlRecOn c.modules.scopeIds (Collection.addInScope c) hempty
    fun s hs id _ => h.addInScope hs id
  exact (h.close _ _ _ hinScope).models

/-- What holds of all applications and of all classes is kept for any arguments. -/
theorem Stable.keeps (h : c.Stable P Q) : c.Keeps (fun _ => True) P Q where
  unapplied := trivial
  recorded _ := trivial
  bases m args base _ known hknown :=
    ⟨(c.modelBase?_applying m args base).instances h.applied known hknown, fun _ _ => trivial⟩
  assembled {m d} id {args bases} hdecl _ _ known hknown :=
    ⟨(c.fieldsOf_applying m id d args bases).instances h.applied known hknown,
      h.assembled id args bases known hdecl⟩
  renamed := h.renamed

theorem Stable.catalog (h : c.Stable P Q) : ∀ m ∈ c.catalog.allModels, Q m := h.keeps.catalog

end ClassifiedProgram

end Resolution
end WireTypes
