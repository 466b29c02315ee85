import WireTypes.Proofs.Distinct
import WireTypes.Proofs.Resolution.KnownReferences
import WireTypes.Resolution.Collection

/-!
# The closure of a catalog — whatever is referred to is defined, and once

The catalog of a program starts with the models and enumerations in scope and goes on with what they
refer to, breadth first.

- `Catalog.ids`: the identities that a catalog defines; `Catalog.Reached`: those that a chain of
  references leads to from a model in scope;
- `Collected`: what holds of a collection after every step, together with `Queued` for the identities
  that wait;
- `addInScope_collected`, `addReferenced_collected`: what one step keeps;
- `close_collected`: what the whole run keeps. The budget suffices, since every identity that is met is
  that of a class or of a recorded instance;
- `Program.catalog_collected`: so the catalog of a program is collected to the end.
-/

namespace WireTypes

namespace Catalog

/-! ## Catalogs -/

/-- The identities of all definitions. -/
def ids (catalog : Catalog) : List DefinitionId :=
  catalog.allModels.map Model.id ++ catalog.enums.map Enumeration.id

/-- A field of a model refers to a definition. -/
def Refers (catalog : Catalog) (a b : DefinitionId) : Prop :=
  ∃ m ∈ catalog.allModels, m.id = a ∧ b ∈ m.refs

/-- A chain of references leads from a model in scope to a definition. -/
def Reached (catalog : Catalog) (id : DefinitionId) : Prop :=
  ∃ m ∈ catalog.models, Relation.TransGen catalog.Refers m.id id

/-- The models of a catalog are among those of another one. -/
structure Within (small large : Catalog) : Prop where
  models : ∀ m ∈ small.models, m ∈ large.models
  allModels : ∀ m ∈ small.allModels, m ∈ large.allModels

section

variable {catalog small large : Catalog} {a b id : DefinitionId} {m : Model}

theorem Refers.mono (h : small.Refers a b) (hwithin : small.Within large) : large.Refers a b := by
  rcases h with ⟨m, hm, hid, href⟩
  exact ⟨m, hwithin.allModels m hm, hid, href⟩

theorem Reached.mono (h : small.Reached id) (hwithin : small.Within large) : large.Reached id := by
  rcases h with ⟨m, hm, hchain⟩
  exact ⟨m, hwithin.models m hm,
    Relation.TransGen.mono (fun _ _ hrefers => Refers.mono hrefers hwithin) _ _ hchain⟩

theorem Reached.next (h : catalog.Reached a) (hrefers : catalog.Refers a b) : catalog.Reached b := by
  rcases h with ⟨m, hm, hchain⟩
  exact ⟨m, hm, hchain.tail hrefers⟩

theorem mem_allModels_of_mem (h : m ∈ catalog.models) : m ∈ catalog.allModels :=
  List.mem_append_left _ h

theorem reached_of_mem (h : m ∈ catalog.models) (hid : id ∈ m.refs) : catalog.Reached id :=
  ⟨m, h, .single ⟨m, mem_allModels_of_mem h, rfl, hid⟩⟩

end

end Catalog

namespace Resolution

open Discovery

/-! ## Adding a definition -/

namespace Collection

section

variable {s : Collection} {id : DefinitionId} {model : Model} {e : Enumeration}

theorem ids_addModel : (s.addModel id model).catalog.ids.Perm (model.id :: s.catalog.ids) := by
  simp [addModel, Catalog.ids, Catalog.allModels]

theorem ids_addDependency :
    (s.addDependency model).catalog.ids.Perm (model.id :: s.catalog.ids) := by
  have hmiddle : (s.catalog.allModels.map Model.id ++
      model.id :: s.catalog.enums.map Enumeration.id).Perm (model.id :: s.catalog.ids) :=
    List.perm_middle
  simpa [addDependency, Catalog.ids, Catalog.allModels] using hmiddle

theorem ids_addEnum : (s.addEnum e).catalog.ids.Perm (e.id :: s.catalog.ids) := by
  have hlast : (s.catalog.ids ++ [e.id]).Perm (e.id :: s.catalog.ids) :=
    List.perm_append_singleton _ _
  simpa [addEnum, Catalog.ids, Catalog.allModels] using hlast

theorem mem_allModels_addModel {m : Model} :
    m ∈ (s.addModel id model).catalog.allModels ↔ m = model ∨ m ∈ s.catalog.allModels := by
  simp [addModel, Catalog.allModels]
  tauto

theorem mem_allModels_addDependency {m : Model} :
    m ∈ (s.addDependency model).catalog.allModels ↔ m = model ∨ m ∈ s.catalog.allModels := by
  simp [addDependency, Catalog.allModels]
  tauto

theorem within_addModel : s.catalog.Within (s.addModel id model).catalog :=
  ⟨fun _ hm => List.mem_append_left _ hm, fun _ hm => mem_allModels_addModel.2 (Or.inr hm)⟩

theorem within_addDependency : s.catalog.Within (s.addDependency model).catalog :=
  ⟨fun _ hm => hm, fun _ hm => mem_allModels_addDependency.2 (Or.inr hm)⟩

theorem within_addEnum : s.catalog.Within (s.addEnum e).catalog :=
  ⟨fun _ hm => hm, fun _ hm => hm⟩

end

/-! ## The invariant -/

/-- What holds of a collection after every step: the definitions are those that were met, each once, and
what was not in scope is referred to. -/
structure Collected (c : ClassifiedProgram) (scope : List DefinitionId) (s : Collection) : Prop where
  grounded : c.Grounded s.building
  ids : s.catalog.ids.Perm s.seen
  distinct : s.seen.Nodup
  known : ∀ id ∈ s.seen, c.Known s.building.instances id
  fields : ∀ m ∈ s.catalog.allModels, c.FieldsKnown s.building.instances m.fields
  dependencies : ∀ m ∈ s.catalog.dependencies, s.catalog.Reached m.id
  enums : ∀ e ∈ s.catalog.enums, e.id ∈ scope ∨ s.catalog.Reached e.id

/-- The identities that wait are known and referred to, and all others that models refer to were met. -/
structure Queued (c : ClassifiedProgram) (s : Collection) (queue : List DefinitionId) : Prop where
  known : ∀ id ∈ queue, c.Known s.building.instances id
  reached : ∀ id ∈ queue, s.catalog.Reached id
  covers : ∀ m ∈ s.catalog.allModels, ∀ id ∈ m.refs, id ∈ s.seen ∨ id ∈ queue

section

variable {c : ClassifiedProgram} {scope : List DefinitionId} {s : Collection} {id : DefinitionId}
  {model : Model} {e : Enumeration}

theorem Collected.empty : Collected c scope empty := by
  refine ⟨⟨.nil, ?_⟩, .nil, List.nodup_nil, ?_, ?_, ?_, ?_⟩
  · intro id model hmodel
    cases hmodel
  all_goals exact fun _ h => absurd h List.not_mem_nil

theorem Collected.build {b : Building} (h : Collected c scope s) (hb : c.Grounded b)
    (hgrows : s.building.instances <+: b.instances) :
    Collected c scope { s with building := b } :=
  { h with
    grounded := hb
    known := fun id hid => (h.known id hid).mono hgrows
    fields := fun m hm => (h.fields m hm).mono hgrows }

theorem Collected.addModel (h : Collected c scope s) (hid : model.id = id) (hnew : id ∉ s.seen)
    (hknown : c.Known s.building.instances id)
    (hfields : c.FieldsKnown s.building.instances model.fields) :
    Collected c scope (s.addModel id model) := by
  constructor
  case grounded => exact h.grounded
  case ids => exact ids_addModel.trans (hid ▸ h.ids.cons model.id)
  case distinct => exact List.nodup_cons.2 ⟨hnew, h.distinct⟩
  case known => exact List.forall_mem_cons.2 ⟨hknown, h.known⟩
  case fields =>
    intro m hm
    rcases mem_allModels_addModel.1 hm with rfl | hm
    · exact hfields
    · exact h.fields m hm
  case dependencies => exact fun m hm => (h.dependencies m hm).mono within_addModel
  case enums => exact fun e he => (h.enums e he).imp_right fun hr => hr.mono within_addModel

theorem Collected.addDependency (h : Collected c scope s) (hid : model.id = id) (hnew : id ∉ s.seen)
    (hknown : c.Known s.building.instances id)
    (hfields : c.FieldsKnown s.building.instances model.fields) (hreached : s.catalog.Reached id) :
    Collected c scope ((s.see id).addDependency model) := by
  constructor
  case grounded => exact h.grounded
  case ids => exact ids_addDependency.trans (hid ▸ h.ids.cons model.id)
  case distinct => exact List.nodup_cons.2 ⟨hnew, h.distinct⟩
  case known => exact List.forall_mem_cons.2 ⟨hknown, h.known⟩
  case fields =>
    intro m hm
    rcases mem_allModels_addDependency.1 hm with rfl | hm
    · exact hfields
    · exact h.fields m hm
  case dependencies =>
    intro m hm
    have hwithin : s.catalog.Within ((s.see id).addDependency model).catalog := within_addDependency
    rcases List.mem_append.1 hm with hm | hm
    · exact (h.dependencies m hm).mono hwithin
    · rw [List.mem_singleton.1 hm, hid]
      exact hreached.mono hwithin
  case enums => exact fun e he => (h.enums e he).imp_right fun hr => hr.mono within_addDependency

theorem Collected.addEnum (h : Collected c scope s) (hid : e.id = id) (hnew : id ∉ s.seen)
    (hknown : c.Known s.building.instances id) (hfound : id ∈ scope ∨ s.catalog.Reached id) :
    Collected c scope ((s.addEnum e).see id) := by
  constructor
  case grounded => exact h.grounded
  case ids => exact ids_addEnum.trans (hid ▸ h.ids.cons e.id)
  case distinct => exact List.nodup_cons.2 ⟨hnew, h.distinct⟩
  case known => exact List.forall_mem_cons.2 ⟨hknown, h.known⟩
  case fields => exact h.fields
  case dependencies => exact h.dependencies
  case enums =>
    intro x hx
    rcases List.mem_append.1 hx with hx | hx
    · exact h.enums x hx
    · rw [List.mem_singleton.1 hx, hid]
      exact hfound

/-! ## Definitions in scope -/

theorem enumeration?_spec (h : c.enumeration? id = some e) :
    e.id = id ∧ (c.kind id).isEnum = true := by
  unfold ClassifiedProgram.enumeration? at h
  by_cases henum : (c.kind id).isEnum = true
  · rw [if_pos henum] at h
    cases hdecl : c.modules.classDecl? id with
    | none => simp [hdecl] at h
    | some decl =>
        simp only [hdecl, Option.some.injEq] at h
        exact ⟨by rw [← h], henum⟩
  · simp [henum] at h

theorem enumeration?_isSome (hdeclared : c.Declared) (h : (c.kind id).isEnum = true) :
    ∃ e, c.enumeration? id = some e := by
  have hplain : c.kind id ≠ .plain := by
    intro hplain
    simp [hplain, ClassKind.isEnum] at h
  rcases Option.isSome_iff_exists.1 (hdeclared id hplain) with ⟨⟨m, d⟩, hdecl⟩
  simp [ClassifiedProgram.enumeration?, h, hdecl]

/-- A class in scope is taken in as a model or an enumeration, or it is left out. -/
theorem addInScope_collected (h : Collected c scope s) (hscope : id ∈ scope) (hnew : id ∉ s.seen) :
    Collected c scope (addInScope c s id) ∧
      (addInScope c s id).catalog.dependencies = s.catalog.dependencies ∧
      ∀ x ∈ (addInScope c s id).seen, x = id ∨ x ∈ s.seen := by
  have hsame : Collected c scope s ∧ s.catalog.dependencies = s.catalog.dependencies ∧
      ∀ x ∈ s.seen, x = id ∨ x ∈ s.seen := ⟨h, rfl, fun _ hx => Or.inr hx⟩
  have henum : ∀ e, c.enumeration? id = some e → Collected c scope ((s.addEnum e).see id) ∧
      ((s.addEnum e).see id).catalog.dependencies = s.catalog.dependencies ∧
      ∀ x ∈ ((s.addEnum e).see id).seen, x = id ∨ x ∈ s.seen := by
    intro e he
    have hspec := enumeration?_spec he
    exact ⟨h.addEnum hspec.1 hnew (Or.inr (Or.inl hspec.2)) (Or.inl hscope), rfl,
      fun _ hx => List.mem_cons.1 hx⟩
  unfold addInScope
  cases hkind : c.kind id with
  | model =>
      have hbuilds := ClassifiedProgram.modelOf_grounds id [] s.building h.grounded
        fun _ ha => absurd ha List.not_mem_nil
      dsimp only
      cases hrun : (c.modelOf id []).run s.building with
      | mk model? building =>
          rw [show c.modelOf id [] s.building = (model?, building) from hrun] at hbuilds
          rcases hbuilds with ⟨hbuilt, hgrows, hmodel⟩
          have hnext := h.build hbuilt hgrows
          cases model? with
          | none => exact ⟨hnext, rfl, fun _ hx => Or.inr hx⟩
          | some model =>
              have hspec := hmodel model rfl
              exact ⟨hnext.addModel hspec.1 hnew (Or.inl hkind) hspec.2, rfl,
                fun _ hx => List.mem_cons.1 hx⟩
  | enum =>
      dsimp only
      cases he : c.enumeration? id with
      | none => exact hsame
      | some e => exact henum e he
  | strEnum =>
      dsimp only
      cases he : c.enumeration? id with
      | none => exact hsame
      | some e => exact henum e he
  | genericModel => exact hsame
  | plain => exact hsame

theorem inScope_collected : ∀ (ids : List DefinitionId) (s : Collection), Collected c scope s →
    s.catalog.dependencies = [] → ids.Nodup → (∀ id ∈ ids, id ∈ scope ∧ id ∉ s.seen) →
    Collected c scope (ids.foldl (addInScope c) s) ∧
      (ids.foldl (addInScope c) s).catalog.dependencies = []
  | [], _, h, hnone, _, _ => ⟨h, hnone⟩
  | id :: rest, s, h, hnone, hdistinct, hids => by
      have hid := hids id List.mem_cons_self
      rcases addInScope_collected h hid.1 hid.2 with ⟨hnext, hsame, hseen⟩
      have hrest := List.nodup_cons.1 hdistinct
      refine inScope_collected rest _ hnext (hsame.trans hnone) hrest.2 ?_
      intro x hx
      refine ⟨(hids x (List.mem_cons_of_mem _ hx)).1, fun hmem => ?_⟩
      -- What was met is the class itself, or it was met before.
      rcases hseen x hmem with rfl | hmem
      · exact hrest.1 hx
      · exact (hids x (List.mem_cons_of_mem _ hx)).2 hmem

/-! ## Referenced definitions -/

theorem mem_refs {known : List Instance} (h : c.FieldsKnown known model.fields) (hid : id ∈ model.refs) :
    c.Known known id := by
  rcases List.mem_flatMap.1 hid with ⟨f, hf, href⟩
  exact h f hf id href

/-- A model that is taken in makes all identities wait that it refers to. -/
theorem Queued.addDependency {b : Building} {rest : List DefinitionId}
    (h : Queued c s (id :: rest)) (hid : model.id = id) (hgrows : s.building.instances <+: b.instances)
    (hfields : c.FieldsKnown b.instances model.fields) :
    Queued c (({ s with building := b }.see id).addDependency model) (rest ++ model.refs) := by
  have hwithin : s.catalog.Within (({ s with building := b }.see id).addDependency model).catalog :=
    within_addDependency
  have hreached := (h.reached id List.mem_cons_self).mono hwithin
  have hmodel : model ∈ (({ s with building := b }.see id).addDependency model).catalog.allModels :=
    mem_allModels_addDependency.2 (Or.inl rfl)
  constructor
  case known =>
    intro x hx
    rcases List.mem_append.1 hx with hx | hx
    · exact (h.known x (List.mem_cons_of_mem _ hx)).mono hgrows
    · exact mem_refs hfields hx
  case reached =>
    intro x hx
    rcases List.mem_append.1 hx with hx | hx
    · exact (h.reached x (List.mem_cons_of_mem _ hx)).mono hwithin
    · exact hreached.next ⟨model, hmodel, hid, hx⟩
  case covers =>
    intro m hm x hx
    rcases mem_allModels_addDependency.1 hm with rfl | hm
    · exact Or.inr (List.mem_append_right _ hx)
    · rcases h.covers m hm x hx with hmet | hwaits
      · exact Or.inl (List.mem_cons_of_mem _ hmet)
      · rcases List.mem_cons.1 hwaits with rfl | hwaits
        · exact Or.inl List.mem_cons_self
        · exact Or.inr (List.mem_append_left _ hwaits)

theorem Queued.addEnum {b : Building} {rest : List DefinitionId} (h : Queued c s (id :: rest))
    (hgrows : s.building.instances <+: b.instances) :
    Queued c (({ s with building := b }.addEnum e).see id) (rest ++ []) := by
  rw [List.append_nil]
  refine ⟨fun x hx => (h.known x (List.mem_cons_of_mem _ hx)).mono hgrows,
    fun x hx => (h.reached x (List.mem_cons_of_mem _ hx)).mono within_addEnum, ?_⟩
  intro m hm x hx
  rcases h.covers m hm x hx with hmet | hwaits
  · exact Or.inl (List.mem_cons_of_mem _ hmet)
  · rcases List.mem_cons.1 hwaits with rfl | hwaits
    · exact Or.inl List.mem_cons_self
    · exact Or.inr hwaits

/-- A referenced definition is taken in, and what it refers to waits. -/
theorem addReferenced_collected (hdeclared : c.Declared) {rest : List DefinitionId}
    (h : Collected c scope s) (hqueue : Queued c s (id :: rest)) (hnew : id ∉ s.seen) :
    Collected c scope (addReferenced c s id).1 ∧
      Queued c (addReferenced c s id).1 (rest ++ (addReferenced c s id).2) ∧
      (addReferenced c s id).1.seen = id :: s.seen := by
  have hknown := hqueue.known id List.mem_cons_self
  have hreached := hqueue.reached id List.mem_cons_self
  have hbuilds := ClassifiedProgram.referenced_grounds hdeclared id h.grounded
  unfold addReferenced
  cases hrun : (c.referenced id).run s.building with
  | mk model? building =>
      rw [show c.referenced id s.building = (model?, building) from hrun] at hbuilds
      rcases hbuilds with ⟨hbuilt, hgrows, hmodel, hnone⟩
      have hnext := h.build hbuilt hgrows
      cases model? with
      | some model =>
          have hspec := hmodel model rfl
          have hcollected := hnext.addDependency hspec.1 hnew (hknown.mono hgrows) hspec.2 hreached
          exact ⟨hcollected, hqueue.addDependency hspec.1 hgrows hspec.2, rfl⟩
      | none =>
          -- A known definition that is not built is an enumeration.
          have hisEnum := hnone hknown rfl
          rcases enumeration?_isSome hdeclared hisEnum with ⟨e, he⟩
          have hid : e.id = id := (enumeration?_spec he).1
          have hcollected := hnext.addEnum hid hnew (hknown.mono hgrows) (Or.inr hreached)
          simp only [he]
          exact ⟨hcollected, hqueue.addEnum hgrows, rfl⟩

theorem Queued.seen {rest : List DefinitionId} (h : Queued c s (id :: rest)) (hseen : id ∈ s.seen) :
    Queued c s rest := by
  refine ⟨fun x hx => h.known x (List.mem_cons_of_mem _ hx),
    fun x hx => h.reached x (List.mem_cons_of_mem _ hx), ?_⟩
  intro m hm x hx
  rcases h.covers m hm x hx with hmet | hwaits
  · exact Or.inl hmet
  · rcases List.mem_cons.1 hwaits with rfl | hwaits
    · exact Or.inl hseen
    · exact Or.inr hwaits

/-- There are no more different identities that are known than those of classes and of instances. -/
theorem Collected.length_le (hdeclared : c.Declared) (h : Collected c scope s) {ids : List DefinitionId}
    (hdistinct : ids.Nodup) (hknown : ∀ x ∈ ids, c.Known s.building.instances x) :
    ids.length ≤ c.idCount := by
  have hclass : ∀ x, c.kind x ≠ .plain → x ∈ c.modules.classIds := by
    intro x hx
    rcases Option.isSome_iff_exists.1 (hdeclared x hx) with ⟨⟨m, d⟩, hdecl⟩
    exact ClassifiedProgram.mem_classIds_of_decl hdecl
  have hall : ∀ x ∈ ids, x ∈ c.modules.classIds ++ s.building.instances.map Instance.id := by
    intro x hx
    rcases hknown x hx with hmodel | henum | hinstance
    · exact List.mem_append_left _ (hclass x (by simp [hmodel]))
    · refine List.mem_append_left _ (hclass x fun hplain => ?_)
      simp [hplain, ClassKind.isEnum] at henum
    · exact List.mem_append_right _ hinstance
  have hlength := (hdistinct.subperm hall).length_le
  have hbounded := h.grounded.recorded.bounded
  simp only [List.length_append, List.length_map] at hlength
  unfold ClassifiedProgram.idCount
  omega

/-- No more identities are met than there are. -/
theorem Collected.room (hdeclared : c.Declared) (h : Collected c scope s) (hnew : id ∉ s.seen)
    (hknown : c.Known s.building.instances id) : s.seen.length < c.idCount :=
  h.length_le hdeclared (List.nodup_cons.2 ⟨hnew, h.distinct⟩)
    (List.forall_mem_cons.2 ⟨hknown, h.known⟩)

/-- In the end nothing waits. -/
theorem close_collected (hdeclared : c.Declared) (budget : Nat) (s : Collection)
    (queue : List DefinitionId) : Collected c scope s → Queued c s queue →
    c.idCount ≤ budget + s.seen.length →
      Collected c scope (close c budget s queue) ∧ Queued c (close c budget s queue) [] := by
  fun_induction close c budget s queue with
  | case1 => exact fun h hqueue _ => ⟨h, hqueue⟩
  | case2 budget s id rest hseen ih => exact fun h hqueue hbudget => ih h (hqueue.seen hseen) hbudget
  | case3 s id rest hnew =>
      intro h hqueue hbudget
      -- Without a budget there would be more identities than there are.
      have hroom := h.room hdeclared hnew (hqueue.known id List.mem_cons_self)
      omega
  | case4 s id rest hnew budget next refs hstep ih =>
      intro h hqueue hbudget
      have hnext := addReferenced_collected hdeclared h hqueue hnew
      rw [hstep] at hnext
      rcases hnext with ⟨hcollected, hwaits, hseen⟩
      refine ih hcollected hwaits ?_
      rw [hseen, List.length_cons]
      omega

end

end Collection

/-! ## What is found in the end -/

namespace ClassifiedProgram

variable {c : ClassifiedProgram} {id : DefinitionId}

/-- The catalog is what is found, or the program stops at an enumeration whose numbers do not fit. -/
theorem located?_cases (c : ClassifiedProgram) :
    c.located? = some c.catalog ∧ (∀ e ∈ c.catalog.enums, c.isCounted e.id) ∨
      c.located? = none ∧ ∃ e ∈ c.catalog.enums, c.isCounted e.id = false := by
  unfold located?
  by_cases hcounted : (c.catalog.enums.all fun e => c.isCounted e.id) = true
  · exact .inl ⟨if_pos hcounted, List.all_eq_true.1 hcounted⟩
  · refine .inr ⟨if_neg hcounted, ?_⟩
    simpa using hcounted

theorem located?_eq_none (hfound : id ∈ c.catalog.enums.map Enumeration.id) (h : ¬ c.isCounted id) :
    c.located? = none := by
  rcases c.located?_cases with ⟨_, hcounted⟩ | ⟨hnone, _⟩
  · rcases List.mem_map.1 hfound with ⟨e, he, rfl⟩
    exact absurd (hcounted e he) h
  · exact hnone

theorem isCounted_of_unassigned
    (h : ∀ m d, c.modules.classDecl? id = some (m, d) → d.assignments = []) : c.isCounted id := by
  unfold isCounted
  cases hdecl : c.modules.classDecl? id with
  | none => rfl
  | some decl =>
      rcases decl with ⟨m, d⟩
      simp only [valuesOf?, h m d hdecl]
      rfl

end ClassifiedProgram

/-! ## The catalog of a program -/

namespace Program

/-- What is collected of the definitions in scope. -/
def inScope (p : Program) : Collection :=
  p.scopeIds.foldl (Collection.addInScope p.classified) Collection.empty

/-- What models in scope refer to waits from the start. -/
theorem inScope_queued (p : Program) :
    p.inScope.Collected p.classified p.scopeIds ∧ p.inScope.catalog.dependencies = [] ∧
      p.inScope.Queued p.classified (p.inScope.catalog.models.flatMap Model.refs) := by
  have hdistinct : p.scopeIds.Nodup := nodup_eraseDups _
  have hstart : p.inScope.Collected p.classified p.scopeIds ∧ p.inScope.catalog.dependencies = [] :=
    Collection.inScope_collected p.scopeIds Collection.empty .empty rfl hdistinct
      fun _ hid => ⟨hid, List.not_mem_nil⟩
  rcases hstart with ⟨hcollected, hnone⟩
  refine ⟨hcollected, hnone, ?_⟩
  constructor
  case known =>
    intro x hx
    rcases List.mem_flatMap.1 hx with ⟨m, hm, href⟩
    exact Collection.mem_refs (hcollected.fields m (Catalog.mem_allModels_of_mem hm)) href
  case reached =>
    intro x hx
    rcases List.mem_flatMap.1 hx with ⟨m, hm, href⟩
    exact Catalog.reached_of_mem hm href
  case covers =>
    intro m hm x hx
    have hmodel : m ∈ p.inScope.catalog.models := by
      simpa [Catalog.allModels, hnone] using hm
    exact Or.inr (List.mem_flatMap.2 ⟨m, hmodel, hx⟩)

/-- The catalog of a program is collected to the end. -/
theorem catalog_collected (p : Program) :
    ∃ s : Collection, s.catalog = p.classified.catalog ∧
      s.Collected p.classified p.scopeIds ∧ s.Queued p.classified [] := by
  rcases p.inScope_queued with ⟨hcollected, _, hqueue⟩
  exact ⟨_, rfl, Collection.close_collected p.classified_declared _ _ _ hcollected hqueue
    (Nat.le_add_right _ _)⟩

theorem nodup_catalog_ids (p : Program) : p.classified.catalog.ids.Nodup := by
  rcases p.catalog_collected with ⟨s, hs, hcollected, _⟩
  rw [← hs]
  exact hcollected.ids.nodup_iff.2 hcollected.distinct

end Program

end Resolution
end WireTypes
