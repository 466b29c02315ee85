import WireTypes.Proofs.Resolution.CatalogClosure
import WireTypes.Proofs.Resolution.Unbounded

/-!
# The worklist — collecting definitions ends

What a definition in scope refers to waits in a queue, and what is taken from the queue may put more into
it: also instances of generic models that were not known before. The rules here have no limit on the
steps, so that a collection with a run is one whose queue becomes empty.

- `ReferenceBuildsTo`, `TakesIn`, `Drains`: the rules for a reference, for the definitions in scope, and for
  the queue;
- `Drains.seen`: every identity is processed once at most;
- `close_drains`: the queue becomes empty. There are no more identities than classes and instances;
- `Program.collection_ends`: so the collection of every program ends, and what it comes to is the catalog.
-/

namespace WireTypes
namespace Resolution

open Discovery Python

/-! ## References -/

namespace ClassifiedProgram

/-- Building the model of a reference, from what is kept before to the model and what is kept then. -/
inductive ReferenceBuildsTo (c : ClassifiedProgram) (id : DefinitionId) :
    Building → Option Model × Building → Prop
  | applied {b : Building} {i : Instance} {m : SourceModule} {d : ClassDecl}
      {r : Option Model × Building} :
      b.instances.find? (·.id == id) = some i → c.modules.classDecl? i.generic = some (m, d) →
      c.BuildsTo [] i.generic i.args b r →
      ReferenceBuildsTo c id b
        (r.1.map fun model =>
          { model with id, name := id.name, qualname := Program.qualname m id.name }, r.2)
  | undeclared {b : Building} {i : Instance} :
      b.instances.find? (·.id == id) = some i → c.modules.classDecl? i.generic = none →
      ReferenceBuildsTo c id b (none, b)
  | model {b : Building} {r : Option Model × Building} :
      b.instances.find? (·.id == id) = none → c.kind id = .model → c.BuildsTo [] id [] b r →
      ReferenceBuildsTo c id b r
  | other {b : Building} :
      b.instances.find? (·.id == id) = none → c.kind id ≠ .model → ReferenceBuildsTo c id b (none, b)

variable {c : ClassifiedProgram} {id : DefinitionId} {b : Building}

theorem referenced_run (c : ClassifiedProgram) (id : DefinitionId) (b : Building) :
    c.ReferenceBuildsTo id b (c.referenced id b) := by
  cases hfind : b.instances.find? (·.id == id) with
  | some i =>
      cases hdecl : c.modules.classDecl? i.generic with
      | none =>
          rw [referenced_of_no_class hfind hdecl]
          exact .undeclared hfind hdecl
      | some decl =>
          obtain ⟨m, d⟩ := decl
          rw [referenced_of_instance hfind hdecl]
          exact .applied hfind hdecl (modelOf_run i.generic i.args b)
  | none =>
      rw [referenced_of_no_instance hfind]
      by_cases hkind : c.kind id = .model
      · rw [if_pos hkind]
        exact .model hfind hkind (modelOf_run id [] b)
      · rw [if_neg hkind]
        exact .other hfind hkind

theorem ReferenceBuildsTo.unique {r r' : Option Model × Building} (h : c.ReferenceBuildsTo id b r)
    (h' : c.ReferenceBuildsTo id b r') : r = r' := by
  cases h with
  | applied hfind hdecl hbuilds =>
      cases h' with
      | applied hfind' hdecl' hbuilds' =>
          cases hfind.symm.trans hfind'
          cases hdecl.symm.trans hdecl'
          rw [hbuilds.unique hbuilds']
      | undeclared hfind' hdecl' =>
          cases hfind.symm.trans hfind'
          simp [hdecl] at hdecl'
      | model hfind' => simp [hfind] at hfind'
      | other hfind' => simp [hfind] at hfind'
  | undeclared hfind hdecl =>
      cases h' with
      | applied hfind' hdecl' =>
          cases hfind.symm.trans hfind'
          simp [hdecl] at hdecl'
      | undeclared => rfl
      | model hfind' => simp [hfind] at hfind'
      | other => rfl
  | model hfind hkind hbuilds =>
      cases h' with
      | applied hfind' => simp [hfind] at hfind'
      | undeclared hfind' => simp [hfind] at hfind'
      | model _ _ hbuilds' => exact hbuilds.unique hbuilds'
      | other _ hkind' => exact absurd hkind hkind'
  | other hfind hkind =>
      cases h' with
      | applied hfind' => simp [hfind] at hfind'
      | undeclared => rfl
      | model _ hkind' => exact absurd hkind' hkind
      | other => rfl

end ClassifiedProgram

namespace Collection

/-! ## Definitions in scope -/

/-- Takes in the model of a class in scope, if it has one. -/
def takeModel (s : Collection) (id : DefinitionId) (r : Option Model × Building) : Collection :=
  match r.1 with
  | some model => { s with building := r.2 }.addModel id model
  | none => { s with building := r.2 }

/-- Taking in classes in scope, one after the other. -/
inductive TakesIn (c : ClassifiedProgram) : List DefinitionId → Collection → Collection → Prop
  | nil {s : Collection} : TakesIn c [] s s
  | model {id : DefinitionId} {rest : List DefinitionId} {s t : Collection}
      {r : Option Model × Building} :
      c.kind id = .model → c.BuildsTo [] id [] s.building r → TakesIn c rest (s.takeModel id r) t →
      TakesIn c (id :: rest) s t
  /-- Nothing is built for a class that is no model. -/
  | other {id : DefinitionId} {rest : List DefinitionId} {s t : Collection} :
      c.kind id ≠ .model → TakesIn c rest (addInScope c s id) t → TakesIn c (id :: rest) s t

section

variable {c : ClassifiedProgram} {id : DefinitionId} {s t t' : Collection}
  {queue ids ids' scope : List DefinitionId}

theorem addInScope_of_model (hkind : c.kind id = .model) :
    addInScope c s id = s.takeModel id (c.modelOf id [] s.building) := by
  unfold addInScope takeModel
  rw [hkind]
  rfl

theorem foldl_addInScope_run (c : ClassifiedProgram) (ids : List DefinitionId) (s : Collection) :
    TakesIn c ids s (ids.foldl (addInScope c) s) := by
  induction ids generalizing s with
  | nil => exact .nil
  | cons id rest ih =>
      rw [List.foldl_cons]
      by_cases hkind : c.kind id = .model
      · rw [addInScope_of_model hkind]
        exact .model hkind (ClassifiedProgram.modelOf_run id [] s.building) (ih _)
      · exact .other hkind (ih _)

theorem TakesIn.unique (h : TakesIn c ids s t) (h' : TakesIn c ids s t') : t = t' := by
  induction h with
  | nil =>
      cases h'
      rfl
  | model hkind hbuilds _ ih =>
      cases h' with
      | model _ hbuilds' hrest' =>
          cases hbuilds.unique hbuilds'
          exact ih hrest'
      | other hkind' => exact absurd hkind hkind'
  | other hkind _ ih =>
      cases h' with
      | model hkind' => exact absurd hkind' hkind
      | other _ hrest' => exact ih hrest'

/-! ## The queue -/

/-- Takes in what was built for a reference, or an enumeration, and gives the identities that it refers
to. -/
def takeReferenced (c : ClassifiedProgram) (s : Collection) (id : DefinitionId)
    (r : Option Model × Building) : Collection × List DefinitionId :=
  let s := { s.see id with building := r.2 }
  match r.1 with
  | some model => (s.addDependency model, model.refs)
  | none =>
      match c.enumeration? id with
      | some e => (s.addEnum e, [])
      | none => (s, [])

/-- Working a queue off until it is empty, with the identities that are processed on the way. -/
inductive Drains (c : ClassifiedProgram) :
    Collection → List DefinitionId → List DefinitionId → Collection → Prop
  | done {s : Collection} : Drains c s [] [] s
  | met {id : DefinitionId} {rest ids : List DefinitionId} {s t : Collection} :
      id ∈ s.seen → Drains c s rest ids t → Drains c s (id :: rest) ids t
  | process {id : DefinitionId} {rest ids : List DefinitionId} {s t : Collection}
      {r : Option Model × Building} :
      id ∉ s.seen → c.ReferenceBuildsTo id s.building r →
      Drains c (takeReferenced c s id r).1 (rest ++ (takeReferenced c s id r).2) ids t →
      Drains c s (id :: rest) (id :: ids) t

theorem addReferenced_eq (c : ClassifiedProgram) (s : Collection) (id : DefinitionId) :
    addReferenced c s id = takeReferenced c s id (c.referenced id s.building) := rfl

theorem Drains.unique (h : Drains c s queue ids t) (h' : Drains c s queue ids' t') :
    ids = ids' ∧ t = t' := by
  induction h generalizing ids' with
  | done =>
      cases h'
      exact ⟨rfl, rfl⟩
  | met hseen _ ih =>
      cases h' with
      | met _ hrest' => exact ih hrest'
      | process hnew' => exact absurd hseen hnew'
  | process hnew hbuilds _ ih =>
      cases h' with
      | met hseen' => exact absurd hseen' hnew
      | process _ hbuilds' hrest' =>
          cases hbuilds.unique hbuilds'
          rcases ih hrest' with ⟨rfl, rfl⟩
          exact ⟨rfl, rfl⟩

/-! ### What is processed -/

theorem takeReferenced_seen (r : Option Model × Building) :
    (takeReferenced c s id r).1.seen = id :: s.seen := by
  unfold takeReferenced
  cases r.1 with
  | some model => rfl
  | none => cases c.enumeration? id <;> rfl

theorem takeReferenced_dependencies (r : Option Model × Building) :
    (takeReferenced c s id r).1.catalog.dependencies = s.catalog.dependencies ++ r.1.toList := by
  unfold takeReferenced
  cases r.1 with
  | some model => rfl
  | none => cases c.enumeration? id <;> exact (List.append_nil _).symm

/-- Every identity is processed once at most, and none that was met before. -/
theorem Drains.seen (h : Drains c s queue ids t) :
    t.seen = ids.reverse ++ s.seen ∧ ids.Nodup ∧ ∀ x ∈ ids, x ∉ s.seen := by
  induction h with
  | done => exact ⟨rfl, List.nodup_nil, fun _ hx => absurd hx List.not_mem_nil⟩
  | met _ _ ih => exact ih
  | process hnew _ _ ih =>
      rcases ih with ⟨hseen, hdistinct, hfresh⟩
      rw [takeReferenced_seen] at hseen hfresh
      refine ⟨by simp [hseen], List.nodup_cons.2 ⟨fun hmem => ?_, hdistinct⟩, ?_⟩
      · exact hfresh _ hmem List.mem_cons_self
      · refine List.forall_mem_cons.2 ⟨hnew, fun x hx hmem => ?_⟩
        exact hfresh x hx (List.mem_cons_of_mem _ hmem)

/-- One identity that is processed is one dependency at most. -/
theorem Drains.dependencies_le (h : Drains c s queue ids t) :
    t.catalog.dependencies.length ≤ s.catalog.dependencies.length + ids.length := by
  induction h with
  | done => exact le_refl _
  | met _ _ ih => exact ih
  | process _ _ _ ih =>
      rename_i r _ _ _
      rw [takeReferenced_dependencies, List.length_append] at ih
      have hone : r.1.toList.length ≤ 1 := by cases r.1 <;> simp
      rw [List.length_cons]
      omega

/-- The queue becomes empty before the budget is used up. -/
theorem close_drains (hdeclared : c.Declared) (budget : Nat) (s : Collection)
    (queue : List DefinitionId) : Collected c scope s → Queued c s queue →
    c.idCount ≤ budget + s.seen.length → ∃ ids, Drains c s queue ids (close c budget s queue) := by
  fun_induction close c budget s queue with
  | case1 => exact fun _ _ _ => ⟨[], .done⟩
  | case2 budget s id rest hseen ih =>
      intro h hqueue hbudget
      rcases ih h (hqueue.seen hseen) hbudget with ⟨ids, hids⟩
      exact ⟨ids, .met hseen hids⟩
  | case3 s id rest hnew =>
      intro h hqueue hbudget
      -- Without a budget there would be more identities than there are.
      have hroom := h.room hdeclared hnew (hqueue.known id List.mem_cons_self)
      omega
  | case4 s id rest hnew budget next refs hstep ih =>
      intro h hqueue hbudget
      have hnext := addReferenced_collected hdeclared h hqueue hnew
      have hbuilds := ClassifiedProgram.referenced_run c id s.building
      rw [hstep] at hnext
      rcases hnext with ⟨hcollected, hwaits, hseen⟩
      have hroom : c.idCount ≤ budget + next.seen.length := by
        rw [hseen, List.length_cons]
        omega
      rcases ih hcollected hwaits hroom with ⟨ids, hids⟩
      refine ⟨id :: ids, .process hnew hbuilds ?_⟩
      rw [← addReferenced_eq, hstep]
      exact hids

end

end Collection

/-! ## The collection of a program -/

namespace Program

/-- A whole collection without a limit on its steps: the kinds of all classes, what is in scope, and the
identities that are processed until nothing waits. -/
structure Collects (p : Program) (kinds : List (DefinitionId × ClassKind)) (start : Collection)
    (processed : List DefinitionId) (last : Collection) : Prop where
  classes : p.AllClassifyTo p.classIds [] kinds
  scope : Collection.TakesIn ⟨p, kinds⟩ p.scopeIds Collection.empty start
  references : Collection.Drains ⟨p, kinds⟩ start (start.catalog.models.flatMap Model.refs) processed last

variable {p : Program}

theorem Collects.unique {kinds kinds' : List (DefinitionId × ClassKind)}
    {start start' last last' : Collection} {processed processed' : List DefinitionId}
    (h : p.Collects kinds start processed last) (h' : p.Collects kinds' start' processed' last') :
    start = start' ∧ processed = processed' ∧ last = last' := by
  cases h.classes.unique h'.classes
  cases h.scope.unique h'.scope
  exact ⟨rfl, h.references.unique h'.references⟩

/-- The collection of a program has a run, whose result is the catalog. -/
theorem exists_collects (p : Program) :
    ∃ processed last, p.Collects p.classKinds p.inScope processed last ∧
      last.catalog = p.classified.catalog ∧ processed.length ≤ p.classified.idCount := by
  rcases p.inScope_queued with ⟨hcollected, _, hqueue⟩
  have hbudget := Nat.le_add_right p.classified.idCount p.inScope.seen.length
  rcases Collection.close_drains p.classified_declared _ _ _ hcollected hqueue hbudget with
    ⟨processed, hdrains⟩
  have hlast := (Collection.close_collected p.classified_declared _ _ _ hcollected hqueue hbudget).1
  refine ⟨processed, _, ⟨p.foldl_classifyNext_run p.classIds [], ?_, hdrains⟩, rfl, ?_⟩
  · exact Collection.foldl_addInScope_run p.classified p.scopeIds Collection.empty
  · -- What is processed was met, and there is no room for more.
    have hseen := congrArg List.length hdrains.seen.1
    have hmet := hlast.length_le p.classified_declared hlast.distinct hlast.known
    simp only [List.length_append, List.length_reverse] at hseen
    omega

/-- The collection of every program ends: there is a run, and only one. Its queue is worked off to the end
with no more dependencies than there are classes and instances, and no identity is processed twice or after
it was taken in from the scope. -/
theorem collection_ends (p : Program) :
    (∃ kinds start processed last, p.Collects kinds start processed last) ∧
      ∀ kinds start processed last, p.Collects kinds start processed last →
        last.catalog = p.classified.catalog ∧ processed.Nodup ∧ (∀ id ∈ processed, id ∉ start.seen) ∧
          processed.length ≤ p.classIds.length + 256 ∧
          last.catalog.dependencies.length ≤ p.classIds.length + 256 := by
  rcases p.exists_collects with ⟨processed, last, hrun, hcatalog, hbound⟩
  refine ⟨⟨_, _, processed, last, hrun⟩, fun kinds start processed' last' hrun' => ?_⟩
  rcases hrun.unique hrun' with ⟨rfl, rfl, rfl⟩
  rcases hrun.references.seen with ⟨_, hdistinct, hfresh⟩
  have hdependencies := hrun.references.dependencies_le
  rw [p.inScope_queued.2.1, List.length_nil, Nat.zero_add] at hdependencies
  exact ⟨hcatalog, hdistinct, hfresh, hbound, hdependencies.trans hbound⟩

end Program

end Resolution
end WireTypes
