import WireTypes.Proofs.Resolution.Fields
import WireTypes.Proofs.Resolution.KindRules
import WireTypes.Proofs.Resolution.Marks
import WireTypes.Proofs.Resolution.Rebuilding

/-!
# Cache transparency — models do not depend on what was built before

Models are asked for one after the other, with arguments and without, and as what others refer to, and each
request leaves models and instances for the later ones. Where no class is above itself, a later model is
the one that is built with nothing kept, and every base of its class has its part in it.

- `Reached.faithful`: what is kept after any models is what would be built again;
- `modelOf_of_nothing_kept`, `modelOf_eq_of_room`: so a model is the same with nothing kept, and as long as
  there is room for instances also the same from any other table;
- `modelOf_builds_on_all_bases`: a model is put together from the models of all bases;
- `cache_transparent`: all this after any requests, and with marks that are as before behind every model.
-/

namespace WireTypes
namespace Resolution

open Discovery Python

/-- No class is among the models above it, if none is above itself. -/
theorem Program.Acyclic.models {p : Program} (h : p.Acyclic) (id : DefinitionId) :
    ¬ Relation.TransGen p.classified.BaseOf id id := by
  intro hself
  have hmono : ∀ x y, p.classified.BaseOf x y → p.BaseOf x y := by
    intro x y hbase
    exact (List.mem_filter.mp hbase).1
  exact h id (Relation.TransGen.mono hmono id id hself)

/-- What is asked for while definitions are collected: the model of a class with types for its parameters,
or what a reference leads to. -/
inductive Request
  | model (id : DefinitionId) (args : TypeArgs)
  | reference (id : DefinitionId)

namespace ClassifiedProgram

variable (c : ClassifiedProgram)

/-- What a request is answered with. -/
def answer : Request → StateM Building (Option Model)
  | .model id args => c.modelOf id args
  | .reference id => c.referenced id

/-- What is kept after requests, one after the other. -/
def afterRequests (requests : List Request) : Building :=
  requests.foldl (fun b request => (c.answer request b).2) .empty

/-- A model is built for the class that one of some bases names, with the types that are read for it and
nothing kept. -/
def BuiltForBase (m : SourceModule) (args : TypeArgs) (bases : List Expr) (x : DefinitionId)
    (model : Model) : Prop :=
  ∃ base ∈ bases, ∃ types known, (c.modelBase? m args base known).1 = some (x, types) ∧
    (c.modelOf x types ⟨(c.modelBase? m args base known).2, []⟩).1 = some model

section

variable {c} {depth : Nat} {above : List DefinitionId} {m : SourceModule} {id : DefinitionId}
  {args : TypeArgs} {b : Building}

theorem reached_afterRequests (requests : List Request) : c.Reached (c.afterRequests requests) := by
  unfold afterRequests
  refine List.foldlRecOn requests _ Reached.empty fun b hb request _ => ?_
  cases request with
  | model id args => exact hb.built id args
  | reference id => exact hb.referenced id

theorem modelClasses_cons_of_none {base : Expr} {rest : List Expr} {known : List Instance}
    (h : (c.modelBase? m args base known).1 = none) :
    c.modelClasses m (base :: rest) = c.modelClasses m rest := by
  apply modelClasses_cons_of_not_model
  rcases modelBase?_spec (c := c) m args base known with ⟨_, hplain⟩ | ⟨x, types, hsome, _⟩
  · by_cases happlied : ∃ name params, base = .type (.subscript name params)
    -- A model with arguments is a base whatever the arguments are.
    · obtain ⟨name, params, rfl⟩ := happlied
      intro x hx
      cases hresolve : c.resolve m name with
      | classDef id =>
          obtain rfl : id = x := by simpa [baseClass?, hresolve] using hx
          by_contra hmodel
          rw [Bool.not_eq_false] at hmodel
          simp only [modelBase?, hresolve, hmodel, if_true] at h
          cases h
      | _ => simp [baseClass?, hresolve] at hx
    · apply hplain
      intro name params hbase
      exact absurd ⟨name, params, hbase⟩ happlied
  · cases hsome.symm.trans h

variable (hacyclic : ∀ id, ¬ Relation.TransGen c.BaseOf id id)

include hacyclic

/-! ## What is kept -/

theorem modelOf_rebuilds (id : DefinitionId) (args : TypeArgs) :
    c.Rebuilds c.modules.classDepth id args (c.modelOf id args) :=
  model_rebuilds hacyclic c.modules.classDepth [] id args (pending_start id)

theorem Reached.faithful (h : c.Reached b) : c.Faithful b := by
  induction h with
  | empty => exact .nothing []
  | built id args _ ih => exact (modelOf_rebuilds hacyclic id args _ ih).2.2

/-- A model is the one that is built with nothing kept, and records the same instances. -/
theorem modelOf_of_nothing_kept (hb : c.Faithful b) (id : DefinitionId) (args : TypeArgs) :
    (c.modelOf id args b).1 = (c.modelOf id args ⟨b.instances, []⟩).1 ∧
      (c.modelOf id args b).2.instances = (c.modelOf id args ⟨b.instances, []⟩).2.instances := by
  obtain ⟨hmodel, hinstances, _⟩ := modelOf_rebuilds hacyclic id args b hb
  obtain ⟨hmodel', hinstances', _⟩ := modelOf_rebuilds hacyclic id args _ (.nothing b.instances)
  exact ⟨hmodel.trans hmodel'.symm, hinstances.trans hinstances'.symm⟩

/-- While there is room, a model does not depend on the instances either. -/
theorem modelOf_eq_of_room {b' : Building} (hb : c.Faithful b) (hb' : c.Faithful b')
    (hroom : HasRoom (c.modelOf id args b).2.instances)
    (hroom' : HasRoom (c.modelOf id args b').2.instances) :
    (c.modelOf id args b).1 = (c.modelOf id args b').1 := by
  obtain ⟨hmodel, hinstances, _⟩ := modelOf_rebuilds hacyclic id args b hb
  obtain ⟨hmodel', hinstances', _⟩ := modelOf_rebuilds hacyclic id args b' hb'
  -- Both are read with room left, and there is one result that is read so.
  rw [hinstances] at hroom
  rw [hinstances'] at hroom'
  rw [hmodel, hmodel']
  exact (c.rebuild_applying _ id args).relates_self _ _ (.of_run hroom) (.of_run hroom')

/-! ## No base is left out -/

theorem rebuild_isSome (hpending : c.Pending depth above id) (hclass : (c.modules.classDecl? id).isSome)
    (args : TypeArgs) (known : List Instance) :
    ∃ model, (c.rebuild depth id args known).1 = some model ∧
      (c.modelOf id args ⟨known, []⟩).1 = some model := by
  obtain ⟨model, hmodel⟩ := modelOf_isSome hclass args ⟨known, []⟩
  have hsame := (modelOf_rebuilds hacyclic id args ⟨known, []⟩ (.nothing known)).1
  rw [rebuild_classDepth hacyclic hpending] at hsame
  exact ⟨model, hsame.symm.trans hmodel, hmodel⟩

theorem rebuildBases_complete (hdeclared : c.Declared) {bases : List Expr}
    (hpending : ∀ x ∈ c.modelClasses m bases, c.Pending depth above x) (args : TypeArgs)
    (known : List Instance) :
    List.Forall₂ (c.BuiltForBase m args bases) (c.modelClasses m bases)
      (c.rebuildBases depth m args bases known).1 := by
  induction bases generalizing known with
  | nil => exact .nil
  | cons base rest ih =>
      -- What is built for one of the other bases is so for one of all bases.
      have hrest (known : List Instance) :
          List.Forall₂ (c.BuiltForBase m args (base :: rest)) (c.modelClasses m rest)
            (c.rebuildBases depth m args rest known).1 := by
        refine (ih (fun x hx => hpending x (mem_modelClasses_cons hx)) known).imp ?_
        rintro x model ⟨other, hother, hbuilt⟩
        exact ⟨other, List.mem_cons_of_mem base hother, hbuilt⟩
      rcases modelBase?_spec m args base known with ⟨hnone, _⟩ | ⟨x, types, hsome, hclass, hkind, _⟩
      · rw [rebuildBases_of_none hnone, modelClasses_cons_of_none hnone]
        exact hrest _
      · have hclasses : c.modelClasses m (base :: rest) = x :: c.modelClasses m rest :=
          modelClasses_cons_of_model hclass hkind
        have hx : x ∈ c.modelClasses m (base :: rest) := mem_modelClasses_of_model hclass hkind
        obtain ⟨model, hmodel, hbuilt⟩ :=
          rebuild_isSome hacyclic (hpending x hx) (hdeclared.of_isModel hkind) types
            (c.modelBase? m args base known).2
        rw [rebuildBases_of_some hsome, hclasses]
        dsimp only
        rw [hmodel]
        exact .cons ⟨base, List.mem_cons_self, types, known, hsome, hbuilt⟩ (hrest _)

/-- The model of a class is put together from the models of all its bases. -/
theorem modelOf_builds_on_all_bases (hdeclared : c.Declared) (hb : c.Faithful b) {d : ClassDecl}
    (hdecl : c.modules.classDecl? id = some (m, d)) (args : TypeArgs) :
    ∃ bases known, List.Forall₂ (c.BuiltForBase m args d.bases) (c.modelBasesOf id) bases ∧
      (c.modelOf id args b).1 = some (c.assemble m id d args bases known).1 := by
  have hpending : c.Pending c.modules.classDepth [] id := pending_start id
  have hmodel := (modelOf_rebuilds hacyclic id args b hb).1
  have hrun := rebuild_of_class hdecl c.modules.classIds.length args b.instances
  have hbases := rebuildBases_complete hacyclic hdeclared (hpending.bases List.not_mem_nil hdecl) args
    b.instances
  rw [modelBasesOf_eq hdecl]
  exact ⟨_, _, hbases, hmodel.trans (congrArg Prod.fst hrun)⟩

end

/-! ## After any requests -/

/-- What is kept makes no difference for any model. -/
structure Transparent (b : Building) : Prop where
  /-- With nothing kept the same model is built, and it records the same instances. -/
  nothingKept : ∀ id args, (c.modelOf id args b).1 = (c.modelOf id args ⟨b.instances, []⟩).1 ∧
    (c.modelOf id args b).2.instances = (c.modelOf id args ⟨b.instances, []⟩).2.instances
  /-- As long as there is room for instances, it does not matter which ones there are. -/
  anyTable : ∀ id args known, HasRoom (c.modelOf id args b).2.instances →
    HasRoom (c.modelOf id args ⟨known, []⟩).2.instances →
    (c.modelOf id args b).1 = (c.modelOf id args ⟨known, []⟩).1
  /-- With one set of marks, which is empty at first, the same is built and kept. -/
  marking : ∀ id args,
    (c.markingModel c.modules.classDepth id args ⟨b, ∅⟩).1 = (c.modelOf id args b).1 ∧
      (c.markingModel c.modules.classDepth id args ⟨b, ∅⟩).2.building = (c.modelOf id args b).2
  /-- Behind every model, also of a base, the marks are as they were before it. -/
  marks : ∀ depth id args s model, (c.markingModel depth id args s).1 = some model →
    (c.markingModel depth id args s).2.marks = s.marks
  /-- A model is put together from those of all bases of its class. -/
  bases : ∀ id args m d, c.modules.classDecl? id = some (m, d) → ∃ bases known,
    List.Forall₂ (c.BuiltForBase m args d.bases) (c.modelBasesOf id) bases ∧
      (c.modelOf id args b).1 = some (c.assemble m id d args bases known).1

section

variable {c} {m : SourceModule} {b : Building}

theorem Faithful.transparent (hacyclic : ∀ id, ¬ Relation.TransGen c.BaseOf id id)
    (hdeclared : c.Declared) (hb : c.Faithful b) : c.Transparent b where
  nothingKept := modelOf_of_nothing_kept hacyclic hb
  anyTable id args known := modelOf_eq_of_room hacyclic hb (.nothing known)
  marking id args := by
    obtain ⟨hmodel, hbuilding, -⟩ := markingModel_spec hdeclared c.modules.classDepth [] id args b
    exact ⟨hmodel, hbuilding⟩
  marks depth id args s model := marks_of_markingModel hdeclared
  bases id args m d hdecl := modelOf_builds_on_all_bases hacyclic hdeclared hb hdecl args

theorem quiet_typeOf_of_model {name : String} {id : DefinitionId}
    (hresolve : c.resolve m name = .classDef id) (hkind : c.kind id = .model) (hname : name ≠ "None")
    (args : TypeArgs) : Quiet (c.typeOf m args (.name name)) := by
  have hpure : c.typeOf m args (.name name) = pure (.ref id) := by
    simp [typeOf, Program.stepLimit, resolveType, hname, namedType, hresolve, hkind]
  exact hpure ▸ .pure _

theorem quiet_modelBase?_name (name : String) (args : TypeArgs) :
    Quiet (c.modelBase? m args (.name name)) := by
  unfold modelBase?
  dsimp only
  split <;> exact .pure _

end

end ClassifiedProgram

/-- If no class is above itself, it makes no difference for a model what was built before it, and none of
the bases of its class is left out. -/
theorem Program.cache_transparent {p : Program} (hacyclic : p.Acyclic) (requests : List Request) :
    p.classified.Transparent (p.classified.afterRequests requests) := by
  have hreached := ClassifiedProgram.reached_afterRequests (c := p.classified) requests
  have hfaithful := hreached.faithful hacyclic.models
  exact hfaithful.transparent hacyclic.models p.classified_declared

/-! ## A diamond -/

namespace Sample

/-- The annotations of the diamond name no generic model, and its bases have no arguments. -/
theorem quiet_diamond : ∀ id m decl, diamond.modules.classDecl? id = some (m, decl) → ∀ args,
    (∀ base ∈ decl.bases, Quiet (diamond.modelBase? m args base)) ∧
      ∀ bases, Quiet (diamond.fieldsOf m id decl args bases) := by
  intro id m decl hdecl args
  have hbases (name : String) (bases : List String) (attributes : List Attribute) :
      ∀ base ∈ (declare name bases attributes).bases,
        Quiet (diamond.modelBase? diamondModule args base) := by
    intro base hbase
    obtain ⟨other, -, rfl⟩ := List.mem_map.mp hbase
    exact ClassifiedProgram.quiet_modelBase?_name other args
  have ha : Quiet (diamond.typeOf diamondModule args (.name "A")) :=
    ClassifiedProgram.quiet_typeOf_of_model resolve_a rfl (by decide) args
  have hc : Quiet (diamond.typeOf diamondModule args (.name "C")) :=
    ClassifiedProgram.quiet_typeOf_of_model resolve_c (by decide) (by decide) args
  have hfields (name : String) (bases : List String) {attributes : List Attribute}
      (hquiet : ∀ a ∈ attributes, Quiet (diamond.typeOf diamondModule args a.hint))
      (models : List Model) :
      Quiet (diamond.fieldsOf diamondModule id (declare name bases attributes) args models) :=
    ClassifiedProgram.quiet_fieldsOf hquiet nofun
  rcases mem_diamond hdecl with rfl | rfl | rfl | rfl
  · cases hdecl.symm.trans classDecl?_a
    exact ⟨hbases _ _ _, hfields _ _ (List.forall_mem_singleton.mpr ha)⟩
  · cases hdecl.symm.trans classDecl?_b
    exact ⟨hbases _ _ _, hfields _ _ nofun⟩
  · cases hdecl.symm.trans classDecl?_c
    exact ⟨hbases _ _ _, hfields _ _ (List.forall_mem_singleton.mpr hc)⟩
  · cases hdecl.symm.trans classDecl?_d
    exact ⟨hbases _ _ _, hfields _ _ nofun⟩

theorem modelOf_instances (id : DefinitionId) (args : TypeArgs) (b : Building) :
    (diamond.modelOf id args b).2.instances = b.instances :=
  ClassifiedProgram.model_instances_of_quiet quiet_diamond _ [] id args b

theorem afterRequests_instances (requests : List Request) :
    (diamond.afterRequests requests).instances = [] := by
  refine List.foldlRecOn (motive := fun b : Building => b.instances = []) requests _ rfl
    fun b hb request _ => ?_
  cases request with
  | model id args => exact (modelOf_instances id args b).trans hb
  | reference id =>
      have hnone : b.instances.find? (·.id == id) = none := by rw [hb]; rfl
      show (diamond.referenced id b).2.instances = []
      rw [ClassifiedProgram.referenced_of_no_instance hnone]
      split
      · exact (modelOf_instances id [] b).trans hb
      · exact hb

/-- Requests for the class at the lower end, for one side with an argument and for the upper end. -/
def requests : List Request := [.model d [], .model b [("T", .int)], .reference a]

end Sample

/-- The class at the lower end of the diamond has the model that it has with nothing kept. -/
theorem diamond_transparent :
    Program.Acyclic [Sample.diamondModule] ∧
      HasRoom (Sample.diamond.modelOf Sample.d []
        (Sample.diamond.afterRequests Sample.requests)).2.instances ∧
      HasRoom (Sample.diamond.modelOf Sample.d [] .empty).2.instances ∧
      (Sample.diamond.modelOf Sample.d [] (Sample.diamond.afterRequests Sample.requests)).1 =
        (Sample.diamond.modelOf Sample.d [] .empty).1 := by
  have htransparent := Program.cache_transparent Sample.acyclic_diamond Sample.requests
  rw [Sample.classified_diamondModule] at htransparent
  have hroom (requests : List Request) :
      HasRoom (Sample.diamond.modelOf Sample.d [] (Sample.diamond.afterRequests requests)).2.instances := by
    rw [Sample.modelOf_instances, Sample.afterRequests_instances]
    exact hasRoom_nil
  exact ⟨Sample.acyclic_diamond, hroom _, hroom [],
    htransparent.anyTable Sample.d [] [] (hroom _) (hroom [])⟩

end Resolution
end WireTypes
