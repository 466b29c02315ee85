import WireTypes.Proofs.Resolution.Classification
import WireTypes.Proofs.Resolution.Inheritance
import WireTypes.Proofs.Resolution.Yields

/-!
# Fields — which fields a class has

Models are kept, and instances are recorded, while other models are built. A class has the same fields
whatever was built before it, as long as there is room for further instances.

- `HasFields id args fields`: the fields of a class with types for its parameters, from the models of its
  bases and what the class itself says;
- `HasFields.unique`: there is one list of them;
- `model_hasFields`: what is built for a class has them, and so does what is kept;
- `modelOf_hasFields`: so has a model that is built after any others.
-/

namespace WireTypes
namespace Resolution

open Discovery Python

namespace ClassifiedProgram

variable (c : ClassifiedProgram)

/-- The fields of a class with types for its parameters, read while there is room. -/
inductive HasFields : DefinitionId → TypeArgs → List Field → Prop
  | declared {id : DefinitionId} {args : TypeArgs} {m : SourceModule} {d : ClassDecl}
      {bases : List (DefinitionId × TypeArgs)} {models : List Model} {fields : List Field} :
      c.modules.classDecl? id = some (m, d) →
      Yields (d.bases.filterMapM (c.modelBase? m args)) bases →
      bases.length = models.length →
      (∀ b model, (b, model) ∈ bases.zip models → HasFields b.1 b.2 model.fields) →
      Yields (c.fieldsOf m id d args models) fields → HasFields id args fields

/-! ## One list of fields -/

section

variable {c}

/-- The fields of a class follow from those of its bases, its annotated and its computed ones. -/
theorem relates_fieldsOf {m : SourceModule} {id id' : DefinitionId} {d d' : ClassDecl}
    {args args' : TypeArgs} {models models' : List Model}
    (hmodels : models.map Model.fields = models'.map Model.fields)
    (hown : Relates Eq (d.attributes.filterMapM (c.field? m args (c.isLegacy Program.stepLimit id)))
      (d'.attributes.filterMapM (c.field? m args' (c.isLegacy Program.stepLimit id'))))
    (hcomputed : Relates Eq (d.computed.mapM (c.computedField m args))
      (d'.computed.mapM (c.computedField m args'))) :
    Relates Eq (c.fieldsOf m id d args models) (c.fieldsOf m id' d' args' models') := by
  have hinherited : ∀ models : List Model,
      models.reverse.foldl (fun fields base => Field.upsertAll fields base.fields) [] =
        (models.map Model.fields).reverse.foldl Field.upsertAll [] := by
    intro models
    rw [← List.map_reverse, List.foldl_map]
  unfold fieldsOf
  rw [hinherited models, hinherited models', hmodels]
  have hreads := fun args => Applying.mapM (c.computedField_applying m args)
  refine hown.bind (fun _ => ((hreads args d.computed).bind fun _ => .pure _).settles)
    (fun _ => ((hreads args' d'.computed).bind fun _ => .pure _).settles) ?_
  rintro own _ rfl
  exact hcomputed.map fun _ _ hfields => hfields ▸ rfl

theorem map_fields_eq {α β : Type} {P : α → Model → Prop} {Q : β → Model → Prop} {R : α → β → Prop}
    (hall : ∀ a b model model', R a b → P a model → Q b model' → model.fields = model'.fields)
    {as : List α} {bs : List β} {models models' : List Model} (hP : List.Forall₂ P as models)
    (hQ : List.Forall₂ Q bs models') (hR : List.Forall₂ R as bs) :
    models.map Model.fields = models'.map Model.fields := by
  induction hR generalizing models models' with
  | nil =>
      cases hP
      cases hQ
      rfl
  | cons hab _ ih =>
      cases hP with
      | cons hfirst hrest =>
          cases hQ with
          | cons hfirst' hrest' =>
              rw [List.map_cons, List.map_cons, hall _ _ _ _ hab hfirst hfirst', ih hrest hrest']

theorem HasFields.unique {id : DefinitionId} {args : TypeArgs} {fields : List Field}
    (h : c.HasFields id args fields) : ∀ {others}, c.HasFields id args others → fields = others := by
  -- By induction on the fields of the bases.
  induction h with
  | @declared id args m d bases models fields hdecl hbases hlength _ hfields ih =>
      rintro others (⟨hdecl', hbases', hlength', hmodels', hfields'⟩)
      cases hdecl.symm.trans hdecl'
      obtain rfl := (Applying.filterMapM (c.modelBase?_applying m args) d.bases).relates_self _ _
        hbases hbases'
      have hfirst : List.Forall₂ (fun b model => ∀ others, c.HasFields b.1 b.2 others →
          model.fields = others) bases models :=
        List.forall₂_iff_zip.2 ⟨hlength, fun hmem _ => ih _ _ hmem⟩
      have hsecond := List.forall₂_iff_zip.2 ⟨hlength', fun hmem => hmodels' _ _ hmem⟩
      have hsame := map_fields_eq (R := Eq) (fun _ b _ _ hb hmodel hother => hmodel _ (hb ▸ hother))
        hfirst hsecond (List.forall₂_refl bases)
      refine relates_fieldsOf hsame ?_ ?_ _ _ hfields hfields'
      · exact (Applying.filterMapM (c.field?_applying m args _) d.attributes).relates_self
      · exact (Applying.mapM (c.computedField_applying m args) d.computed).relates_self

end

/-! ## Models that are built -/

/-- What is kept has the fields of its class. -/
def Recalls (b : Building) : Prop :=
  HasRoom b.instances → ∀ id model, b.finished.lookup id = some model → Acc c.BaseOf id →
    c.HasFields id [] model.fields

/-- What a run for a class does while there is room: what is kept stays right, and the model has the
fields of the class. -/
def BuildsFields (id : DefinitionId) (args : TypeArgs) (act : StateM Building (Option Model)) : Prop :=
  ∀ b, c.Recalls b → c.Recalls (act b).2 ∧ Later b.instances (act b).2.instances ∧
    (HasRoom (act b).2.instances → Acc c.BaseOf id → (c.modules.classDecl? id).isSome →
      ∃ model, (act b).1 = some model ∧ c.HasFields id args model.fields)

section

variable {c} {depth : Nat} {above : List DefinitionId} {m : SourceModule} {args : TypeArgs}
  {id : DefinitionId} {b : Building}

theorem Recalls.mono (h : c.Recalls b) {later : List Instance} (hlater : Later b.instances later) :
    c.Recalls { b with instances := later } := fun hroom => h (hroom.of_later hlater)

theorem Recalls.remember {model : Model} (h : c.Recalls b)
    (hmodel : HasRoom b.instances → Acc c.BaseOf id → c.HasFields id args model.fields) :
    c.Recalls (remember id args model b).2 := by
  cases args with
  | cons a rest => exact h
  | nil =>
      intro hroom x kept hkept hacc
      rw [lookup_remember] at hkept
      by_cases hx : x = id
      · rw [if_pos hx] at hkept
        cases hkept
        subst hx
        exact hmodel hroom hacc
      · rw [if_neg hx] at hkept
        exact h hroom x kept hkept hacc

/-- One more base is read from a table where reading adds nothing. -/
theorem filterMapM_cons_of_run {α β : Type} {f : α → Resolving (Option β)} {a : α} {rest : List α}
    {first : Option β} {others : List β} {known : List Instance} (hfirst : f a known = (first, known))
    (hrest : rest.filterMapM f known = (others, known)) :
    (a :: rest).filterMapM f known = (first.toList ++ others, known) := by
  rw [List.filterMapM_cons]
  cases first with
  | none =>
      simp only [bind, StateT.bind, hfirst]
      exact hrest
  | some x =>
      simp only [bind, StateT.bind, hfirst, hrest]
      rfl

/-- The bases of a class have their fields, if classes have them that are built with one step less. -/
theorem baseModels_hasFields (hdeclared : c.Declared) (m : SourceModule) (args : TypeArgs)
    (hmodel : ∀ id args, c.Pending depth above id →
      c.BuildsFields id args (c.model depth above id args)) :
    ∀ bases, (∀ x ∈ c.modelClasses m bases, c.Pending depth above x) → ∀ b, c.Recalls b →
      c.Recalls (c.baseModels depth above m args bases b).2 ∧
      Later b.instances (c.baseModels depth above m args bases b).2.instances ∧
      (HasRoom (c.baseModels depth above m args bases b).2.instances →
        (∀ x ∈ c.modelClasses m bases, Acc c.BaseOf x) →
        ∃ applied, bases.filterMapM (c.modelBase? m args)
            (c.baseModels depth above m args bases b).2.instances =
              (applied, (c.baseModels depth above m args bases b).2.instances) ∧
          List.Forall₂ (fun base model => c.HasFields base.1 base.2 model.fields) applied
            (c.baseModels depth above m args bases b).1) := by
  intro bases
  induction bases with
  | nil =>
      intro _ b hb
      exact ⟨hb, .refl _, fun _ _ => ⟨[], rfl, .nil⟩⟩
  | cons base rest ih =>
      intro hpending b hb
      -- The base is read, and it is read so again later.
      rcases c.modelBase?_settles m args base b.instances with ⟨hread, hagain⟩
      have hnext := hb.mono hread
      have hrest := ih fun x hx => hpending x (mem_modelClasses_cons hx)
      rcases modelBase?_spec m args base b.instances with
        ⟨hnone, _⟩ | ⟨x, types, hsome, hclass, hkind, _⟩
      -- The base is no model, and nothing is built for it.
      · rw [baseModels_of_none hnone]
        rcases hrest _ hnext with ⟨hlast, hlater, hfields⟩
        refine ⟨hlast, hread.trans hlater, fun hroom hends => ?_⟩
        rcases hfields hroom fun y hy => hends y (mem_modelClasses_cons hy) with
          ⟨applied, hreads, happlied⟩
        refine ⟨applied, ?_, happlied⟩
        have hfirst := hagain _ hlater
        rw [hnone] at hfirst
        exact filterMapM_cons_of_run hfirst hreads
      -- A model is built for the base, then those for the others.
      · have hclasses : c.modelClasses m (base :: rest) = x :: c.modelClasses m rest :=
          modelClasses_cons_of_model hclass hkind
        have hx : x ∈ c.modelClasses m (base :: rest) := by
          rw [hclasses]
          exact List.mem_cons_self
        rcases hmodel x types (hpending x hx) _ hnext with ⟨hbuilt, hbuiltLater, hbuiltFields⟩
        rcases hrest _ hbuilt with ⟨hlast, hlater, hfields⟩
        rw [baseModels_of_some hsome]
        refine ⟨hlast, hread.trans (hbuiltLater.trans hlater), fun hroom hends => ?_⟩
        have hplain : c.kind x ≠ .plain := fun h => by rw [h] at hkind; cases hkind
        rcases hbuiltFields (hroom.of_later hlater) (hends x hx) (hdeclared x hplain) with
          ⟨model, hsomeModel, hmodelFields⟩
        rcases hfields hroom fun y hy => hends y (mem_modelClasses_cons hy) with
          ⟨applied, hreads, happlied⟩
        refine ⟨(x, types) :: applied, ?_, ?_⟩
        · have hfirst := hagain _ (hbuiltLater.trans hlater)
          rw [hsome] at hfirst
          exact filterMapM_cons_of_run hfirst hreads
        · dsimp only
          rw [hsomeModel]
          exact .cons hmodelFields happlied

/-- A model has the fields of its class, if the models of the bases have theirs. -/
theorem assemble_hasFields {d : ClassDecl} {bases : List (DefinitionId × TypeArgs)} {models : List Model}
    {known : List Instance} (hdecl : c.modules.classDecl? id = some (m, d))
    (hbases : d.bases.filterMapM (c.modelBase? m args) known = (bases, known))
    (hmodels : List.Forall₂ (fun base model => c.HasFields base.1 base.2 model.fields) bases models)
    (hroom : HasRoom (c.assemble m id d args models known).2) :
    c.HasFields id args (c.assemble m id d args models known).1.fields := by
  have hyields : Yields (d.bases.filterMapM (c.modelBase? m args)) bases := by
    refine ⟨known, ?_, ?_⟩
    · rw [hbases]
      exact hroom.of_later (c.fieldsOf_settles m id d args models known).1
    · rw [hbases]
  rcases List.forall₂_iff_zip.1 hmodels with ⟨hlength, hzip⟩
  exact .declared hdecl hyields hlength (fun _ _ hmem => hzip hmem) (.of_run hroom)

/-- What is built for a class has the fields of the class, by induction on the steps that are left. -/
theorem model_hasFields (hdeclared : c.Declared) (depth : Nat) : ∀ (above : List DefinitionId)
    (id : DefinitionId) (args : TypeArgs), c.Pending depth above id →
      c.BuildsFields id args (c.model depth above id args) := by
  induction depth with
  | zero => exact fun above id args hpending => hpending.depth_pos.elim
  | succ depth ih =>
      intro above id args hpending b hb
      cases hknown : (if args.isEmpty then b.finished.lookup id else none) with
      | some model =>
          rw [model_of_known hknown]
          refine ⟨hb, .refl _, fun hroom hends _ => ⟨model, rfl, ?_⟩⟩
          cases args with
          | nil => exact hb hroom id model hknown hends
          | cons a rest => cases hknown
      | none =>
          -- A class that is above itself has bases that go on forever.
          by_cases habove : id ∈ above
          · rw [model_of_above hknown habove]
            exact ⟨hb, .refl _,
              fun _ hends _ => absurd (hpending.leads id habove) (not_transGen_self hends)⟩
          · cases hdecl : c.modules.classDecl? id with
            | none =>
                rw [model_of_no_class hknown habove hdecl]
                exact ⟨hb, .refl _, fun _ _ hclass => by cases hclass⟩
            | some decl =>
                rcases decl with ⟨m, d⟩
                have hbases : ∀ x ∈ c.modelClasses m d.bases, c.BaseOf x id := by
                  intro x hx
                  rwa [BaseOf, modelBasesOf_eq hdecl]
                have hspec := baseModels_hasFields hdeclared m args (ih (id :: above)) d.bases
                  (fun x hx => hpending.base habove (mem_classIds_of_decl hdecl) (hbases x hx)) b hb
                rw [model_of_class hknown habove hdecl]
                cases hrun : c.baseModels depth (id :: above) m args d.bases b with
                | mk models next =>
                    rw [hrun] at hspec
                    rcases hspec with ⟨hbuilt, hlater, hmodels⟩
                    dsimp only at hbuilt hlater hmodels ⊢
                    have hreads := (c.fieldsOf_settles m id d args models next.instances).1
                    have hfields : HasRoom (c.assemble m id d args models next.instances).2 →
                        Acc c.BaseOf id →
                        c.HasFields id args
                          (c.assemble m id d args models next.instances).1.fields := by
                      intro hroom hends
                      rcases hmodels (hroom.of_later hreads) fun x hx => hends.inv (hbases x hx) with
                        ⟨applied, happlied, hmodels⟩
                      exact assemble_hasFields hdecl happlied hmodels hroom
                    refine ⟨(hbuilt.mono hreads).remember hfields, ?_, ?_⟩
                    · rw [remember_instances]
                      exact hlater.trans hreads
                    · rw [remember_instances]
                      exact fun hroom hends _ => ⟨_, rfl, hfields hroom hends⟩

theorem quiet_fieldsOf {d : ClassDecl} {bases : List Model}
    (hattributes : ∀ a ∈ d.attributes, Quiet (c.typeOf m args a.hint))
    (hcomputed : ∀ f ∈ d.computed, Quiet (c.computedField m args f)) :
    Quiet (c.fieldsOf m id d args bases) := by
  refine (Quiet.filterMapM fun a ha => ?_).bind fun _ => (Quiet.mapM hcomputed).map _
  unfold field?
  split
  · exact .pure _
  · exact (hattributes a ha).bind fun _ => .pure _

theorem baseModels_instances_of_quiet {bases : List Expr}
    (hquiet : ∀ base ∈ bases, Quiet (c.modelBase? m args base))
    (hmodel : ∀ id args b, (c.model depth above id args b).2.instances = b.instances) (b : Building) :
    (c.baseModels depth above m args bases b).2.instances = b.instances := by
  induction bases generalizing b with
  | nil => rfl
  | cons base rest ih =>
      have hfirst := hquiet base List.mem_cons_self b.instances
      have hrest := ih fun x hx => hquiet x (List.mem_cons_of_mem _ hx)
      cases hbase : (c.modelBase? m args base b.instances).1 with
      | none =>
          rw [baseModels_of_none hbase, hrest]
          exact hfirst
      | some applied =>
          rw [baseModels_of_some hbase]
          dsimp only
          rw [hrest, hmodel]
          exact hfirst

/-- Models record nothing where nothing in the tree does. -/
theorem model_instances_of_quiet
    (hquiet : ∀ id m d, c.modules.classDecl? id = some (m, d) → ∀ args,
      (∀ base ∈ d.bases, Quiet (c.modelBase? m args base)) ∧
        ∀ bases, Quiet (c.fieldsOf m id d args bases)) (depth : Nat) :
    ∀ (above : List DefinitionId) (id : DefinitionId) (args : TypeArgs) (b : Building),
      (c.model depth above id args b).2.instances = b.instances := by
  induction depth with
  | zero => exact fun _ _ _ _ => rfl
  | succ depth ih =>
      intro above id args b
      cases hknown : (if args.isEmpty then b.finished.lookup id else none) with
      | some model => rw [model_of_known hknown]
      | none =>
          by_cases habove : id ∈ above
          · rw [model_of_above hknown habove]
          · cases hdecl : c.modules.classDecl? id with
            | none => rw [model_of_no_class hknown habove hdecl]
            | some decl =>
                rcases decl with ⟨m, d⟩
                rcases hquiet id m d hdecl args with ⟨hbases, hfields⟩
                rw [model_of_class hknown habove hdecl]
                dsimp only
                rw [remember_instances]
                dsimp only
                rw [assemble_eq]
                dsimp only
                rw [hfields, baseModels_instances_of_quiet hbases (ih (id :: above))]

theorem Reached.recalls (hdeclared : c.Declared) (h : c.Reached b) : c.Recalls b := by
  induction h with
  | empty =>
      intro _ id model hmodel
      cases hmodel
  | built id args _ ih => exact (model_hasFields hdeclared _ [] id args (pending_start id) _ ih).1

/-- A model has the fields of its class, whatever was built before it. -/
theorem modelOf_hasFields (hdeclared : c.Declared) (hb : c.Reached b) (hends : Acc c.BaseOf id)
    (hclass : (c.modules.classDecl? id).isSome) (hroom : HasRoom (c.modelOf id args b).2.instances) :
    ∃ model, (c.modelOf id args b).1 = some model ∧ c.HasFields id args model.fields :=
  (model_hasFields hdeclared _ [] id args (pending_start id) b (hb.recalls hdeclared)).2.2 hroom hends
    hclass

end

end ClassifiedProgram

end Resolution
end WireTypes
