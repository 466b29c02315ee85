import WireTypes.Proofs.Distinct
import WireTypes.Proofs.Resolution.ResolutionOrder

/-!
# Field order — the place of a field and its declaration

The fields of a model are put together from those of its bases, the last base in front, and from those
that the class declares itself. A name stays where it comes first, and what is declared last counts.

- `Field.Overrides`: fields that are inherited, and those that are written over them;
- `Field.overrides_upsertAll`: so fields are put together;
- `BuiltIn`: a run that builds the model of a class, with the fields that it is built from;
- `Occurs`: the states in which models are asked for, within the run for another model too;
- `Occurs.kept`: the models that are kept were built so, by induction on what was done before;
- `model_overrides`: and so was every model that is given.
-/

namespace WireTypes

namespace Field

/-! ## Names -/

theorem names_upsert (fields : List Field) (f : Field) :
    (upsert fields f).map Field.name =
      if f.name ∈ fields.map Field.name then fields.map Field.name
      else fields.map Field.name ++ [f.name] := by
  induction fields with
  | nil => rfl
  | cons g rest ih =>
      by_cases hsame : g.name = f.name
      · simp [upsert, hsame]
      · have hother : ¬ f.name = g.name := fun h => hsame h.symm
        simp only [upsert, hsame, if_false, List.map_cons, ih, List.mem_cons, hother, false_or]
        split <;> rfl

theorem eraseDups_concat (names : List String) (name : String) :
    (names ++ [name]).eraseDups = if name ∈ names then names.eraseDups else names.eraseDups ++ [name] := by
  rw [List.eraseDups_append]
  split
  · next h => simp [List.removeAll, h]
  · next h => simp [List.removeAll, h, List.eraseDups_cons]

/-- Every name stays where it comes first. -/
theorem names_upsertAll (declared : List Field) :
    (upsertAll [] declared).map Field.name = (declared.map Field.name).eraseDups := by
  induction declared using List.reverseRecOn with
  | nil => rfl
  | append_singleton rest f ih =>
      have hlast : upsertAll [] (rest ++ [f]) = upsert (upsertAll [] rest) f := List.foldl_concat ..
      have hnames : (rest ++ [f]).map Field.name = rest.map Field.name ++ [f.name] := List.map_append
      rw [hlast, names_upsert, hnames, eraseDups_concat, ih]
      exact if_congr (by rw [List.mem_eraseDups]) rfl rfl

/-! ## Overriding -/

/-- The last field of a name. -/
def IsLatest (declared : List Field) (f : Field) : Prop :=
  ∃ before after, declared = before ++ f :: after ∧ f.name ∉ after.map Field.name

/-- Fields that are inherited, and `own` ones that are written over them. -/
structure Overrides (inherited own fields : List Field) : Prop where
  distinct : (fields.map Field.name).Nodup
  names : fields.map Field.name = ((inherited ++ own).map Field.name).eraseDups
  latest : ∀ f ∈ fields, IsLatest (inherited ++ own) f
  /-- What is inherited keeps its place. -/
  inPlace : (inherited.map Field.name).eraseDups <+: fields.map Field.name
  /-- What the class declares itself is not inherited. -/
  ownFirst : ∀ f ∈ fields, f.name ∈ own.map Field.name → f ∈ own

theorem named?_of_mem {fields : List Field} (h : (fields.map Field.name).Nodup) {f : Field}
    (hf : f ∈ fields) : named? fields f.name = some f := by
  induction fields with
  | nil => cases hf
  | cons g rest ih =>
      rcases List.nodup_cons.1 h with ⟨hg, hrest⟩
      rw [named?_cons]
      rcases List.mem_cons.1 hf with rfl | hf
      · exact if_pos rfl
      · have hne : g.name ≠ f.name := fun hsame => hg (hsame ▸ List.mem_map_of_mem hf)
        rw [if_neg hne]
        exact ih hrest hf

theorem isLatest_of_named? {declared : List Field} {f : Field}
    (h : named? declared.reverse f.name = some f) : IsLatest declared f := by
  rcases List.find?_eq_some_iff_append.1 h with ⟨_, after, before, hsplit, hafter⟩
  refine ⟨before.reverse, after.reverse, ?_, ?_⟩
  · rw [← List.reverse_reverse declared, hsplit, List.reverse_append, List.reverse_cons,
      List.append_assoc]
    rfl
  · intro hmem
    rcases List.mem_map.1 hmem with ⟨g, hg, hname⟩
    have hother := hafter g (List.mem_reverse.1 hg)
    simp [hname] at hother

/-- The last field of a name is an own one, if there is any. -/
theorem IsLatest.own {inherited own : List Field} {f : Field} (h : IsLatest (inherited ++ own) f)
    (hown : f.name ∈ own.map Field.name) : f ∈ own := by
  rcases h with ⟨before, after, hsplit, hlast⟩
  rcases List.append_eq_append_iff.1 hsplit with ⟨more, _, htail⟩ | ⟨more, _, htail⟩
  · rw [htail]
    exact List.mem_append_right _ List.mem_cons_self
  · cases more with
    | nil => rw [← List.nil_append own, ← htail]; exact List.mem_cons_self
    | cons g rest =>
        -- All own fields come after the one that is met here.
        cases htail
        exact absurd (by simpa using Or.inr hown) hlast

/-- Fields that are put together one after the other. -/
theorem overrides_upsertAll (inherited own : List Field) :
    Overrides inherited own (upsertAll [] (inherited ++ own)) := by
  have hempty : (([] : List Field).map Field.name).Nodup := List.nodup_nil
  have hdistinct := nodup_names_upsertAll hempty (inherited ++ own)
  have hlatest : ∀ f ∈ upsertAll [] (inherited ++ own), IsLatest (inherited ++ own) f := by
    intro f hf
    have hfound := named?_of_mem hdistinct hf
    rw [named?_upsertAll] at hfound
    exact isLatest_of_named? (by simpa [named?] using hfound)
  have hnames := names_upsertAll (inherited ++ own)
  refine ⟨hdistinct, hnames, hlatest, ?_, fun f hf => (hlatest f hf).own⟩
  rw [hnames, List.map_append, List.eraseDups_append]
  exact List.prefix_append _ _

end Field

namespace Resolution

open Discovery Python

/-- The fields of bases, those of the last base in front. -/
def inheritedFields (bases : List Model) : List Field := bases.reverse.flatMap Model.fields

namespace ClassifiedProgram

variable (c : ClassifiedProgram)

/-- What a class declares itself: the attributes that are fields, and then the computed properties. -/
def declaredFields (m : SourceModule) (id : DefinitionId) (d : ClassDecl) (args : TypeArgs)
    (known : List Instance) : List Field :=
  let own := d.attributes.filterMapM (c.field? m args (c.isLegacy Program.stepLimit id)) known
  let computed := d.computed.mapM (c.computedField m args) own.2
  own.1 ++ computed.1

/-- A run builds the model of a class, that was not kept before: `bases` are the models of its bases, which
are built first, and what the class declares itself is read behind them. -/
structure BuiltIn (depth : Nat) (above : List DefinitionId) (id : DefinitionId) (args : TypeArgs)
    (b : Building) (model : Model) : Prop where
  fresh : (if args.isEmpty then b.finished.lookup id else none) = none
  notAbove : id ∉ above
  given : (c.model (depth + 1) above id args b).1 = some model
  overrides : ∃ m d, c.modules.classDecl? id = some (m, d) ∧
    let bases := c.baseModels depth (id :: above) m args d.bases b
    Field.Overrides (inheritedFields bases.1) (c.declaredFields m id d args bases.2.instances)
      model.fields

/-- The states in which a model is asked for: the arguments of a base were read, or a model was built,
perhaps within the run for another one. -/
inductive Occurs : Building → Prop
  | empty : Occurs Building.empty
  | read {b : Building} (m : SourceModule) (args : TypeArgs) (base : Expr) :
      Occurs b → Occurs { b with instances := (c.modelBase? m args base b.instances).2 }
  | built {b : Building} (depth : Nat) (above : List DefinitionId) (id : DefinitionId)
      (args : TypeArgs) : Occurs b → Occurs (c.model depth above id args b).2

/-- Every model that is kept was built for its class, without arguments. -/
def Kept (b : Building) : Prop :=
  ∀ id model, b.finished.lookup id = some model →
    ∃ depth above b', c.Occurs b' ∧ c.BuiltIn depth above id [] b' model

section

variable {c} {depth : Nat} {above : List DefinitionId} {id : DefinitionId} {args : TypeArgs}
  {b : Building} {model : Model}

/-! ## One model -/

theorem foldl_bases_eq (bases : List Model) (fields : List Field) :
    bases.foldl (fun fields base => Field.upsertAll fields base.fields) fields =
      Field.upsertAll fields (bases.flatMap Model.fields) := by
  induction bases generalizing fields with
  | nil => rfl
  | cons base rest ih =>
      rw [List.foldl_cons, ih, List.flatMap_cons]
      exact (List.foldl_append ..).symm

theorem fieldsOf_eq_upsertAll (m : SourceModule) (d : ClassDecl) (bases : List Model)
    (known : List Instance) :
    (c.fieldsOf m id d args bases known).1 =
      Field.upsertAll [] (inheritedFields bases ++ c.declaredFields m id d args known) := by
  have hrun : (c.fieldsOf m id d args bases known).1 =
      (let own := (d.attributes.filterMapM (c.field? m args (c.isLegacy Program.stepLimit id))) known
       let computed := (d.computed.mapM (c.computedField m args)) own.2
       Field.upsertAll (Field.upsertAll
         (bases.reverse.foldl (fun fields base => Field.upsertAll fields base.fields) []) own.1)
         computed.1) := rfl
  rw [hrun, foldl_bases_eq]
  simp only [inheritedFields, declaredFields, Field.upsertAll, List.foldl_append]

/-- A model that is not kept yet is built from the models of its bases. -/
theorem builtIn_of_class {m : SourceModule} {d : ClassDecl}
    (hnew : (if args.isEmpty then b.finished.lookup id else none) = none) (habove : id ∉ above)
    (hdecl : c.modules.classDecl? id = some (m, d))
    (hmodel : (c.model (depth + 1) above id args b).1 = some model) :
    c.BuiltIn depth above id args b model := by
  refine ⟨hnew, habove, hmodel, m, d, hdecl, ?_⟩
  rw [model_of_class hnew habove hdecl] at hmodel
  cases hmodel
  dsimp only
  rw [assemble_eq, fieldsOf_eq_upsertAll]
  exact Field.overrides_upsertAll _ _

/-! ## All models -/

theorem Kept.read (h : c.Kept b) (known : List Instance) : c.Kept { b with instances := known } := h

theorem Kept.remember (h : c.Kept b)
    (hmodel : args = [] → ∃ depth above b', c.Occurs b' ∧ c.BuiltIn depth above id [] b' model) :
    c.Kept (remember id args model b).2 := by
  cases args with
  | cons a rest => exact h
  | nil =>
      intro x kept hkept
      rw [lookup_remember] at hkept
      by_cases hx : x = id
      · rw [if_pos hx] at hkept
        cases hkept
        exact hx ▸ hmodel rfl
      · rw [if_neg hx] at hkept
        exact h x kept hkept

theorem baseModels_kept {m : SourceModule} (args : TypeArgs)
    (hmodel : ∀ id args b, c.Occurs b → c.Kept b → c.Kept (c.model depth above id args b).2) :
    ∀ (bases : List Expr) (b : Building), c.Occurs b → c.Kept b →
      c.Kept (c.baseModels depth above m args bases b).2
  | [], _, _, hkept => hkept
  | base :: rest, b, hoccurs, hkept => by
      have hread := hoccurs.read m args base
      cases hbase : (c.modelBase? m args base b.instances).1 with
      | none =>
          rw [baseModels_of_none hbase]
          exact baseModels_kept args hmodel rest _ hread (hkept.read _)
      | some applied =>
          rw [baseModels_of_some hbase]
          -- The model of the base is built first, and then those of the others.
          have hbuilt := hmodel applied.1 applied.2 _ hread (hkept.read _)
          exact baseModels_kept args hmodel rest _ (hread.built depth above applied.1 applied.2) hbuilt

/-- Building a model keeps only models that were built so, by induction on the steps that are left. -/
theorem model_kept (depth : Nat) : ∀ (above : List DefinitionId) (id : DefinitionId)
    (args : TypeArgs) (b : Building), c.Occurs b → c.Kept b →
      c.Kept (c.model depth above id args b).2 := by
  induction depth with
  | zero => exact fun _ _ _ _ _ hkept => hkept
  | succ depth ih =>
      intro above id args b hoccurs hkept
      cases hknown : (if args.isEmpty then b.finished.lookup id else none) with
      | some kept =>
          rw [model_of_known hknown]
          exact hkept
      | none =>
          by_cases habove : id ∈ above
          · rw [model_of_above hknown habove]
            exact hkept
          · cases hdecl : c.modules.classDecl? id with
            | none =>
                rw [model_of_no_class hknown habove hdecl]
                exact hkept
            | some decl =>
                rcases decl with ⟨m, d⟩
                have hbases := baseModels_kept (m := m) args (ih (id :: above)) d.bases b hoccurs hkept
                have hrun : c.model (depth + 1) above id args b = _ :=
                  model_of_class hknown habove hdecl
                rw [hrun]
                refine (hbases.read _).remember ?_
                rintro rfl
                exact ⟨depth, above, b, hoccurs,
                  builtIn_of_class hknown habove hdecl (by rw [hrun])⟩

theorem Occurs.kept (h : c.Occurs b) : c.Kept b := by
  induction h with
  | empty =>
      intro id model hmodel
      cases hmodel
  | read m args base _ ih => exact ih.read _
  | built depth above id args hoccurs ih => exact model_kept depth above id args _ hoccurs ih

/-- Every model that is given was built with its fields in order: by this run, or by an earlier one if the
class has no arguments and its model was kept. -/
theorem model_overrides (hb : c.Occurs b) (h : (c.model depth above id args b).1 = some model) :
    ∃ depth' above' b', c.Occurs b' ∧ c.BuiltIn depth' above' id args b' model ∧
      (args ≠ [] ∨ b.finished.lookup id = none → depth = depth' + 1 ∧ above = above' ∧ b = b') := by
  cases depth with
  | zero => cases h
  | succ depth =>
      cases hknown : (if args.isEmpty then b.finished.lookup id else none) with
      | some kept =>
          rw [model_of_known hknown] at h
          cases h
          cases args with
          | cons a rest => cases hknown
          | nil =>
              rcases hb.kept id model hknown with ⟨depth', above', b', hoccurs, hbuilt⟩
              refine ⟨depth', above', b', hoccurs, hbuilt, ?_⟩
              rintro (hargs | hnone)
              · exact absurd rfl hargs
              · cases hnone.symm.trans hknown
      | none =>
          by_cases habove : id ∈ above
          · rw [model_of_above hknown habove] at h
            cases h
          · cases hdecl : c.modules.classDecl? id with
            | none =>
                rw [model_of_no_class hknown habove hdecl] at h
                cases h
            | some decl =>
                exact ⟨depth, above, b, hb, builtIn_of_class hknown habove hdecl h,
                  fun _ => ⟨rfl, rfl, rfl⟩⟩

end

end ClassifiedProgram

/-- The class `C` of the diamond declares the field of its base again. -/
theorem diamond_overrides :
    Sample.diamond.Occurs .empty ∧
      ∃ model, (Sample.diamond.model Sample.diamond.modules.classDepth [] Sample.c [] .empty).1 =
          some model ∧
        ∃ depth, Sample.diamond.modules.classDepth = depth + 1 ∧
          Sample.diamond.BuiltIn depth [] Sample.c [] .empty model := by
  have hclass : (Sample.diamond.modules.classDecl? Sample.c).isSome := rfl
  rcases ClassifiedProgram.modelOf_isSome hclass [] .empty with ⟨model, hmodel⟩
  rcases ClassifiedProgram.model_overrides .empty hmodel with ⟨depth, above, b, -, hbuilt, hown⟩
  -- Nothing is kept in the first state, so that the run is the model's own.
  obtain ⟨hdepth, rfl, rfl⟩ := hown (.inr rfl)
  exact ⟨.empty, model, hmodel, depth, hdepth, hbuilt⟩

end Resolution
end WireTypes
