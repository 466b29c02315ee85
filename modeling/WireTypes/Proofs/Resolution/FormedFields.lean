import WireTypes.Proofs.Resolution.FormedTypes
import WireTypes.Proofs.Resolution.Instantiation
import WireTypes.Proofs.Resolution.ModelInvariants
import WireTypes.Proofs.Resolution.Scope
import WireTypes.Proofs.Text.Segments

/-!
# Formed fields — the shape of the types of all fields

The fields of a model are read from annotations, inherited from models that were built the same way, and
read again for an instance with the types of its arguments. So the types of all of them are well-formed,
and a field says in one way that it allows `null` beside something else.

- `SaysNull ty`: the type names `null` among its alternatives;
- `catalog_formed`: the types of all fields of a catalog are well-formed;
- `types_formed`: so is what is read of any annotation, and a type of a field is optional exactly if it
  says `null` and is not `null` itself.
-/

namespace WireTypes

namespace FieldType

/-- The type names `null` among its alternatives. -/
inductive SaysNull : FieldType → Prop
  | null : SaysNull .null
  | optional (inner : FieldType) : SaysNull (.optional inner)
  | member {members : List FieldType} {t : FieldType} :
      t ∈ members → SaysNull t → SaysNull (.union members)

theorem not_saysNull_of_single {ty : FieldType} (h : ty.isSingle = true) : ¬ ty.SaysNull := by
  intro hnull
  cases hnull <;> cases h

/-- No member of a union says `null` in a well-formed type. -/
theorem Formed.isOptional_iff {ty : FieldType} (h : ty.Formed) :
    ty.isOptional = true ↔ ty.SaysNull ∧ ty ≠ .null := by
  constructor
  · intro hoptional
    cases ty with
    | optional inner => exact ⟨.optional inner, by simp⟩
    | _ => cases hoptional
  · rintro ⟨hnull, hother⟩
    cases hnull with
    | null => exact absurd rfl hother
    | optional inner => rfl
    | member hmem hsays => exact absurd hsays (not_saysNull_of_single (h.2.2 _ hmem))

end FieldType

namespace Resolution

open Discovery Python FieldType

/-- The types of all fields are well-formed. -/
def HasFormedFields (m : Model) : Prop := ∀ f ∈ m.fields, f.type.FormedThroughout

namespace ClassifiedProgram

variable (c : ClassifiedProgram)

section

variable {P : Instance → Prop} (hP : c.AcceptsFormed P) {args : TypeArgs} (hargs : args.HasFormed)

include hP hargs

theorem typeOf_formed (m : SourceModule) (hint : TypeHint) :
    Upholds P FormedThroughout (c.typeOf m args hint) := c.resolveType_formed hP hargs _ m hint

theorem field?_formed (m : SourceModule) (isLegacy : Bool) (a : Attribute) :
    Upholds P (fun f? => ∀ f, f? = some f → f.type.FormedThroughout) (c.field? m args isLegacy a) := by
  unfold field?
  split
  · exact .pure fun _ hnone => by cases hnone
  · refine (c.typeOf_formed hP hargs m a.hint).bind fun ty hty => .pure fun f hf => ?_
    cases hf
    rwa [type_withImplicitDefault, type_fieldOf]

theorem computedField_formed (m : SourceModule) (d : Computed) :
    Upholds P (fun f => f.type.FormedThroughout) (c.computedField m args d) := by
  unfold computedField
  cases d.returns with
  | none => exact .pure (formedThroughout_of_shallow rfl rfl)
  | some hint => exact (c.typeOf_formed hP hargs m hint).bind fun _ hty => .pure hty

theorem fieldsOf_formed (m : SourceModule) (id : DefinitionId) (d : ClassDecl) {bases : List Model}
    (hbases : ∀ b ∈ bases, HasFormedFields b) :
    Upholds P (fun fields => ∀ f ∈ fields, f.type.FormedThroughout) (c.fieldsOf m id d args bases) := by
  have hown : Upholds P (fun own => ∀ f ∈ own, f.type.FormedThroughout)
      (d.attributes.filterMapM (c.field? m args (c.isLegacy Program.stepLimit id))) :=
    Upholds.filterMapM fun a _ => c.field?_formed hP hargs m _ a
  have hcomputed := Upholds.mapM (c.computedField_formed hP hargs m) d.computed
  unfold fieldsOf
  refine hown.bind fun own hown => hcomputed.bind fun computed hcomputed => .pure fun f hf => ?_
  rcases mem_upsertAll hf with hf | hf
  · exact hcomputed f hf
  · rcases mem_upsertAll hf with hf | hf
    · exact hown f hf
    · rcases mem_inherited hf with ⟨base, hbase, hf⟩ | hf
      · exact hbases base (List.mem_reverse.1 hbase) f hf
      · exact absurd hf List.not_mem_nil

/-- A base takes the arguments of the class, or has arguments of its own that are read. -/
theorem modelBase?_formed (m : SourceModule) (base : Expr) :
    Upholds P (fun applied? => ∀ applied ∈ applied?, applied.2.HasFormed)
      (c.modelBase? m args base) := by
  have hnone : Upholds P
      (fun applied? : Option (DefinitionId × TypeArgs) => ∀ applied ∈ applied?, applied.2.HasFormed)
      (pure none) := .pure fun _ hnone => by cases hnone
  unfold modelBase?
  split
  · split
    · refine .pure fun applied happlied => ?_
      split at happlied
      · cases happlied
        exact hargs
      · cases happlied
    · exact hnone
  · split
    · split
      · refine (Upholds.mapM (c.typeOf_formed hP hargs m) _).bind fun types htypes => ?_
        refine .pure fun applied happlied => ?_
        cases happlied
        exact TypeArgs.hasFormed_bind htypes _
      · exact hnone
    · exact hnone
  · exact hnone

end

/-! ## Models -/

theorem keeps_formed : c.Keeps TypeArgs.HasFormed (fun i => i.args.HasFormed) HasFormedFields where
  unapplied := TypeArgs.hasFormed_nil
  recorded := id
  bases m _ base hargs := c.modelBase?_formed c.acceptsFormed_args hargs m base
  assembled {m d} id _ _ _ hargs hbases :=
    (c.fieldsOf_formed c.acceptsFormed_args hargs m id d hbases).bind fun _ hfields => .pure hfields
  renamed _ _ hmodel := hmodel

theorem catalog_formed : ∀ m ∈ c.catalog.allModels, HasFormedFields m := c.keeps_formed.catalog

/-- Whatever is written in an annotation and whatever was recorded before, it is read as a type that is
well-formed at every depth, if the types of its parameters are; and what is recorded has such types
again. All fields of all models and dependencies have well-formed types, and these are optional exactly if
they say `null` and something else. -/
theorem types_formed :
    (∀ (steps : Nat) (m : SourceModule) (args : TypeArgs) (hint : TypeHint) (known : List Instance),
      args.HasFormed → (c.resolveType steps m args hint known).1.FormedThroughout ∧
        ((∀ i ∈ known, i.args.HasFormed) →
          ∀ i ∈ (c.resolveType steps m args hint known).2, i.args.HasFormed)) ∧
    ∀ m ∈ c.catalog.allModels, ∀ f ∈ m.fields, f.type.FormedThroughout ∧
      (f.type.isOptional = true ↔ f.type.SaysNull ∧ f.type ≠ .null) := by
  constructor
  · intro steps m args hint known hargs
    have hany : c.AcceptsFormed fun _ => True := fun _ _ _ => trivial
    have htype := c.resolveType_formed hany hargs steps m hint
    have hrecorded := c.resolveType_formed c.acceptsFormed_args hargs steps m hint
    exact ⟨always_iff_upholds.2 htype known, fun hknown => (hrecorded known hknown).1⟩
  · intro m hm f hf
    have hformed := c.catalog_formed m hm f hf
    exact ⟨hformed, hformed.formed.isOptional_iff⟩

end ClassifiedProgram

/-- The members of a union are read as one type, with `null` said once for the parameter and for `None`. -/
theorem parameter_or_none_formed :
    Boxes.boxArgs.HasFormed ∧
    (Boxes.boxes.resolveType 2 Boxes.source Boxes.boxArgs (.union [.name "T", .name "None"]) []).1
      = .optional (.ref (Boxes.classOf "I")) ∧
    (FieldType.optional (.ref (Boxes.classOf "I"))).FormedThroughout := by
  have htype : (Boxes.boxes.resolveType 2 Boxes.source Boxes.boxArgs
      (.union [.name "T", .name "None"]) []).1 = .optional (.ref (Boxes.classOf "I")) := by
    rw [ClassifiedProgram.resolveType_union]
    simp only [List.mapM_cons, List.mapM_nil, Boxes.resolveType_parameter, Boxes.resolveType_none]
    rfl
  have hformed := Boxes.boxes.types_formed.1 2 Boxes.source Boxes.boxArgs
    (.union [.name "T", .name "None"]) [] Boxes.hasFormed_boxArgs
  rw [htype] at hformed
  exact ⟨Boxes.hasFormed_boxArgs, htype, hformed.1⟩

/-! ## A field that is always `None` -/

namespace Sample

def noneClass : ClassDecl := declare "A" ["M"] [⟨"x", .name "None", none⟩]

/-- A model with a field of type `None`. -/
def noneModule : SourceModule where
  key := ["m.py"]
  dotted := "m"
  packageDirectory := none
  content := {
    imports := [.names 0 (some "pydantic") [⟨"BaseModel", some "M"⟩] false]
    classes := [noneClass]
    aliases := [] }
  bindings := [("A", .classDef), ("M", .external "pydantic.BaseModel")]
  stars := []
  inScope := true

def noneProgram : ClassifiedProgram := ⟨[noneModule], [(a, .model)]⟩

def noneField : Field := .required "x" .null

def noneModel : Model := ⟨a, "A", "m.A", none, [noneField], none⟩

theorem classified_noneModule : Program.classified [noneModule] = noneProgram := by cbv

theorem classDecl?_none : noneProgram.modules.classDecl? a = some (noneModule, noneClass) := rfl

theorem resolve_noneBase : noneProgram.resolve noneModule "M" = .external "pydantic.BaseModel" := by
  cbv

theorem field?_none (isLegacy : Bool) (known : List Instance) :
    noneProgram.field? noneModule [] isLegacy ⟨"x", .name "None", none⟩ known
      = (some noneField, known) := by
  have hresolve : noneProgram.resolve noneModule "None" = .external "None" := by cbv
  have hshort : External.shortName "None" = "None" := by
    simp only [External.shortName, External.splitLast?, Text.splitOn_dot]
    decide
  have hclassVar : noneProgram.isClassVar noneModule (.name "None") = false := by
    simp [ClassifiedProgram.isClassVar, ClassifiedProgram.isClassVarWithin,
      ClassifiedProgram.isClassVarWithin.marks, hresolve, hshort]
  have htype : noneProgram.typeOf noneModule [] (.name "None") known = (.null, known) := rfl
  exact ClassifiedProgram.field?_of_type (by cbv) hclassVar htype rfl isLegacy

theorem modelOf_none : (noneProgram.modelOf a [] Building.empty).1 = some noneModel := by
  have hbases : ∀ base ∈ noneClass.bases, ∀ known,
      noneProgram.modelBase? noneModule [] base known = (none, known) := by
    intro base hbase known
    rw [List.mem_singleton.1 hbase]
    simp only [ClassifiedProgram.modelBase?, resolve_noneBase]
    rfl
  have hfields : noneProgram.fieldsOf noneModule a noneClass [] [] [] = ([noneField], []) := by
    have hown := field?_none (noneProgram.isLegacy Program.stepLimit a) []
    simp [ClassifiedProgram.fieldsOf, noneClass, declare, bind, StateT.bind, pure, StateT.pure, hown,
      Field.upsertAll, Field.upsert]
  rw [ClassifiedProgram.modelOf_of_class classDecl?_none rfl hbases hfields rfl]
  rfl

theorem noneModel_mem : noneModel ∈ noneProgram.catalog.allModels := by
  have hscope : noneProgram.modules.scopeIds = [a] := by cbv
  have hkind : noneProgram.kind a = .model := rfl
  have hadd : (Collection.addInScope noneProgram Collection.empty a).catalog.models = [noneModel] := by
    have hmodel := modelOf_none
    unfold Collection.addInScope
    rw [hkind]
    cases hrun : (noneProgram.modelOf a []).run Collection.empty.building with
    | mk model? building =>
        rw [show noneProgram.modelOf a [] Building.empty = (model?, building) from hrun] at hmodel
        dsimp only at hmodel ⊢
        rw [hmodel]
        rfl
  refine Catalog.mem_allModels_of_mem ?_
  rw [ClassifiedProgram.catalog, (Collection.close_keeps _ _ _).1, hscope]
  dsimp only [List.foldl]
  rw [hadd]
  exact List.mem_cons_self

end Sample

/-- A field of type `None` says `null`, and its type is not optional. -/
theorem none_is_not_optional :
    Program.classified [Sample.noneModule] = Sample.noneProgram ∧
    ∃ m ∈ Sample.noneProgram.catalog.allModels, ∃ f ∈ m.fields,
      f.type.SaysNull ∧ f.type.isOptional = false :=
  ⟨Sample.classified_noneModule, Sample.noneModel, Sample.noneModel_mem, Sample.noneField,
    List.mem_cons_self, .null, rfl⟩

end Resolution
end WireTypes
