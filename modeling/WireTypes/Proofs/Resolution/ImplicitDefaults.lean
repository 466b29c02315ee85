import WireTypes.Proofs.Resolution.KnownReferences
import WireTypes.Proofs.Resolution.ResolutionOrder
import WireTypes.Proofs.Resolution.Yields
import WireTypes.Proofs.Text.Segments

/-!
# Implicit defaults — fields that are `None` when they are left out

In models of the first version of pydantic a field that admits `None` may be left out, unless its right
side gives another default or says that there is none.

- `LegacyWithin`: a chain of bases leads to the first version of pydantic;
- `GivesDefault`, `MarksRequired`: what the right side of a field says of its default;
- `defaultsToNone_iff`: when a field is given the implicit default;
- `model_founded`: every field of a model is computed, or declared by a class above;
- `modelOf_implicitDefault_iff`: when the fields of a model have the defaults of the first version.
-/

namespace WireTypes

/-- `None` is a value of the type. -/
inductive FieldType.AdmitsNone : FieldType → Prop
  | null : AdmitsNone .null
  | any : AdmitsNone .any
  | optional (inner : FieldType) : AdmitsNone (.optional inner)
  | union {members : List FieldType} : .any ∈ members → AdmitsNone (.union members)

theorem FieldType.AdmitsNone.of_isOptional {type : FieldType} (h : type.isOptional = true) :
    type.AdmitsNone := by
  cases type with
  | optional inner => exact .optional inner
  | _ => cases h

namespace Resolution

open Discovery Python

/-! ## The right side of a field -/

/-- The right side says that there is no default: it is `...`, or a call of `Field` whose first argument
or `default` is `...`. -/
inductive MarksRequired : Option Expr → Prop
  | ellipsis : MarksRequired (some .ellipsis)
  | positional {function : String} (rest : List Expr) (named : List (String × Expr)) :
      Expr.lastSegmentOf function = "Field" →
      MarksRequired (some (.call function (.ellipsis :: rest) named))
  | keyword {function : String} {named : List (String × Expr)} :
      Expr.lastSegmentOf function = "Field" → Expr.named? "default" named = some .ellipsis →
      MarksRequired (some (.call function [] named))

/-- The right side gives a default, or a function that makes one. -/
inductive GivesDefault : Option Expr → Prop
  | value {e : Expr} : e ≠ .ellipsis → FieldOptions.ofValue? e = none → GivesDefault (some e)
  | positional {function : String} {e : Expr} (rest : List Expr) (named : List (String × Expr)) :
      Expr.lastSegmentOf function = "Field" → e ≠ .ellipsis →
      GivesDefault (some (.call function (e :: rest) named))
  | keyword {function : String} {named : List (String × Expr)} {e : Expr} :
      Expr.lastSegmentOf function = "Field" → Expr.named? "default" named = some e → e ≠ .ellipsis →
      GivesDefault (some (.call function [] named))
  | factory {function : String} (args : List Expr) {named : List (String × Expr)} :
      Expr.lastSegmentOf function = "Field" → (Expr.named? "default_factory" named).isSome →
      GivesDefault (some (.call function args named))

/-- The field is `None` when it is left out, and its right side does not say so. -/
def DefaultsToNone (value : Option Expr) (f : Field) : Prop :=
  ¬ GivesDefault value ∧ f.default = .literal .null

section

variable {value : Option Expr} {function : String} {args : List Expr} {named : List (String × Expr)}

theorem ofValue?_call (hfunction : Expr.lastSegmentOf function = "Field") :
    FieldOptions.ofValue? (.call function args named) = some (args, named) := by
  rw [FieldOptions.ofValue?, if_pos hfunction]

theorem ofValue?_eq_some {e : Expr} (h : FieldOptions.ofValue? e = some (args, named)) :
    ∃ function, e = .call function args named ∧ Expr.lastSegmentOf function = "Field" := by
  cases e with
  | call function args' named' =>
      rw [FieldOptions.ofValue?] at h
      split at h
      · cases h
        exact ⟨function, rfl, ‹_›⟩
      · cases h
  | _ => cases h

theorem default_of_not_givesDefault (hfunction : Expr.lastSegmentOf function = "Field")
    (hvalue : ¬ GivesDefault (some (.call function args named))) :
    FieldOptions.default args named = .required := by
  have hfactory : (Expr.named? "default_factory" named).isSome = false := by
    rw [← Bool.not_eq_true]
    exact fun h => hvalue (.factory args hfunction h)
  unfold FieldOptions.default FieldOptions.defaultArgument?
  cases args with
  | nil =>
      cases hdefault : Expr.named? "default" named with
      | none => simp [hfactory]
      | some e =>
          by_cases he : e = .ellipsis
          · simp [he]
          · exact absurd (.keyword hfunction hdefault he) hvalue
  | cons e rest =>
      by_cases he : e = .ellipsis
      · simp [he]
      · exact absurd (.positional rest named hfunction he) hvalue

/-- A field whose right side gives no default is required, the implicit default left out. -/
theorem fieldOf_default (name : String) (type : FieldType) (hvalue : ¬ GivesDefault value) :
    (fieldOf name type value).default = .required := by
  cases value with
  | none => rfl
  | some e =>
      by_cases he : e = .ellipsis
      · rw [he]
        rfl
      · cases hcall : FieldOptions.ofValue? e with
        | none => exact absurd (.value he hcall) hvalue
        | some call =>
            obtain ⟨args, named⟩ := call
            obtain ⟨function, rfl, hfunction⟩ := ofValue?_eq_some hcall
            simpa [fieldOf, hcall] using default_of_not_givesDefault hfunction hvalue

theorem isEllipsis_iff {e : Expr} : isEllipsis e = true ↔ e = .ellipsis := by
  cases e <;> simp [isEllipsis]

theorem isMarkedRequired_iff : isMarkedRequired value = true ↔ MarksRequired value := by
  constructor
  · intro h
    unfold isMarkedRequired at h
    split at h
    · exact .ellipsis
    · rename_i e _
      cases hcall : FieldOptions.ofValue? e with
      | none => simp [hcall] at h
      | some call =>
          obtain ⟨args, named⟩ := call
          obtain ⟨function, rfl, hfunction⟩ := ofValue?_eq_some hcall
          rw [hcall] at h
          -- The first argument counts, and the one of that name if there is none.
          cases args with
          | nil =>
              obtain ⟨e, hdefault, he⟩ := (Option.any_eq_true _ _).1 h
              exact .keyword hfunction (isEllipsis_iff.1 he ▸ hdefault)
          | cons e rest =>
              have he : e = .ellipsis := isEllipsis_iff.1 h
              subst he
              exact .positional rest named hfunction
    · cases h
  · rintro (_ | ⟨rest, named, hfunction⟩ | ⟨hfunction, hdefault⟩)
    · rfl
    · simp [isMarkedRequired, ofValue?_call hfunction, FieldOptions.defaultArgument?, isEllipsis]
    · simp [isMarkedRequired, ofValue?_call hfunction, FieldOptions.defaultArgument?, hdefault,
        isEllipsis]

end

/-! ## Chains of bases -/

namespace ClassifiedProgram

variable (c : ClassifiedProgram)

/-- The name that a base is given by, with arguments or without. -/
inductive BaseName : Expr → String → Prop
  | bare (name : String) : BaseName (.name name) name
  | applied (name : String) (params : List TypeHint) : BaseName (.type (.subscript name params)) name

/-- A chain of bases leads to the first version of pydantic, over so many classes at most. -/
inductive LegacyWithin : Nat → DefinitionId → Prop
  | root {steps : Nat} {id : DefinitionId} {m : SourceModule} {d : ClassDecl} {base : Expr}
      {name qualified : String} :
      c.modules.classDecl? id = some (m, d) → base ∈ d.bases → BaseName base name →
      c.resolve m name = .external qualified → qualified.startsWith "pydantic.v1." = true →
      LegacyWithin (steps + 1) id
  | base {steps : Nat} {b id : DefinitionId} :
      b ∈ c.basesOf id → LegacyWithin steps b → LegacyWithin (steps + 1) id

def ReachesLegacy (id : DefinitionId) : Prop := ∃ steps, c.LegacyWithin steps id

section

variable {c} {m : SourceModule} {id b : DefinitionId}

theorem BaseName.baseClass?_iff {base : Expr} {name : String} (h : BaseName base name) :
    c.baseClass? m base = some b ↔ c.resolve m name = .classDef b := by
  cases h <;> cases hresolve : c.resolve m name <;> simp [baseClass?, hresolve]

theorem exists_baseName {base : Expr} (h : c.baseClass? m base = some b) :
    ∃ name, BaseName base name := by
  cases base with
  | name name => exact ⟨name, .bare name⟩
  | type hint =>
      cases hint with
      | subscript name params => exact ⟨name, .applied name params⟩
      | _ => cases h
  | _ => cases h

/-- A base leads to the first version by its name, or by the class of that name. -/
theorem isLegacy_succ {steps : Nat} {d : ClassDecl} (hdecl : c.modules.classDecl? id = some (m, d)) :
    c.isLegacy (steps + 1) id = true ↔
      ∃ base ∈ d.bases, ∃ name, BaseName base name ∧
        ((∃ qualified, c.resolve m name = .external qualified ∧
            qualified.startsWith "pydantic.v1." = true) ∨
          ∃ b, c.resolve m name = .classDef b ∧ c.isLegacy steps b = true) := by
  rw [isLegacy, hdecl]
  dsimp only
  rw [List.any_eq_true]
  refine exists_congr fun base => and_congr_right fun _ => ⟨fun h => ?_, ?_⟩
  · cases base with
    | name name =>
        refine ⟨name, .bare name, ?_⟩
        cases hresolve : c.resolve m name <;> simp_all
    | type hint =>
        cases hint with
        | subscript name params =>
            refine ⟨name, .applied name params, ?_⟩
            cases hresolve : c.resolve m name <;> simp_all
        | _ => cases h
    | _ => cases h
  · rintro ⟨name, _ | _, ⟨qualified, hresolve, hlegacy⟩ | ⟨b, hresolve, hlegacy⟩⟩
    all_goals simp [hresolve, hlegacy]

/-- The search for the first version finds what a chain of so many classes leads to. -/
theorem isLegacy_iff (steps : Nat) : ∀ id, c.isLegacy steps id = true ↔ c.LegacyWithin steps id := by
  induction steps with
  | zero =>
      intro id
      constructor
      · intro h
        cases h
      · intro h
        cases h
  | succ steps ih =>
      intro id
      cases hdecl : c.modules.classDecl? id with
      | none =>
          -- A class that is not declared has no bases.
          constructor
          · intro h
            simp [isLegacy, hdecl] at h
          · rintro (⟨hdecl', -⟩ | ⟨hb, -⟩)
            · cases hdecl.symm.trans hdecl'
            · simp [basesOf, hdecl] at hb
      | some decl =>
          obtain ⟨m, d⟩ := decl
          rw [isLegacy_succ hdecl]
          constructor
          · rintro ⟨base, hbase, name, hname, ⟨q, hresolve, hq⟩ | ⟨b, hresolve, hb⟩⟩
            · exact .root hdecl hbase hname hresolve hq
            · exact .base ((mem_basesOf hdecl).2 ⟨base, hbase, hname.baseClass?_iff.2 hresolve⟩)
                ((ih b).1 hb)
          · rintro (⟨hdecl', hbase, hname, hresolve, hq⟩ | ⟨hb, hlegacy⟩)
            · cases hdecl.symm.trans hdecl'
              exact ⟨_, hbase, _, hname, .inl ⟨_, hresolve, hq⟩⟩
            · obtain ⟨base, hbase, hclass⟩ := (mem_basesOf hdecl).1 hb
              obtain ⟨name, hname⟩ := exists_baseName hclass
              exact ⟨base, hbase, name, hname,
                .inr ⟨_, hname.baseClass?_iff.1 hclass, (ih _).2 hlegacy⟩⟩

theorem ReachesLegacy.below (h : c.ReachesLegacy b) (hbase : Relation.ReflTransGen c.BaseOf b id) :
    c.ReachesLegacy id := by
  induction hbase with
  | refl => exact h
  | tail _ hstep ih =>
      obtain ⟨steps, hsteps⟩ := ih
      exact ⟨steps + 1, .base (List.mem_of_mem_filter hstep) hsteps⟩

end

/-! ## Fields of classes -/

/-- A field that is given no default gets `None` if its class belongs to the first version and its type
is optional. -/
theorem defaultsToNone_iff (value : Option Expr) (isLegacy : Bool) (name : String)
    (type : FieldType) :
    DefaultsToNone value (withImplicitDefault isLegacy value (fieldOf name type value)) ↔
      isLegacy = true ∧ type.isOptional = true ∧ ¬ GivesDefault value ∧ ¬ MarksRequired value := by
  have htype : (fieldOf name type value).type = type := type_fieldOf ..
  rw [← isMarkedRequired_iff]
  constructor
  · rintro ⟨hvalue, hdefault⟩
    have hrequired := fieldOf_default name type hvalue
    by_cases hcondition : (isLegacy && type.isOptional && !isMarkedRequired value) = true
    · simp only [Bool.and_eq_true, Bool.not_eq_true', ← Bool.not_eq_true] at hcondition
      exact ⟨hcondition.1.1, hcondition.1.2, hvalue, hcondition.2⟩
    -- Nothing else makes a default of a right side that gives none.
    · have hsame : withImplicitDefault isLegacy value (fieldOf name type value)
          = fieldOf name type value := by
        unfold withImplicitDefault
        rw [htype, hrequired, if_neg]
        simpa [FieldDefault.isRequired] using hcondition
      rw [hsame, hrequired] at hdefault
      cases hdefault
  · rintro ⟨hlegacy, hoptional, hvalue, hmarked⟩
    have hrequired := fieldOf_default name type hvalue
    refine ⟨hvalue, ?_⟩
    simp [withImplicitDefault, htype, hrequired, hlegacy, hoptional, hmarked,
      FieldDefault.isRequired]

/-- An annotation of a class declares the field. -/
def Declares (owner : DefinitionId) (a : Attribute) (f : Field) : Prop :=
  ∃ m d args known, c.modules.classDecl? owner = some (m, d) ∧ a ∈ d.attributes ∧
    (c.field? m args (c.isLegacy Program.stepLimit owner) a known).1 = some f

/-- A field of a class is computed, or an annotation of the class or of a model above declares it. -/
def Originates (id : DefinitionId) (f : Field) : Prop :=
  f.computed = true ∨ ∃ owner a, Relation.ReflTransGen c.BaseOf owner id ∧ c.Declares owner a f

/-- The first version gives the field the default `None`. -/
structure HasImplicitDefault (owner : DefinitionId) (a : Attribute) (f : Field) : Prop where
  reaches : c.ReachesLegacy owner
  admits : f.type.AdmitsNone
  ungiven : ¬ GivesDefault a.value
  unmarked : ¬ MarksRequired a.value

section

variable {c} {id : DefinitionId} {f : Field}

/-- What the first version makes of the default, against what the class says. -/
theorem Declares.defaultsToNone_iff {owner : DefinitionId} {a : Attribute}
    (h : c.Declares owner a f) :
    DefaultsToNone a.value f ↔ c.LegacyWithin Program.stepLimit owner ∧ f.type.isOptional = true ∧
      ¬ GivesDefault a.value ∧ ¬ MarksRequired a.value := by
  obtain ⟨m, d, args, known, hdecl, ha, hfield⟩ := h
  obtain ⟨type, rfl⟩ : ∃ type, f = withImplicitDefault (c.isLegacy Program.stepLimit owner) a.value
      (fieldOf a.name type a.value) := by
    unfold field? at hfield
    split at hfield
    · cases hfield
    · exact ⟨_, (Option.some.inj hfield).symm⟩
  rw [ClassifiedProgram.defaultsToNone_iff, isLegacy_iff, type_withImplicitDefault, type_fieldOf]

theorem Originates.above {b : DefinitionId} (h : c.Originates b f) (hbase : c.BaseOf b id) :
    c.Originates id f := by
  rcases h with hcomputed | ⟨owner, a, habove, hdeclares⟩
  · exact .inl hcomputed
  · exact .inr ⟨owner, a, habove.tail hbase, hdeclares⟩

theorem computedField_computed (m : SourceModule) (args : TypeArgs) (d : Computed) :
    Always (fun f => f.computed = true) (c.computedField m args d) := by
  intro known
  unfold computedField
  cases d.returns <;> rfl

/-- The fields of a class come from its own annotations and from its bases. -/
theorem fieldsOf_originates {m : SourceModule} {d : ClassDecl} (args : TypeArgs) {bases : List Model}
    (hdecl : c.modules.classDecl? id = some (m, d))
    (hbases : ∀ base ∈ bases, ∀ f ∈ base.fields, c.Originates id f) :
    Always (fun fields => ∀ f ∈ fields, c.Originates id f) (c.fieldsOf m id d args bases) := by
  have hown : Always (fun own => ∀ f ∈ own, c.Originates id f)
      (d.attributes.filterMapM (c.field? m args (c.isLegacy Program.stepLimit id))) :=
    Always.filterMapM fun a ha known f hf => .inr ⟨id, a, .refl, m, d, args, known, hdecl, ha, hf⟩
  have hcomputed : Always (fun fs => ∀ f ∈ fs, f.computed = true)
      (d.computed.mapM (c.computedField m args)) :=
    Always.mapM (c.computedField_computed m args) d.computed
  unfold fieldsOf
  refine hown.bind fun own hown => hcomputed.bind fun computed hcomputed => .pure fun f hf => ?_
  rcases mem_upsertAll hf with hf | hf
  · exact .inl (hcomputed f hf)
  · rcases mem_upsertAll hf with hf | hf
    · exact hown f hf
    · rcases mem_inherited hf with ⟨base, hbase, hf⟩ | hf
      · exact hbases base (List.mem_reverse.1 hbase) f hf
      · exact absurd hf List.not_mem_nil

end

/-! ## Models -/

/-- The fields of all models that are kept come from their classes. -/
def Founded (b : Building) : Prop :=
  ∀ id model, b.finished.lookup id = some model → ∀ f ∈ model.fields, c.Originates id f

/-- What a run for a class does: what is kept stays founded, and so is the model. -/
def BuildsFounded (id : DefinitionId) (act : StateM Building (Option Model)) : Prop :=
  ∀ b, c.Founded b → c.Founded (act b).2 ∧
    ∀ model, (act b).1 = some model → ∀ f ∈ model.fields, c.Originates id f

section

variable {c} {id : DefinitionId} {args : TypeArgs} {b : Building}

theorem Founded.remember {model : Model} (h : c.Founded b)
    (hmodel : ∀ f ∈ model.fields, c.Originates id f) : c.Founded (remember id args model b).2 := by
  cases args with
  | cons a rest => exact h
  | nil =>
      intro x kept hkept
      rw [lookup_remember] at hkept
      split at hkept
      · cases hkept
        subst x
        exact hmodel
      · exact h x kept hkept

/-- The bases of a class are founded, if classes are that are built with one step less. -/
theorem baseModels_founded {depth : Nat} {above : List DefinitionId} (m : SourceModule)
    (args : TypeArgs) (hmodel : ∀ id args, c.BuildsFounded id (c.model depth above id args)) :
    ∀ (bases : List Expr) (b : Building), c.Founded b →
      c.Founded (c.baseModels depth above m args bases b).2 ∧
      ∀ model ∈ (c.baseModels depth above m args bases b).1, ∃ x ∈ c.modelClasses m bases,
        ∀ f ∈ model.fields, c.Originates x f := by
  intro bases
  induction bases with
  | nil => exact fun b hb => ⟨hb, fun _ h => absurd h List.not_mem_nil⟩
  | cons base rest ih =>
      intro b hb
      rcases modelBase?_spec m args base b.instances with
        ⟨hnone, -⟩ | ⟨x, types, hsome, hclass, hkind, -⟩
      · rw [baseModels_of_none hnone]
        obtain ⟨hlast, hrest⟩ := ih { b with instances := (c.modelBase? m args base b.instances).2 } hb
        refine ⟨hlast, fun model hmem => ?_⟩
        obtain ⟨y, hy, hfields⟩ := hrest model hmem
        exact ⟨y, mem_modelClasses_cons hy, hfields⟩
      · rw [baseModels_of_some hsome]
        obtain ⟨hbuilt, hfirst⟩ :=
          hmodel x types { b with instances := (c.modelBase? m args base b.instances).2 } hb
        obtain ⟨hlast, hrest⟩ := ih _ hbuilt
        refine ⟨hlast, fun model hmem => ?_⟩
        rcases List.mem_append.1 hmem with hmem | hmem
        · refine ⟨x, ?_, hfirst model (Option.mem_toList.1 hmem)⟩
          rw [modelClasses_cons_of_model hclass hkind]
          exact List.mem_cons_self
        · obtain ⟨y, hy, hfields⟩ := hrest model hmem
          exact ⟨y, mem_modelClasses_cons hy, hfields⟩

/-- Every field of a model comes from a class, by induction on the steps that are left. -/
theorem model_founded (depth : Nat) : ∀ (above : List DefinitionId) (id : DefinitionId)
    (args : TypeArgs), c.BuildsFounded id (c.model depth above id args) := by
  induction depth with
  | zero => exact fun _ _ _ b hb => ⟨hb, fun _ h => by cases h⟩
  | succ depth ih =>
      intro above id args b hb
      cases hknown : (if args.isEmpty then b.finished.lookup id else none) with
      | some kept =>
          rw [model_of_known hknown]
          refine ⟨hb, fun model hmodel => ?_⟩
          cases hmodel
          split at hknown
          · exact hb id kept hknown
          · cases hknown
      | none =>
          by_cases habove : id ∈ above
          · rw [model_of_above hknown habove]
            exact ⟨hb, fun _ h => by cases h⟩
          · cases hdecl : c.modules.classDecl? id with
            | none =>
                rw [model_of_no_class hknown habove hdecl]
                exact ⟨hb, fun _ h => by cases h⟩
            | some decl =>
                obtain ⟨m, d⟩ := decl
                obtain ⟨hbuilt, hbases⟩ := baseModels_founded m args
                  (ih (id :: above)) d.bases b hb
                rw [model_of_class hknown habove hdecl]
                have hinherited : ∀ base ∈ (c.baseModels depth (id :: above) m args d.bases b).1,
                    ∀ f ∈ base.fields, c.Originates id f := by
                  intro base hbase f hf
                  obtain ⟨x, hx, hfields⟩ := hbases base hbase
                  rw [← modelBasesOf_eq hdecl] at hx
                  exact (hfields f hf).above hx
                have hfields := fieldsOf_originates args hdecl hinherited
                  (c.baseModels depth (id :: above) m args d.bases b).2.instances
                refine ⟨Founded.remember hbuilt hfields, fun model hmodel => ?_⟩
                cases hmodel
                exact hfields

theorem Reached.founded (h : c.Reached b) : c.Founded b := by
  induction h with
  | empty =>
      intro id model hmodel
      cases hmodel
  | built id args _ ih => exact (model_founded _ [] id args _ ih).1

/-- A field has the default of the first version exactly if the chain of bases is short enough to be
found and the type is an optional one. Without a chain no field has it. -/
theorem Declares.implicitDefault_iff {owner : DefinitionId} {a : Attribute} {f : Field}
    (h : c.Declares owner a f) :
    ((DefaultsToNone a.value f ↔ c.HasImplicitDefault owner a f) ↔
      (c.HasImplicitDefault owner a f →
        c.LegacyWithin Program.stepLimit owner ∧ f.type.isOptional = true)) ∧
    (DefaultsToNone a.value f → c.HasImplicitDefault owner a f) := by
  have hrule := h.defaultsToNone_iff
  have hsound : DefaultsToNone a.value f → c.HasImplicitDefault owner a f := by
    intro hnone
    obtain ⟨hlegacy, hoptional, hvalue, hmarked⟩ := hrule.1 hnone
    exact ⟨⟨_, hlegacy⟩, .of_isOptional hoptional, hvalue, hmarked⟩
  refine ⟨⟨fun hiff himplicit => ?_, fun hfound => ⟨hsound, fun himplicit => ?_⟩⟩, hsound⟩
  · obtain ⟨hlegacy, hoptional, -⟩ := hrule.1 (hiff.2 himplicit)
    exact ⟨hlegacy, hoptional⟩
  · obtain ⟨hlegacy, hoptional⟩ := hfound himplicit
    exact hrule.2 ⟨hlegacy, hoptional, himplicit.ungiven, himplicit.unmarked⟩

/-- The annotated fields of a model have the defaults of the first version exactly if those of them
that should be `None` are optional, in classes whose chain of bases is found. No field of a class without
such a chain is given an implicit default, and what is given one is not required. -/
theorem modelOf_implicitDefault_iff {model : Model} {f : Field} (hb : c.Reached b)
    (hmodel : (c.modelOf id args b).1 = some model) (hf : f ∈ model.fields)
    (hannotated : f.computed = false) :
    ∃ owner a, Relation.ReflTransGen c.BaseOf owner id ∧ c.Declares owner a f ∧
      ((DefaultsToNone a.value f ↔ c.HasImplicitDefault owner a f) ↔
        (c.HasImplicitDefault owner a f →
          c.LegacyWithin Program.stepLimit owner ∧ f.type.isOptional = true)) ∧
      (DefaultsToNone a.value f → c.ReachesLegacy owner ∧ c.ReachesLegacy id ∧
        f.default.isRequired = false) := by
  have hbuilt := (model_founded c.modules.classDepth [] id args b hb.founded).2 model hmodel f hf
  rcases hbuilt with hcomputed | ⟨owner, a, habove, hdeclares⟩
  · rw [hannotated] at hcomputed
    cases hcomputed
  · obtain ⟨hiff, hsound⟩ := hdeclares.implicitDefault_iff
    refine ⟨owner, a, habove, hdeclares, hiff, fun hnone => ?_⟩
    have hlegacy := (hsound hnone).reaches
    refine ⟨hlegacy, hlegacy.below habove, ?_⟩
    rw [hnone.2]
    rfl

end

end ClassifiedProgram

/-! ## A field of any type -/

namespace Sample

def anyAttribute : Attribute := ⟨"x", .name "T", none⟩

/-- A model of the first version with a field of any type. -/
def legacyModule : SourceModule where
  key := ["m.py"]
  dotted := "m"
  packageDirectory := none
  content := {
    imports := [
      .names 0 (some "typing") [⟨"Any", some "T"⟩] false,
      .names 0 (some "pydantic.v1") [⟨"BaseModel", some "M"⟩] false]
    classes := [declare "A" ["M"] [anyAttribute]]
    aliases := [] }
  bindings := [
    ("A", .classDef), ("M", .external "pydantic.v1.BaseModel"), ("T", .external "typing.Any")]
  stars := []
  inScope := true

def legacy : ClassifiedProgram := ⟨[legacyModule], [(a, .model)]⟩

def anyField : Field := .required "x" .any

def legacyModel : Model := ⟨a, "A", "m.A", none, [anyField], none⟩

theorem classified_legacyModule : Program.classified [legacyModule] = legacy := by cbv

theorem classDecl?_legacy : legacy.modules.classDecl? a =
    some (legacyModule, declare "A" ["M"] [anyAttribute]) := rfl

theorem resolve_legacyBase :
    legacy.resolve legacyModule "M" = .external "pydantic.v1.BaseModel" := by cbv

theorem field?_any (isLegacy : Bool) (known : List Instance) :
    legacy.field? legacyModule [] isLegacy anyAttribute known = (some anyField, known) := by
  have hresolve : legacy.resolve legacyModule "T" = .external "typing.Any" := by cbv
  have hshort : External.shortName "typing.Any" = "Any" := by
    simp only [External.shortName, External.splitLast?, Text.splitOn_dot]
    decide
  have hscalar : External.scalar? "Any" = some .any := rfl
  have hclassVar : legacy.isClassVar legacyModule (.name "T") = false := by
    simp [ClassifiedProgram.isClassVar, ClassifiedProgram.isClassVarWithin,
      ClassifiedProgram.isClassVarWithin.marks, hresolve, hshort]
  have htype : legacy.typeOf legacyModule [] (.name "T") known = (.any, known) := by
    simp [ClassifiedProgram.typeOf, Program.stepLimit, ClassifiedProgram.resolveType,
      ClassifiedProgram.namedType, hresolve, hshort, hscalar, pure, StateT.pure]
  exact ClassifiedProgram.field?_of_type (by cbv) hclassVar htype rfl isLegacy

theorem modelOf_legacy : (legacy.modelOf a [] Building.empty).1 = some legacyModel := by
  have hbases : ∀ base ∈ (declare "A" ["M"] [anyAttribute]).bases, ∀ known,
      legacy.modelBase? legacyModule [] base known = (none, known) := by
    intro base hbase known
    rw [List.mem_singleton.1 hbase]
    simp only [ClassifiedProgram.modelBase?, resolve_legacyBase]
    rfl
  have hfields : legacy.fieldsOf legacyModule a (declare "A" ["M"] [anyAttribute]) [] [] []
      = ([anyField], []) := by
    have hown := field?_any (legacy.isLegacy Program.stepLimit a) []
    simp [ClassifiedProgram.fieldsOf, declare, bind, StateT.bind, pure, StateT.pure, hown,
      Field.upsertAll, Field.upsert]
  rw [ClassifiedProgram.modelOf_of_class classDecl?_legacy rfl hbases hfields rfl]
  rfl

theorem declares_any : legacy.Declares a anyAttribute anyField :=
  ⟨_, _, [], [], classDecl?_legacy, List.mem_singleton_self _, by rw [field?_any]⟩

theorem legacyWithin_any : legacy.LegacyWithin 1 a :=
  .root classDecl?_legacy (List.mem_singleton_self _) (.bare "M") resolve_legacyBase (by cbv)

theorem hasImplicitDefault_any : legacy.HasImplicitDefault a anyAttribute anyField where
  reaches := ⟨1, legacyWithin_any⟩
  admits := .any
  ungiven := nofun
  unmarked := nofun

end Sample

theorem any_implicitDefault_iff :
    Sample.legacy.Reached .empty ∧
    (Sample.legacy.modelOf Sample.a [] .empty).1 = some Sample.legacyModel ∧
    Sample.anyField ∈ Sample.legacyModel.fields ∧ Sample.anyField.computed = false ∧
    ∃ owner a, Sample.legacy.Declares owner a Sample.anyField ∧
      ((DefaultsToNone a.value Sample.anyField ↔
          Sample.legacy.HasImplicitDefault owner a Sample.anyField) ↔
        (Sample.legacy.HasImplicitDefault owner a Sample.anyField →
          Sample.legacy.LegacyWithin Program.stepLimit owner ∧
            Sample.anyField.type.isOptional = true)) := by
  have hmem : Sample.anyField ∈ Sample.legacyModel.fields := List.mem_singleton_self _
  obtain ⟨owner, a, -, hdeclares, hiff, -⟩ :=
    ClassifiedProgram.modelOf_implicitDefault_iff .empty Sample.modelOf_legacy hmem rfl
  exact ⟨.empty, Sample.modelOf_legacy, hmem, rfl, owner, a, hdeclares, hiff⟩

/-- A field of any type admits `None`, and it is required all the same. -/
theorem any_is_required :
    Program.classified [Sample.legacyModule] = Sample.legacy ∧
    (Sample.legacy.modelOf Sample.a [] .empty).1 = some Sample.legacyModel ∧
    Sample.anyField ∈ Sample.legacyModel.fields ∧
    Sample.legacy.Declares Sample.a Sample.anyAttribute Sample.anyField ∧
    Sample.legacy.HasImplicitDefault Sample.a Sample.anyAttribute Sample.anyField ∧
    Sample.anyField.default = .required := by
  have hmem : Sample.anyField ∈ Sample.legacyModel.fields := List.mem_singleton_self _
  exact ⟨Sample.classified_legacyModule, Sample.modelOf_legacy, hmem, Sample.declares_any,
    Sample.hasImplicitDefault_any, rfl⟩

end Resolution
end WireTypes
