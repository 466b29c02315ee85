import WireTypes.Proofs.Resolution.Applications
import WireTypes.Proofs.Resolution.ClassKinds
import WireTypes.Proofs.Resolution.Fields
import WireTypes.Proofs.Resolution.ResolutionOrder
import WireTypes.Proofs.Resolution.Substitution

/-!
# Instantiation — a generic model with arguments is the class with the arguments written into it

The fields of a generic model depend on the types of its parameters. They are those of a class that has
annotations of these types in place of the parameters, in its own annotations and in the arguments of its
bases.

- `ClassWritten`, `WrittenAs`: a class with annotations written into it for its parameters. A base without
  arguments stays as it is, so that no parameter occurs in it;
- `eq_of_writtenAs`: both classes have the same fields;
- `instantiation_is_substitution`: so have the models that are built for them, whatever was built before.
-/

namespace WireTypes
namespace Resolution

open Discovery Python

namespace ClassifiedProgram

variable (c : ClassifiedProgram)

/-! ## Classes with annotations written into them -/

/-- The name of a base without arguments or with them. -/
def baseName? : Expr → Option String
  | .name name => some name
  | .type (.subscript name _) => some name
  | _ => none

/-- The base that lists the type parameters, which is no class of the first version of pydantic. -/
def IsMarker (m : SourceModule) (base : Expr) : Prop :=
  ∃ name params qualified, base = .type (.subscript name params) ∧
    c.resolve m name = .external qualified ∧ External.shortName qualified = "Generic" ∧
      qualified.startsWith "pydantic.v1." = false

section

variable (args : TypeArgs) (m : SourceModule)

/-- What is written for a base: other arguments, if it is a model with arguments. -/
inductive BaseWritten : Expr → Expr → Prop
  | bare {name : String} : BaseWritten (.name name) (.name name)
  | applied {name : String} {params written : List TypeHint} :
      (∀ b, c.resolve m name = .classDef b → (c.kind b).isModel = true →
        List.Forall₂ (c.Written args Program.stepLimit m) params written) →
      BaseWritten (.type (.subscript name params)) (.type (.subscript name written))
  /-- Other expressions name no class, whatever is in them. -/
  | other {base written : Expr} :
      baseName? base = none → baseName? written = none → BaseWritten base written

/-- What is written for the bases of a class, which needs no list of its parameters any more. -/
inductive BasesWritten : List Expr → List Expr → Prop
  | nil : BasesWritten [] []
  | cons {base written : Expr} {rest others : List Expr} :
      c.BaseWritten args m base written → BasesWritten rest others →
      BasesWritten (base :: rest) (written :: others)
  | drop {base : Expr} {rest others : List Expr} :
      c.IsMarker m base → BasesWritten rest others → BasesWritten (base :: rest) others

/-- What is written for an annotated name. It stays what it was, a field or a class variable. -/
structure AttributeWritten (a written : Attribute) : Prop where
  name : written.name = a.name
  value : written.value = a.value
  classVar : c.isClassVar m written.hint = c.isClassVar m a.hint
  hint : isFieldName a.name = true → c.isClassVar m a.hint = false →
    c.Written args Program.stepLimit m a.hint written.hint

structure ComputedWritten (d written : Computed) : Prop where
  name : written.name = d.name
  docstring : written.docstring = d.docstring
  options : written.options = d.options
  returns : Option.Rel (c.Written args Program.stepLimit m) d.returns written.returns

/-- What is written for a class. -/
structure ClassWritten (d written : ClassDecl) : Prop where
  bases : c.BasesWritten args m d.bases written.bases
  attributes : List.Forall₂ (c.AttributeWritten args m) d.attributes written.attributes
  computed : List.Forall₂ (c.ComputedWritten args m) d.computed written.computed

end

/-- A class of the same module with annotations written into it. Of the bases without arguments, those
that are `bare` have no parameters that anything is written for. -/
inductive WrittenAs (bare : DefinitionId → Prop) (args : TypeArgs) : DefinitionId → DefinitionId → Prop
  | declared {id written : DefinitionId} {m : SourceModule} {d d' : ClassDecl} :
      c.modules.classDecl? id = some (m, d) → c.modules.classDecl? written = some (m, d') →
      c.ClassWritten args m d d' →
      (∀ name b, .name name ∈ d.bases → c.resolve m name = .classDef b → bare b →
        WrittenAs bare args b b) →
      WrittenAs bare args id written

/-- Classes with types for their parameters have the same fields. -/
def SameFields (x y : DefinitionId × TypeArgs) : Prop :=
  ∀ fields others, c.HasFields x.1 x.2 fields → c.HasFields y.1 y.2 others → fields = others

section

variable {c} {args : TypeArgs} {m : SourceModule}

theorem SameFields.refl (x : DefinitionId × TypeArgs) : c.SameFields x x := fun _ _ h h' => h.unique h'

/-! ## Bases -/

section

variable {base written : Expr} {bases others : List Expr}

theorem modelBase?_of_unnamed (h : baseName? base = none) : c.modelBase? m args base = pure none := by
  cases base with
  | name name => cases h
  | type hint =>
      cases hint with
      | subscript name params => cases h
      | _ => rfl
  | _ => rfl

theorem relates_modelBase? (h : c.BaseWritten args m base written)
    (hbare : ∀ name b, base = .name name → c.resolve m name = .classDef b → (c.kind b).isModel = true →
      c.SameFields (b, args) (b, [])) :
    Relates (Option.Rel c.SameFields) (c.modelBase? m args base) (c.modelBase? m [] written) := by
  cases h with
  | @bare name =>
      simp only [modelBase?]
      cases hresolve : c.resolve m name with
      | classDef b =>
          dsimp only
          by_cases hmodel : (c.kind b).isModel = true
          · rw [if_pos hmodel, if_pos hmodel]
            exact .pure (.some (hbare name b rfl hresolve hmodel))
          · rw [if_neg hmodel, if_neg hmodel]
            exact .pure .none
      | _ => exact .pure .none
  | @applied name params written hparams =>
      simp only [modelBase?]
      cases hresolve : c.resolve m name with
      | classDef b =>
          dsimp only
          by_cases hmodel : (c.kind b).isModel = true
          · rw [if_pos hmodel, if_pos hmodel]
            have htypes := relates_params (c.typeOf_applying m args) (c.typeOf_applying m [])
              ((hparams b hresolve hmodel).imp fun _ _ h => relates_of_written _ h)
            refine htypes.bind_pure ?_
            rintro types _ rfl
            exact .some (.refl (b, c.bindParameters b types))
          · rw [if_neg hmodel, if_neg hmodel]
            exact .pure .none
      | _ => exact .pure .none
  | other hbase hwritten =>
      rw [modelBase?_of_unnamed hbase, modelBase?_of_unnamed hwritten]
      exact .pure .none

theorem modelBase?_of_marker (h : c.IsMarker m base) : c.modelBase? m args base = pure none := by
  rcases h with ⟨name, params, qualified, rfl, hresolve, _, _⟩
  simp [modelBase?, hresolve]

theorem relates_modelBases (h : c.BasesWritten args m bases others)
    (hbare : ∀ name b, .name name ∈ bases → c.resolve m name = .classDef b → (c.kind b).isModel = true →
      c.SameFields (b, args) (b, [])) :
    Relates (List.Forall₂ c.SameFields) (bases.filterMapM (c.modelBase? m args))
      (others.filterMapM (c.modelBase? m [])) := by
  have hreads := c.modelBase?_applying m
  induction h with
  | nil => exact .pure .nil
  | cons hbase _ ih =>
      refine relates_filterMapM_cons (hreads args) (hreads []) (relates_modelBase? hbase ?_) (ih ?_)
      · exact fun name b hname => hbare name b (hname ▸ List.mem_cons_self)
      · exact fun name b hname => hbare name b (List.mem_cons_of_mem _ hname)
  | drop hmarker _ ih =>
      refine relates_filterMapM_drop (hreads args) ?_ (ih ?_)
      · rw [modelBase?_of_marker hmarker]
        exact .pure rfl
      · exact fun name b hname => hbare name b (List.mem_cons_of_mem _ hname)

theorem baseClass?_of_unnamed (h : baseName? base = none) : c.baseClass? m base = none := by
  cases base with
  | name name => cases h
  | type hint =>
      cases hint with
      | subscript name params => cases h
      | _ => rfl
  | _ => rfl

theorem baseClass?_of_written (h : c.BaseWritten args m base written) :
    c.baseClass? m written = c.baseClass? m base := by
  cases h with
  | bare => rfl
  | applied => rfl
  | other hbase hwritten => rw [baseClass?_of_unnamed hbase, baseClass?_of_unnamed hwritten]

theorem baseClass?_of_marker (h : c.IsMarker m base) : c.baseClass? m base = none := by
  rcases h with ⟨name, params, qualified, rfl, hresolve, _, _⟩
  simp [baseClass?, hresolve]

/-- The bases are the same classes. -/
theorem modelClasses_of_written (h : c.BasesWritten args m bases others) :
    c.modelClasses m others = c.modelClasses m bases := by
  have hclasses : others.filterMap (c.baseClass? m) = bases.filterMap (c.baseClass? m) := by
    induction h with
    | nil => rfl
    | cons hbase _ ih => rw [List.filterMap_cons, List.filterMap_cons, baseClass?_of_written hbase, ih]
    | drop hmarker _ ih => rw [List.filterMap_cons_none (baseClass?_of_marker hmarker), ih]
  rw [modelClasses, modelClasses, hclasses]

/-- What is asked of the names of bases is answered alike. -/
theorem any_of_written {f : Expr → Bool} (h : c.BasesWritten args m bases others)
    (happlied : ∀ name params written,
      f (.type (.subscript name params)) = f (.type (.subscript name written)))
    (hunnamed : ∀ base, baseName? base = none → f base = false)
    (hmarker : ∀ base, c.IsMarker m base → f base = false) : bases.any f = others.any f := by
  induction h with
  | nil => rfl
  | cons hbase _ ih =>
      rw [List.any_cons, List.any_cons, ih]
      cases hbase with
      | bare => rfl
      | applied => rw [happlied]
      | other hbase hwritten => rw [hunnamed _ hbase, hunnamed _ hwritten]
  | drop hbase _ ih => rw [List.any_cons, hmarker _ hbase, Bool.false_or, ih]

theorem isLegacy_of_written {id other : DefinitionId} {d d' : ClassDecl}
    (hdecl : c.modules.classDecl? id = some (m, d)) (hdecl' : c.modules.classDecl? other = some (m, d'))
    (h : c.BasesWritten args m d.bases d'.bases) (steps : Nat) :
    c.isLegacy steps id = c.isLegacy steps other := by
  cases steps with
  | zero => rfl
  | succ steps =>
      simp only [isLegacy, hdecl, hdecl']
      refine any_of_written h (fun _ _ _ => rfl) (fun base hbase => ?_) ?_
      · cases base with
        | name name => cases hbase
        | type hint =>
            cases hint with
            | subscript name params => cases hbase
            | _ => rfl
        | _ => rfl
      · rintro base ⟨name, params, qualified, rfl, hresolve, _, hlegacy⟩
        simp [hresolve, hlegacy]

end

/-! ## Fields -/

theorem relates_field? {a written : Attribute} (h : c.AttributeWritten args m a written)
    (isLegacy : Bool) :
    Relates (Option.Rel Eq) (c.field? m args isLegacy a) (c.field? m [] isLegacy written) := by
  unfold field?
  rw [h.name, h.classVar, h.value]
  cases hfield : !isFieldName a.name || c.isClassVar m a.hint with
  | true => exact .pure .none
  | false =>
      simp only [Bool.or_eq_false_iff, Bool.not_eq_false'] at hfield
      rw [if_neg Bool.false_ne_true, if_neg Bool.false_ne_true]
      refine (relates_of_written _ (h.hint hfield.1 hfield.2)).bind_pure ?_
      rintro type _ rfl
      exact .some rfl

theorem relates_computedField {d written : Computed} (h : c.ComputedWritten args m d written) :
    Relates Eq (c.computedField m args d) (c.computedField m [] written) := by
  unfold computedField
  rw [h.name, h.docstring, h.options]
  have hreturns := h.returns
  cases hd : d.returns with
  | none =>
      cases hwritten : written.returns with
      | none => exact .pure rfl
      | some hint => rw [hd, hwritten] at hreturns; cases hreturns
  | some hint =>
      cases hwritten : written.returns with
      | none => rw [hd, hwritten] at hreturns; cases hreturns
      | some hint' =>
          rw [hd, hwritten] at hreturns
          cases hreturns with
          | some hhint =>
              refine (relates_of_written _ hhint).bind_pure ?_
              rintro type _ rfl
              rfl

/-- The bases apart, a class reads the same fields. -/
theorem relates_fieldsOf_of_written {id other : DefinitionId} {d d' : ClassDecl}
    {models models' : List Model} (hdecl : c.modules.classDecl? id = some (m, d))
    (hdecl' : c.modules.classDecl? other = some (m, d')) (h : c.ClassWritten args m d d')
    (hmodels : models.map Model.fields = models'.map Model.fields) :
    Relates Eq (c.fieldsOf m id d args models) (c.fieldsOf m other d' [] models') := by
  refine relates_fieldsOf hmodels ?_ ?_
  · rw [isLegacy_of_written hdecl hdecl' h.bases]
    have hfields := relates_filterMapM (c.field?_applying m args _) (c.field?_applying m [] _)
      (h.attributes.imp fun _ _ ha => relates_field? ha (c.isLegacy Program.stepLimit other))
    rwa [List.forall₂_eq_eq_eq] at hfields
  · have hfields := relates_mapM (c.computedField_applying m args) (c.computedField_applying m [])
      (h.computed.imp fun _ _ hd => relates_computedField hd)
    rwa [List.forall₂_eq_eq_eq] at hfields

/-- A class has the fields that it has with annotations written into it, by induction on its bases without
arguments. -/
theorem eq_of_writtenAs {bare : DefinitionId → Prop} (hbare : ∀ b, (c.kind b).isModel = true → bare b)
    {id written : DefinitionId} (h : c.WrittenAs bare args id written) :
    c.SameFields (id, args) (written, []) := by
  induction h with
  | @declared id written m d d' hdecl hdecl' hclass _ ih =>
      rintro fields others hfields hothers
      cases hfields with
      | @declared _ _ _ _ bases models _ hdecl₁ hbases hlength hmodels hfields =>
          cases hothers with
          | @declared _ _ _ _ bases' models' _ hdecl₂ hbases' hlength' hmodels' hfields' =>
              cases hdecl.symm.trans hdecl₁
              cases hdecl'.symm.trans hdecl₂
              -- The bases have the same fields one by one.
              have hsame : List.Forall₂ c.SameFields bases bases' :=
                relates_modelBases hclass.bases (fun name b hname hb hmodel =>
                  ih name b hname hb (hbare b hmodel)) _ _ hbases hbases'
              have hmap : models.map Model.fields = models'.map Model.fields :=
                map_fields_eq (fun _ _ _ _ h hmodel hmodel' => h _ _ hmodel hmodel')
                  (List.forall₂_iff_zip.2 ⟨hlength, fun hmem => hmodels _ _ hmem⟩)
                  (List.forall₂_iff_zip.2 ⟨hlength', fun hmem => hmodels' _ _ hmem⟩) hsame
              exact relates_fieldsOf_of_written hdecl hdecl' hclass hmap _ _ hfields hfields'

/-! ## Models -/

theorem acc_of_writtenAs {bare : DefinitionId → Prop} {id written : DefinitionId}
    (h : c.WrittenAs bare args id written) (hends : Acc c.BaseOf id) : Acc c.BaseOf written := by
  rcases h with ⟨hdecl, hdecl', hclass, _⟩
  refine ⟨_, fun b hb => hends.inv ?_⟩
  rw [BaseOf, modelBasesOf_eq hdecl'] at hb
  rw [BaseOf, modelBasesOf_eq hdecl, ← modelClasses_of_written hclass.bases]
  exact hb

end

end ClassifiedProgram

/-- A generic model with arguments has the fields of the class with the arguments written into it. -/
theorem Program.instantiation_is_substitution {p : Program} {generic written : DefinitionId}
    {args : TypeArgs} {b b' : Building}
    (hwritten : p.classified.WrittenAs (fun x => (p.classified.kind x).isModel = true) args generic written)
    (hends : Acc p.classified.BaseOf generic) (hb : p.classified.Reached b)
    (hb' : p.classified.Reached b')
    (hroom : HasRoom (p.classified.modelOf generic args b).2.instances)
    (hroom' : HasRoom (p.classified.modelOf written [] b').2.instances) :
    ∃ model model', (p.classified.modelOf generic args b).1 = some model ∧
      (p.classified.modelOf written [] b').1 = some model' ∧ model.fields = model'.fields := by
  have hdeclared := p.classified_declared
  have hends' := ClassifiedProgram.acc_of_writtenAs hwritten hends
  have hclasses : (p.classDecl? generic).isSome ∧ (p.classDecl? written).isSome := by
    rcases hwritten with ⟨hdecl, hdecl', _, _⟩
    exact ⟨Option.isSome_of_eq_some hdecl, Option.isSome_of_eq_some hdecl'⟩
  rcases ClassifiedProgram.modelOf_hasFields hdeclared hb hends hclasses.1 hroom with
    ⟨model, hmodel, hfields⟩
  rcases ClassifiedProgram.modelOf_hasFields hdeclared hb' hends' hclasses.2 hroom' with
    ⟨model', hmodel', hfields'⟩
  exact ⟨model, model', hmodel, hmodel',
    ClassifiedProgram.eq_of_writtenAs (fun _ h => h) hwritten _ _ hfields hfields'⟩

/-! ## A generic model and the same written out -/

namespace Boxes

def declared (name : String) (bases : List Expr) (attributes : List Attribute) : ClassDecl where
  name
  bases
  keywords := []
  docstring := none
  attributes
  computed := []
  assignments := []
  config := none

def typeVariable : Expr := .call "TypeVar" [.literal (.str "T")] []

def marker : Expr := .type (.subscript "G" [.name "T"])

def itemOrNone : TypeHint := .union [.name "I", .name "None"]

def itemClass : ClassDecl := declared "I" [.name "M"] []

/-- No generic model, but it has a type variable in an annotation. -/
def notedClass : ClassDecl := declared "N" [.name "M"] [⟨"n", .name "T", none⟩]

def boxClass : ClassDecl := declared "B" [.name "M", marker] [⟨"b", .name "T", none⟩]

def pageClass : ClassDecl :=
  declared "P" [.type (.subscript "B" [.name "T"]), marker]
    [⟨"x", .union [.name "T", .name "None"], none⟩]

/-- `P` with `I | None` written into it for `T`. -/
def writtenPageClass : ClassDecl :=
  declared "W" [.type (.subscript "B" [itemOrNone])]
    [⟨"x", .union [.name "I", .name "None", .name "None"], none⟩]

def quoteClass : ClassDecl := declared "Q" [.name "N", marker] []

/-- `Q` with anything written into it for `T`. -/
def writtenQuoteClass : ClassDecl := declared "R" [.name "N"] []

def classes : List ClassDecl :=
  [itemClass, notedClass, boxClass, pageClass, writtenPageClass, quoteClass, writtenQuoteClass]

def source : SourceModule where
  key := ["m.py"]
  dotted := "m"
  packageDirectory := none
  content := {
    imports := [
      .names 0 (some "typing")
        [⟨"Generic", some "G"⟩, ⟨"TypeVar", none⟩, ⟨"ClassVar", some "C"⟩, ⟨"Tuple", some "U"⟩] false,
      .names 0 (some "pydantic") [⟨"BaseModel", some "M"⟩] false]
    classes
    aliases := [("T", typeVariable)] }
  bindings := [
    ("R", .classDef), ("Q", .classDef), ("W", .classDef), ("P", .classDef), ("B", .classDef),
    ("N", .classDef), ("I", .classDef), ("T", .alias typeVariable),
    ("M", .external "pydantic.BaseModel"), ("U", .external "typing.Tuple"),
    ("C", .external "typing.ClassVar"), ("TypeVar", .external "typing.TypeVar"),
    ("G", .external "typing.Generic")]
  stars := []
  inScope := true

def classOf (name : String) : DefinitionId := ⟨"/m.py", name⟩

def boxes : ClassifiedProgram :=
  ⟨[source],
    [(classOf "I", .model), (classOf "N", .model), (classOf "B", .genericModel),
      (classOf "P", .genericModel), (classOf "W", .model), (classOf "Q", .genericModel),
      (classOf "R", .model)]⟩

theorem aliasTarget?_typeVariable : aliasTarget? typeVariable = some .typeVar := by
  have hfunction : Expr.lastSegmentOf "TypeVar" = "TypeVar" := by
    simp only [Expr.lastSegmentOf, Text.splitOn_dot]
    decide
  simp [typeVariable, aliasTarget?, hfunction]

theorem resolve_parameter : boxes.resolve source "T" = .typeVar := by
  have hsplit : "T".splitOn "." = ["T"] := by
    rw [Text.splitOn_dot]
    rfl
  have hbinding : source.binding? "T" = some (.alias typeVariable) := rfl
  simp [ClassifiedProgram.resolve, Program.resolve, Program.stepLimit, Program.resolveAt, hsplit,
    Program.lookup, hbinding, aliasTarget?_typeVariable]

theorem resolve_base : boxes.resolve source "M" = .external "pydantic.BaseModel" := by cbv

theorem resolve_marker : boxes.resolve source "G" = .external "typing.Generic" := by cbv

theorem resolve_tuple : boxes.resolve source "U" = .external "typing.Tuple" := by cbv

theorem resolve_classVar : boxes.resolve source "C" = .external "typing.ClassVar" := by cbv

theorem resolve_item : boxes.resolve source "I" = .classDef (classOf "I") := by cbv

theorem resolve_noted : boxes.resolve source "N" = .classDef (classOf "N") := by cbv

theorem resolve_box : boxes.resolve source "B" = .classDef (classOf "B") := by cbv

theorem resolve_none : boxes.resolve source "None" = .external "None" := by cbv

theorem classIds_source : Program.classIds [source] =
    [classOf "I", classOf "N", classOf "B", classOf "P", classOf "W", classOf "Q", classOf "R"] := by
  cbv

theorem resolve_eq (name : String) :
    Program.resolve [source] source name = boxes.resolve source name := rfl

theorem baseClass?_base : boxes.baseClass? source (.name "M") = none := by
  simp [ClassifiedProgram.baseClass?, resolve_base]

theorem baseClass?_marker : boxes.baseClass? source marker = none := by
  simp [ClassifiedProgram.baseClass?, marker, resolve_marker]

theorem baseClass?_noted : boxes.baseClass? source (.name "N") = some (classOf "N") := by
  simp [ClassifiedProgram.baseClass?, resolve_noted]

theorem baseClass?_box (params : List TypeHint) :
    boxes.baseClass? source (.type (.subscript "B" params)) = some (classOf "B") := by
  simp [ClassifiedProgram.baseClass?, resolve_box]

theorem ancestryOf_base :
    Program.ancestryOf [source] boxes.kind source (.name "M") = ⟨.model, false⟩ := by
  simp only [Program.ancestryOf, Program.baseAncestry, resolve_eq, resolve_base]
  rfl

theorem ancestryOf_marker : Program.ancestryOf [source] boxes.kind source marker = ⟨.plain, true⟩ := by
  simp only [Program.ancestryOf, Program.baseAncestry, marker, resolve_eq, resolve_marker,
    ClassifiedProgram.shortName_generic]
  rfl

theorem ancestryOf_noted :
    Program.ancestryOf [source] boxes.kind source (.name "N") = ⟨.model, false⟩ := by
  simp only [Program.ancestryOf, Program.baseAncestry, resolve_eq, resolve_noted]
  rfl

theorem ancestryOf_box : Program.ancestryOf [source] boxes.kind source
    (.type (.subscript "B" [.name "T"])) = ⟨.model, true⟩ := by
  have hvars : Program.mentionsTypeVar [source] source (.name "T") = true := by
    simp [Program.mentionsTypeVar, Program.stepLimit, Program.typeVars, resolve_eq, resolve_parameter,
      Symbol.isTypeVar]
  simp only [Program.ancestryOf, Program.baseAncestry, resolve_eq, resolve_box, List.any_cons, hvars]
  rfl

theorem ancestryOf_box_item : Program.ancestryOf [source] boxes.kind source
    (.type (.subscript "B" [itemOrNone])) = ⟨.model, false⟩ := by
  have hvars : Program.mentionsTypeVar [source] source itemOrNone = false := by
    simp [Program.mentionsTypeVar, itemOrNone, Program.stepLimit, Program.typeVars, resolve_eq,
      resolve_item, resolve_none, Symbol.isTypeVar]
  simp only [Program.ancestryOf, Program.baseAncestry, resolve_eq, resolve_box, List.any_cons, hvars]
  rfl

/-- The class at a position is classified when those before it are. -/
theorem classifyNext_source (n : Nat) (id : DefinitionId) (d : ClassDecl) (bases : List DefinitionId)
    (ancestries : List Ancestry) (hdecl : Program.classDecl? [source] id = some (source, d))
    (hnew : (boxes.kinds.take n).lookup id = none)
    (hclasses : d.bases.filterMap (boxes.baseClass? source) = bases)
    (hknown : ∀ b ∈ bases, (boxes.kinds.take n).lookup b = some (boxes.kind b))
    (hancestries : d.bases.map (Program.ancestryOf [source] boxes.kind source) = ancestries)
    (hn : boxes.kinds[n]? = some (id, (ancestries.foldl Ancestry.add Ancestry.none).result)) :
    Program.classifyNext [source] (boxes.kinds.take n) id = boxes.kinds.take (n + 1) := by
  have hbases : ∀ base ∈ d.bases, ∀ b, boxes.baseClass? source base = some b →
      (boxes.kinds.take n).lookup b = some (boxes.kind b) := by
    intro base hbase b hb
    exact hknown b (hclasses ▸ List.mem_filterMap.2 ⟨base, hbase, hb⟩)
  rw [Program.classifyNext_of_known hnew hdecl hbases, Program.kindFrom, hancestries,
    List.take_add_one, hn]
  rfl

/-- The classes are classified one after the other, their bases before them. -/
theorem classKinds_source : Program.classKinds [source] = boxes.kinds := by
  have hitem := classifyNext_source 0 (classOf "I") itemClass [] [⟨.model, false⟩] rfl rfl
    (by simp [itemClass, declared, baseClass?_base]) (by decide)
    (by simp [itemClass, declared, ancestryOf_base]) rfl
  have hnoted := classifyNext_source 1 (classOf "N") notedClass [] [⟨.model, false⟩] rfl (by decide)
    (by simp [notedClass, declared, baseClass?_base]) (by decide)
    (by simp [notedClass, declared, ancestryOf_base]) rfl
  have hbox := classifyNext_source 2 (classOf "B") boxClass [] [⟨.model, false⟩, ⟨.plain, true⟩]
    rfl (by decide) (by simp [boxClass, declared, baseClass?_base, baseClass?_marker]) (by decide)
    (by simp [boxClass, declared, ancestryOf_base, ancestryOf_marker]) rfl
  have hpage := classifyNext_source 3 (classOf "P") pageClass [classOf "B"]
    [⟨.model, true⟩, ⟨.plain, true⟩] rfl (by decide)
    (by simp [pageClass, declared, baseClass?_box, baseClass?_marker]) (by decide)
    (by simp [pageClass, declared, ancestryOf_box, ancestryOf_marker]) rfl
  have hwritten := classifyNext_source 4 (classOf "W") writtenPageClass [classOf "B"]
    [⟨.model, false⟩] rfl (by decide) (by simp [writtenPageClass, declared, baseClass?_box]) (by decide)
    (by simp [writtenPageClass, declared, ancestryOf_box_item]) rfl
  have hquote := classifyNext_source 5 (classOf "Q") quoteClass [classOf "N"]
    [⟨.model, false⟩, ⟨.plain, true⟩] rfl (by decide)
    (by simp [quoteClass, declared, baseClass?_noted, baseClass?_marker]) (by decide)
    (by simp [quoteClass, declared, ancestryOf_noted, ancestryOf_marker]) rfl
  have hwrittenQuote := classifyNext_source 6 (classOf "R") writtenQuoteClass [classOf "N"]
    [⟨.model, false⟩] rfl (by decide) (by simp [writtenQuoteClass, declared, baseClass?_noted])
    (by decide) (by simp [writtenQuoteClass, declared, ancestryOf_noted]) rfl
  rw [Program.classKinds, classIds_source]
  simp only [List.foldl_cons, List.foldl_nil]
  rw [show ([] : List (DefinitionId × ClassKind)) = boxes.kinds.take 0 from rfl, hitem, hnoted, hbox,
    hpage, hwritten, hquote, hwrittenQuote]
  rfl

theorem classified_source : Program.classified [source] = boxes := by
  rw [Program.classified, classKinds_source]
  rfl

/-! ### Reading -/

section

variable (args : TypeArgs)

theorem modelBase?_base : boxes.modelBase? source args (.name "M") = pure none := by
  simp [ClassifiedProgram.modelBase?, resolve_base]

theorem modelBase?_marker : boxes.modelBase? source args marker = pure none := by
  simp [ClassifiedProgram.modelBase?, marker, resolve_marker]

theorem modelBase?_noted :
    boxes.modelBase? source args (.name "N") = pure (some (classOf "N", args)) := by
  have hmodel : (boxes.kind (classOf "N")).isModel = true := rfl
  simp [ClassifiedProgram.modelBase?, resolve_noted, hmodel]

theorem resolveType_parameter (steps : Nat) : boxes.resolveType (steps + 1) source args (.name "T") =
    pure ((args.get? "T").getD .any) := by
  simp [ClassifiedProgram.resolveType, ClassifiedProgram.namedType, resolve_parameter]

theorem resolveType_item (steps : Nat) : boxes.resolveType (steps + 1) source args (.name "I") =
    pure (.ref (classOf "I")) := by
  have hmodel : boxes.kind (classOf "I") = .model := rfl
  simp [ClassifiedProgram.resolveType, ClassifiedProgram.namedType, resolve_item, hmodel]

theorem resolveType_none (steps : Nat) : boxes.resolveType (steps + 1) source args (.name "None") =
    pure .null := by
  simp [ClassifiedProgram.resolveType]

end

def boxArgs : TypeArgs := [("T", .optional (.ref (classOf "I")))]

theorem hasFormed_boxArgs : boxArgs.HasFormed :=
  List.forall_mem_singleton.2 (FieldType.formedThroughout_iff.2
    ⟨rfl, List.forall_mem_singleton.2 (FieldType.formedThroughout_of_shallow rfl rfl)⟩)

theorem resolveType_itemOrNone (args : TypeArgs) (steps : Nat) :
    boxes.resolveType (steps + 2) source args itemOrNone = pure (.optional (.ref (classOf "I"))) := by
  rw [itemOrNone, ClassifiedProgram.resolveType_union]
  simp only [List.mapM_cons, List.mapM_nil, resolveType_item, resolveType_none]
  rfl

theorem yields_itemOrNone (steps : Nat) :
    Yields (boxes.resolveType (steps + 2) source [] itemOrNone) (.optional (.ref (classOf "I"))) := by
  rw [resolveType_itemOrNone]
  exact .pure _

theorem binds_parameter : boxes.Binds boxArgs source "T" (.optional (.ref (classOf "I"))) :=
  ⟨by decide, resolve_parameter, rfl⟩

theorem classDecl?_page : boxes.modules.classDecl? (classOf "P") = some (source, pageClass) := rfl

theorem classDecl?_writtenPage :
    boxes.modules.classDecl? (classOf "W") = some (source, writtenPageClass) := rfl

theorem written_page : boxes.WrittenAs (fun x => (boxes.kind x).isModel = true) boxArgs (classOf "P")
    (classOf "W") := by
  have hnone : boxes.Written boxArgs 32 source (.name "None") (.name "None") := by
    refine .name (fun h => ?_) fun _ _ h => ?_
    all_goals
      rw [resolve_none] at h
      cases h
  -- Two members are written for the parameter.
  have hmembers : List.Forall₂ (boxes.MemberWritten boxArgs 32 (boxes.Written boxArgs 32) source)
      [.name "T", .name "None"] [[.name "I", .name "None"], [.name "None"]] :=
    .cons (.several binds_parameter (by decide) (yields_itemOrNone _)) (.cons (.one hnone) .nil)
  refine .declared classDecl?_page classDecl?_writtenPage ⟨?_, ?_, ?_⟩ ?_
  · refine .cons (.applied fun _ _ _ => ?_) (.drop ?_ .nil)
    · exact .cons (.parameter binds_parameter (yields_itemOrNone _) (by simp [itemOrNone])) .nil
    · exact ⟨"G", [.name "T"], "typing.Generic", rfl, resolve_marker,
        ClassifiedProgram.shortName_generic, by cbv⟩
  · exact .cons ⟨rfl, rfl, rfl, fun _ _ => .union hmembers⟩ .nil
  · exact .nil
  · intro name b hname _ _
    simp [pageClass, declared, marker] at hname

/-! ### Room -/

theorem quiet_name (args : TypeArgs) (steps : Nat) :
    ∀ hint ∈ [TypeHint.name "T", .name "I", .name "None"],
      Quiet (boxes.resolveType (steps + 1) source args hint) := by
  simp only [List.forall_mem_cons, resolveType_parameter, resolveType_item, resolveType_none]
  exact ⟨.pure _, .pure _, .pure _, fun _ h => absurd h List.not_mem_nil⟩

theorem quiet_parameter (args : TypeArgs) : Quiet (boxes.typeOf source args (.name "T")) :=
  quiet_name args 32 _ List.mem_cons_self

theorem quiet_union (args : TypeArgs) {members : List TypeHint}
    (h : members ⊆ [.name "T", .name "I", .name "None"]) :
    Quiet (boxes.typeOf source args (.union members)) := by
  rw [ClassifiedProgram.typeOf, show Program.stepLimit = 32 + 1 from rfl,
    ClassifiedProgram.resolveType_union]
  exact (Quiet.mapM fun hint hmem => quiet_name args 31 hint (h hmem)).map _

theorem quiet_box (args : TypeArgs) {hint : TypeHint} (h : Quiet (boxes.typeOf source args hint)) :
    Quiet (boxes.modelBase? source args (.type (.subscript "B" [hint]))) := by
  simp only [ClassifiedProgram.modelBase?, resolve_box]
  exact (Quiet.mapM (List.forall_mem_singleton.2 h)).bind fun _ => .pure _

/-- The annotations name no generic model, and the arguments of bases neither. -/
theorem quiet_classes (args : TypeArgs) : ∀ d ∈ classes,
    (∀ base ∈ d.bases, Quiet (boxes.modelBase? source args base)) ∧
      (∀ a ∈ d.attributes, Quiet (boxes.typeOf source args a.hint)) ∧ d.computed = [] := by
  have hbase : Quiet (boxes.modelBase? source args (.name "M")) := modelBase?_base args ▸ .pure _
  have hmarker : Quiet (boxes.modelBase? source args marker) := modelBase?_marker args ▸ .pure _
  have hnoted : Quiet (boxes.modelBase? source args (.name "N")) := modelBase?_noted args ▸ .pure _
  have hbox := quiet_box args (quiet_parameter args)
  have hitem : Quiet (boxes.modelBase? source args (.type (.subscript "B" [itemOrNone]))) :=
    quiet_box args (quiet_union args (by simp))
  have hpage : Quiet (boxes.typeOf source args (.union [.name "T", .name "None"])) :=
    quiet_union args (by simp)
  have hwritten : Quiet (boxes.typeOf source args (.union [.name "I", .name "None", .name "None"])) :=
    quiet_union args (by simp)
  simp [classes, itemClass, notedClass, boxClass, pageClass, writtenPageClass, quoteClass,
    writtenQuoteClass, declared, hbase, hmarker, hnoted, quiet_parameter, hbox, hitem, hpage, hwritten]

theorem quiet_source : ∀ id m d, boxes.modules.classDecl? id = some (m, d) → ∀ args,
    (∀ base ∈ d.bases, Quiet (boxes.modelBase? m args base)) ∧
      ∀ bases, Quiet (boxes.fieldsOf m id d args bases) := by
  intro id m d hdecl args
  rcases ClassifiedProgram.classDecl?_spec hdecl with ⟨hm, _, hd, _⟩
  obtain rfl : m = source := List.mem_singleton.1 hm
  rcases quiet_classes args d hd with ⟨hbases, hattributes, hcomputed⟩
  refine ⟨hbases, fun _ => ClassifiedProgram.quiet_fieldsOf hattributes ?_⟩
  rw [hcomputed]
  exact fun f hf => absurd hf List.not_mem_nil

theorem hasRoom_modelOf (id : DefinitionId) (args : TypeArgs) :
    HasRoom (boxes.modelOf id args .empty).2.instances := by
  rw [ClassifiedProgram.modelOf, ClassifiedProgram.model_instances_of_quiet quiet_source]
  exact hasRoom_nil

/-! ### Bases -/

theorem acc_of_bases {id : DefinitionId} (h : ∀ b ∈ boxes.basesOf id, Acc boxes.BaseOf b) :
    Acc boxes.BaseOf id := ⟨_, fun b hb => h b (List.mem_of_mem_filter hb)⟩

theorem acc_box : Acc boxes.BaseOf (classOf "B") := by
  have hdecl : boxes.modules.classDecl? (classOf "B") = some (source, boxClass) := rfl
  refine acc_of_bases ?_
  simp [ClassifiedProgram.basesOf, hdecl, boxClass, declared, baseClass?_base, baseClass?_marker]

theorem acc_noted : Acc boxes.BaseOf (classOf "N") := by
  have hdecl : boxes.modules.classDecl? (classOf "N") = some (source, notedClass) := rfl
  refine acc_of_bases ?_
  simp [ClassifiedProgram.basesOf, hdecl, notedClass, declared, baseClass?_base]

theorem acc_page : Acc boxes.BaseOf (classOf "P") := by
  refine acc_of_bases ?_
  simp [ClassifiedProgram.basesOf, classDecl?_page, pageClass, declared, baseClass?_box,
    baseClass?_marker, acc_box]

/-! ### A base without arguments -/

def quoteArgs : TypeArgs := [("T", .ref (classOf "I"))]

theorem classDecl?_noted : boxes.modules.classDecl? (classOf "N") = some (source, notedClass) := rfl

theorem classDecl?_quote : boxes.modules.classDecl? (classOf "Q") = some (source, quoteClass) := rfl

theorem classDecl?_writtenQuote :
    boxes.modules.classDecl? (classOf "R") = some (source, writtenQuoteClass) := rfl

theorem isClassVar_parameter : boxes.isClassVar source (.name "T") = false := by
  simp [ClassifiedProgram.isClassVar, ClassifiedProgram.isClassVarWithin,
    ClassifiedProgram.isClassVarWithin.marks, resolve_parameter]

theorem hasFields_noted (args : TypeArgs) (hty : ((args.get? "T").getD .any).isOptional = false) :
    boxes.HasFields (classOf "N") args [.required "n" ((args.get? "T").getD .any)] := by
  have hread : boxes.typeOf source args (.name "T") [] = ((args.get? "T").getD .any, []) := by
    rw [ClassifiedProgram.typeOf, show Program.stepLimit = 32 + 1 from rfl, resolveType_parameter]
    rfl
  have hname : ClassifiedProgram.isFieldName "n" = true := by cbv
  have hfield := ClassifiedProgram.field?_of_type hname isClassVar_parameter hread hty
  have hfields : boxes.fieldsOf source (classOf "N") notedClass args [] [] =
      ([.required "n" ((args.get? "T").getD .any)], []) := by
    simp [ClassifiedProgram.fieldsOf, notedClass, declared, bind, StateT.bind, pure, StateT.pure, hfield,
      Field.upsertAll, Field.upsert]
  have hbases : notedClass.bases.filterMapM (boxes.modelBase? source args) = pure [] := by
    simp [notedClass, declared, List.filterMapM_cons, modelBase?_base]
  have hroom : HasRoom (boxes.fieldsOf source (classOf "N") notedClass args [] []).2 := by
    rw [hfields]
    exact hasRoom_nil
  have hyields := Yields.of_run hroom
  rw [hfields] at hyields
  exact .declared classDecl?_noted (.of_eq hbases) rfl (fun _ _ h => absurd h List.not_mem_nil) hyields

def notedModel (ty : FieldType) : Model where
  id := classOf "N"
  name := "N"
  qualname := "m.N"
  docs := none
  fields := [.required "n" ty]
  extra := none

theorem hasFields_of_noted {id : DefinitionId} {d : ClassDecl} {args : TypeArgs} {ty : FieldType}
    (hdecl : boxes.modules.classDecl? id = some (source, d)) (hattributes : d.attributes = [])
    (hcomputed : d.computed = [])
    (hbases : d.bases.filterMapM (boxes.modelBase? source args) = pure [(classOf "N", args)])
    (h : boxes.HasFields (classOf "N") args [.required "n" ty]) :
    boxes.HasFields id args [.required "n" ty] := by
  have hfields : boxes.fieldsOf source id d args [notedModel ty] = pure [.required "n" ty] := by
    simp only [ClassifiedProgram.fieldsOf, hattributes, hcomputed]
    rfl
  have hmodels : ∀ b model, (b, model) ∈ [(classOf "N", args)].zip [notedModel ty] →
      boxes.HasFields b.1 b.2 model.fields := by
    intro b model hmem
    obtain ⟨rfl, rfl⟩ : b = (classOf "N", args) ∧ model = notedModel ty := by simpa using hmem
    exact h
  exact .declared hdecl (.of_eq hbases) rfl hmodels (.of_eq hfields)

theorem acc_quote : Acc boxes.BaseOf (classOf "Q") := by
  refine acc_of_bases ?_
  simp [ClassifiedProgram.basesOf, classDecl?_quote, quoteClass, declared, baseClass?_noted,
    baseClass?_marker, acc_noted]

theorem acc_writtenQuote : Acc boxes.BaseOf (classOf "R") := by
  refine acc_of_bases ?_
  simp [ClassifiedProgram.basesOf, classDecl?_writtenQuote, writtenQuoteClass, declared, baseClass?_noted,
    acc_noted]

theorem hasFields_quote :
    boxes.HasFields (classOf "Q") quoteArgs [.required "n" (.ref (classOf "I"))] := by
  refine hasFields_of_noted classDecl?_quote rfl rfl ?_ (hasFields_noted quoteArgs rfl)
  simp [quoteClass, declared, List.filterMapM_cons, modelBase?_noted, modelBase?_marker]

theorem hasFields_writtenQuote : boxes.HasFields (classOf "R") [] [.required "n" .any] := by
  refine hasFields_of_noted classDecl?_writtenQuote rfl rfl ?_ (hasFields_noted [] rfl)
  simp [writtenQuoteClass, declared, List.filterMapM_cons, modelBase?_noted]

theorem written_quote : boxes.WrittenAs (fun x => boxes.kind x = .genericModel) quoteArgs (classOf "Q")
    (classOf "R") := by
  refine .declared classDecl?_quote classDecl?_writtenQuote ⟨?_, .nil, .nil⟩ ?_
  · refine .cons .bare (.drop ?_ .nil)
    exact ⟨"G", [.name "T"], "typing.Generic", rfl, resolve_marker,
      ClassifiedProgram.shortName_generic, by cbv⟩
  · intro name b hname hb hkind
    have hnoted : name = "N" := by simpa [quoteClass, declared, marker] using hname
    rw [hnoted, resolve_noted] at hb
    cases hb
    cases hkind

/-! ### Annotations that are no types -/

theorem shortName_tuple : External.shortName "typing.Tuple" = "Tuple" := by
  simp only [External.shortName, External.splitLast?, Text.splitOn_dot]
  decide

theorem shortName_classVar : External.shortName "typing.ClassVar" = "ClassVar" := by
  simp only [External.shortName, External.splitLast?, Text.splitOn_dot]
  decide

/-- A parameter with arguments of its own is not looked up. -/
theorem typeOf_applied_parameter (args : TypeArgs) (params : List TypeHint) :
    boxes.typeOf source args (.subscript "T" params) = pure (.unresolved "T") := by
  rw [ClassifiedProgram.typeOf, show Program.stepLimit = 32 + 1 from rfl, ClassifiedProgram.resolveType]
  simp only [ClassifiedProgram.subscriptType, resolve_parameter]

theorem typeOf_applied_item (params : List TypeHint) :
    boxes.typeOf source [] (.subscript "I" params) = pure (.ref (classOf "I")) := by
  have hmodel : boxes.kind (classOf "I") = .model := rfl
  rw [ClassifiedProgram.typeOf, show Program.stepLimit = 32 + 1 from rfl, ClassifiedProgram.resolveType]
  simp only [ClassifiedProgram.subscriptType, resolve_item, hmodel]

theorem typeOf_tuple (args : TypeArgs) (params : List TypeHint) :
    boxes.typeOf source args (.subscript "U" params) =
      Container.tuple.typeOf (boxes.resolveType (31 + 1) source args) "U" params := by
  have hnamed : Container.named? "Tuple" = some .tuple := rfl
  rw [ClassifiedProgram.typeOf, show Program.stepLimit = 31 + 1 + 1 from rfl,
    ClassifiedProgram.resolveType]
  simp only [ClassifiedProgram.subscriptType, resolve_tuple, shortName_tuple, hnamed]

theorem typeOf_pair (args : TypeArgs) :
    boxes.typeOf source args (.subscript "U" [.name "I", .name "T"]) =
      pure (.tuple [.ref (classOf "I"), (args.get? "T").getD .any] false) := by
  rw [typeOf_tuple, ClassifiedProgram.tuple_typeOf_of_ne "U" (by simp), List.mapM_cons, List.mapM_cons,
    List.mapM_nil, resolveType_item, resolveType_parameter]
  rfl

theorem typeOf_variadic : boxes.typeOf source [] (.subscript "U" [.name "I", .ellipsis]) =
    pure (.tuple [.ref (classOf "I")] true) := by
  rw [typeOf_tuple, Container.typeOf, resolveType_item]
  rfl

theorem isClassVar_classVar (params : List TypeHint) :
    boxes.isClassVar source (.subscript "C" params) = true := by
  simp [ClassifiedProgram.isClassVar, ClassifiedProgram.isClassVarWithin,
    ClassifiedProgram.isClassVarWithin.marks, resolve_classVar, shortName_classVar]

theorem pure_ne {α : Type} {a b : α} (h : a ≠ b) : (pure a : Resolving α) ≠ pure b :=
  fun heq => h (congrArg (fun act => (act []).1) heq)

end Boxes

/-- `P` with `T` bound to `I | None` has the fields of `W`. -/
theorem page_fields_eq_written : Program.classified [Boxes.source] = Boxes.boxes ∧
    Boxes.boxes.WrittenAs (fun x => (Boxes.boxes.kind x).isModel = true) Boxes.boxArgs (Boxes.classOf "P")
      (Boxes.classOf "W") ∧
    Acc Boxes.boxes.BaseOf (Boxes.classOf "P") ∧ Boxes.boxes.Reached .empty ∧
    HasRoom (Boxes.boxes.modelOf (Boxes.classOf "P") Boxes.boxArgs .empty).2.instances ∧
    HasRoom (Boxes.boxes.modelOf (Boxes.classOf "W") [] .empty).2.instances ∧
    ∃ model model', (Boxes.boxes.modelOf (Boxes.classOf "P") Boxes.boxArgs .empty).1 = some model ∧
      (Boxes.boxes.modelOf (Boxes.classOf "W") [] .empty).1 = some model' ∧
      model.fields = model'.fields := by
  refine ⟨Boxes.classified_source, Boxes.written_page, Boxes.acc_page, .empty,
    Boxes.hasRoom_modelOf _ _, Boxes.hasRoom_modelOf _ _, ?_⟩
  rw [← Boxes.classified_source]
  refine Program.instantiation_is_substitution ?_ ?_ .empty .empty ?_ ?_
  all_goals rw [Boxes.classified_source]
  · exact Boxes.written_page
  · exact Boxes.acc_page
  · exact Boxes.hasRoom_modelOf _ _
  · exact Boxes.hasRoom_modelOf _ _

/-- What is written into a class does not show in a base without arguments, which takes those of the class
although it is no generic model; and not where annotations are no types: in text, in front of arguments, or as
an ellipsis or a class variable. -/
theorem written_class_differs : Program.classified [Boxes.source] = Boxes.boxes ∧
    (Boxes.boxes.kind (Boxes.classOf "Q") = .genericModel ∧
      Boxes.boxes.WrittenAs (fun x => Boxes.boxes.kind x = .genericModel) Boxes.quoteArgs
        (Boxes.classOf "Q") (Boxes.classOf "R") ∧
      ∃ model model', (Boxes.boxes.modelOf (Boxes.classOf "Q") Boxes.quoteArgs .empty).1 = some model ∧
        (Boxes.boxes.modelOf (Boxes.classOf "R") [] .empty).1 = some model' ∧
        model.fields ≠ model'.fields) ∧
    Boxes.boxes.typeOf Boxes.source Boxes.quoteArgs (.other "(T, I)") ≠
      Boxes.boxes.typeOf Boxes.source [] (.other "(I, I)") ∧
    Boxes.boxes.typeOf Boxes.source Boxes.quoteArgs (.subscript "T" [.name "I"]) ≠
      Boxes.boxes.typeOf Boxes.source [] (.subscript "I" [.name "I"]) ∧
    (Boxes.boxes.typeOf Boxes.source [] .ellipsis = pure (.unresolved "...") ∧
      Boxes.boxes.typeOf Boxes.source [("T", .unresolved "...")] (.subscript "U" [.name "I", .name "T"]) ≠
        Boxes.boxes.typeOf Boxes.source [] (.subscript "U" [.name "I", .ellipsis])) ∧
    Boxes.boxes.isClassVar Boxes.source (.name "T") = false ∧
      Boxes.boxes.isClassVar Boxes.source (.subscript "C" [.name "I"]) = true := by
  have hdeclared : Boxes.boxes.Declared := Boxes.classified_source ▸ Program.classified_declared _
  refine ⟨Boxes.classified_source, ⟨rfl, Boxes.written_quote, ?_⟩, ?_, ?_, ⟨rfl, ?_⟩,
    Boxes.isClassVar_parameter, Boxes.isClassVar_classVar _⟩
  · rcases ClassifiedProgram.modelOf_hasFields hdeclared .empty Boxes.acc_quote rfl
      (Boxes.hasRoom_modelOf _ Boxes.quoteArgs) with ⟨model, hmodel, hfields⟩
    rcases ClassifiedProgram.modelOf_hasFields hdeclared .empty Boxes.acc_writtenQuote rfl
      (Boxes.hasRoom_modelOf _ []) with ⟨model', hmodel', hfields'⟩
    refine ⟨model, model', hmodel, hmodel', fun hsame => ?_⟩
    rw [hfields.unique Boxes.hasFields_quote, hfields'.unique Boxes.hasFields_writtenQuote] at hsame
    simp [Field.required] at hsame
  · exact Boxes.pure_ne (by simp [TypeHint.describe])
  · rw [Boxes.typeOf_applied_parameter, Boxes.typeOf_applied_item]
    exact Boxes.pure_ne (by simp)
  · rw [Boxes.typeOf_pair, Boxes.typeOf_variadic]
    exact Boxes.pure_ne (by simp)

end Resolution
end WireTypes
