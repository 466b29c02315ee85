import WireTypes.Proofs.Resolution.Inheritance
import WireTypes.Resolution.Collection

/-!
# ResolutionOrder — inheritance along the method resolution order

A model inherits in order if it has the fields and the policy of the first classes of its method
resolution order that declare them. It is built depth first, and that order is another one where several
bases share a base.

- `modelOf_inherits_iff`: a model inherits in order exactly if both orders lead to the same declarations;
- `modelOf_inherits_of_nodup`: they do where no class is met twice;
- `diamond_inherits_out_of_order`: in a diamond, a declaration of the second base is lost.
-/

namespace WireTypes
namespace Resolution

open Discovery Python

namespace ClassifiedProgram

variable (c : ClassifiedProgram)

/-- A model has the fields that the classes of an order declare, and their policy: the first class
counts that declares the field or sets a policy. -/
structure Inherits (known : List Instance) (order : List DefinitionId) (model : Model) : Prop where
  fields : ∀ name f, c.firstField? known order name = some f →
    Field.named? model.fields name = some f
  extra : ∀ policy, c.firstExtra? order = some policy → model.extra = some policy

/-- The models among the classes of an order. -/
def modelsOf (order : List DefinitionId) : List DefinitionId :=
  order.filter fun id => (c.kind id).isModel

/-- What the first class of an order declares, the first class of another order declares the same way. -/
structure Agrees (known : List Instance) (order walk : List DefinitionId) : Prop where
  fields : ∀ name f, c.firstField? known order name = some f → c.firstField? known walk name = some f
  extra : ∀ policy, c.firstExtra? order = some policy → c.firstExtra? walk = some policy

section

variable {c} {id : DefinitionId} {mro : List DefinitionId} {b : Building}

theorem mem_basesOf_of_modelBasesOf (id base : DefinitionId) (h : base ∈ c.modelBasesOf id) :
    base ∈ c.basesOf id :=
  (List.mem_filter.1 h).1

theorem exists_depthFirst (h : Linearizes c.basesOf id mro) :
    ∃ order, DepthFirst c.modelBasesOf id order := by
  have hacc : Acc (fun base x => base ∈ c.modelBasesOf x) id :=
    Subrelation.accessible (fun {base x} hbase => mem_basesOf_of_modelBasesOf x base hbase) h.acc
  exact DepthFirst.exists_of_acc hacc

/-- A model inherits along the method resolution order exactly if a walk depth first through the models
above its class meets the same declarations first. -/
theorem modelOf_inherits_iff (hb : c.Reached b) (hclass : (c.modules.classDecl? id).isSome)
    (hmro : Linearizes c.basesOf id mro) (hplain : ∀ x ∈ mro, c.Unapplied x) :
    ∃ model b' walk, c.modelOf id [] b = (some model, b') ∧ DepthFirst c.modelBasesOf id walk ∧
      (c.Inherits b'.instances (c.modelsOf mro) model ↔
        c.Agrees b'.instances (c.modelsOf mro) walk) := by
  rcases exists_depthFirst hmro with ⟨walk, hwalk⟩
  -- The walk stays within the method resolution order, so that its classes have no applied bases either.
  have hmem := hmro.mem_of_depthFirst mem_basesOf_of_modelBasesOf hwalk
  rcases modelOf_inherits_depthFirst hb hclass hwalk fun x hx => hplain x (hmem x hx) with
    ⟨model, b', hmodel, hfields, hextra⟩
  refine ⟨model, b', walk, hmodel, hwalk, ?_, ?_⟩
  · intro hinherits
    refine ⟨?_, ?_⟩
    · intro name f hfirst
      rw [← hfields]
      exact hinherits.fields name f hfirst
    · intro policy hfirst
      rw [← hextra]
      exact hinherits.extra policy hfirst
  · intro hagrees
    refine ⟨?_, ?_⟩
    · intro name f hfirst
      rw [hfields]
      exact hagrees.fields name f hfirst
    · intro policy hfirst
      rw [hextra]
      exact hagrees.extra policy hfirst

/-- Where no class is met twice, the walk is the method resolution order, and a model inherits along it. -/
theorem modelOf_inherits_of_nodup {walk : List DefinitionId} (hb : c.Reached b)
    (hclass : (c.modules.classDecl? id).isSome) (hwalk : DepthFirst c.modelBasesOf id walk)
    (hnodup : walk.Nodup) (hplain : ∀ x ∈ walk, c.Unapplied x) :
    Linearizes c.modelBasesOf id walk ∧
      ∃ model b', c.modelOf id [] b = (some model, b') ∧ c.Inherits b'.instances walk model := by
  rcases modelOf_inherits_depthFirst hb hclass hwalk hplain with
    ⟨model, b', hmodel, hfields, hextra⟩
  refine ⟨linearizes_of_nodup hwalk hnodup, model, b', hmodel, ?_, ?_⟩
  · intro name f hfirst
    calc
      Field.named? model.fields name = c.firstField? b'.instances walk name := hfields name
      _ = some f := hfirst
  · intro policy hfirst
    calc
      model.extra = c.firstExtra? walk := hextra
      _ = some policy := hfirst

end

/-! ## The models of a catalog -/

section

variable {c}

theorem Reached.referenced {b : Building} (h : c.Reached b) (id : DefinitionId) :
    c.Reached (c.referenced id b).2 := by
  cases hknown : b.instances.find? (·.id == id) with
  | none =>
      rw [referenced_of_no_instance hknown]
      by_cases hmodel : c.kind id = .model
      · rw [if_pos hmodel]
        exact h.built id []
      · rw [if_neg hmodel]
        exact h
  | some i =>
      cases hdecl : c.modules.classDecl? i.generic with
      | none =>
          rw [referenced_of_no_class hknown hdecl]
          exact h
      | some decl =>
          rcases decl with ⟨m, d⟩
          rw [referenced_of_instance hknown hdecl]
          exact h.built i.generic i.args

theorem addInScope_reached {s : Collection} (h : c.Reached s.building) (id : DefinitionId) :
    c.Reached (Collection.addInScope c s id).building := by
  unfold Collection.addInScope
  cases c.kind id with
  | model =>
      cases hmodel : (c.modelOf id []).run s.building with
      | mk model? building =>
          have hbuilding : c.Reached building := by
            have hnext := h.built id []
            have hstate : (c.modelOf id [] s.building).2 = building := congrArg Prod.snd hmodel
            rwa [hstate] at hnext
          cases model? with
          | some model => exact hbuilding
          | none => exact hbuilding
  | enum => cases c.enumeration? id <;> exact h
  | strEnum => cases c.enumeration? id <;> exact h
  | genericModel => exact h
  | plain => exact h

theorem addReferenced_reached {s : Collection} (h : c.Reached s.building) (id : DefinitionId) :
    c.Reached (Collection.addReferenced c s id).1.building := by
  have hbuilding : c.Reached ((c.referenced id).run s.building).2 := h.referenced id
  unfold Collection.addReferenced
  cases hmodel : (c.referenced id).run s.building with
  | mk model? building =>
      rw [hmodel] at hbuilding
      cases model? with
      | some model => exact hbuilding
      | none => cases c.enumeration? id <;> exact hbuilding

theorem foldl_addInScope_reached (ids : List DefinitionId) {s : Collection} (h : c.Reached s.building) :
    c.Reached (ids.foldl (Collection.addInScope c) s).building := by
  induction ids generalizing s with
  | nil => exact h
  | cons id rest ih => exact ih (addInScope_reached h id)

theorem close_reached (budget : Nat) (s : Collection) (queue : List DefinitionId)
    (h : c.Reached s.building) : c.Reached (Collection.close c budget s queue).building := by
  fun_induction Collection.close c budget s queue with
  | case1 => exact h
  | case2 _ _ _ _ _ ih => exact ih h
  | case3 => exact h
  | case4 s id rest hnew budget next refs hstep ih =>
      have hnext := addReferenced_reached h id
      rw [hstep] at hnext
      exact ih hnext

/-- While a catalog is collected, models are only built one after the other: first those of the classes in
scope, and then those that are referred to. -/
theorem collection_reached (ids queue : List DefinitionId) (budget : Nat) :
    c.Reached (Collection.close c budget
      (ids.foldl (Collection.addInScope c) Collection.empty) queue).building :=
  close_reached budget _ queue (foldl_addInScope_reached ids .empty)

end

/-! ## Simple declarations -/

section

variable {c} {m : SourceModule} {name target : String} {id : DefinitionId} {d : ClassDecl}

/-- A required field with an annotation and nothing else. -/
theorem field?_of_type {args : TypeArgs} {hint : TypeHint} {type : FieldType}
    {known later : List Instance} (hname : isFieldName name = true)
    (hclassVar : c.isClassVar m hint = false) (htype : c.typeOf m args hint known = (type, later))
    (hrequired : type.isOptional = false) (isLegacy : Bool) :
    c.field? m args isLegacy ⟨name, hint, none⟩ known = (some (Field.required name type), later) := by
  have hfield : fieldOf name type none = Field.required name type := rfl
  simp [field?, hname, hclassVar, htype, hfield, withImplicitDefault, bind, StateT.bind, pure,
    StateT.pure, Field.required, hrequired]

/-- A field whose type is a model without parameters. -/
theorem field?_of_model (hname : isFieldName name = true) (hresolve : c.resolve m target = .classDef id)
    (hkind : c.kind id = .model) (htarget : target ≠ "None") (args : TypeArgs) (isLegacy : Bool)
    (known : List Instance) :
    c.field? m args isLegacy ⟨name, .name target, none⟩ known =
      (some (Field.required name (.ref id)), known) := by
  -- The annotation is no marker of class variables, and stands for the model itself.
  have hclassVar : c.isClassVar m (.name target) = false := by
    simp [isClassVar, isClassVarWithin, isClassVarWithin.marks, hresolve]
  have htype : c.typeOf m args (.name target) known = (.ref id, known) := by
    simp [typeOf, Program.stepLimit, resolveType, htarget, namedType, hresolve, hkind, pure,
      StateT.pure]
  exact field?_of_type hname hclassVar htype rfl isLegacy

/-- The model of a class none of whose bases is a model. -/
theorem modelOf_of_class {args : TypeArgs} {b : Building} {fields : List Field}
    {later : List Instance} (hdecl : c.modules.classDecl? id = some (m, d))
    (hknown : (if args.isEmpty then b.finished.lookup id else none) = none)
    (hbases : ∀ base ∈ d.bases, ∀ known, c.modelBase? m args base known = (none, known))
    (hfields : c.fieldsOf m id d args [] b.instances = (fields, later))
    (hpolicy : c.ownPolicy? m d = none) :
    c.modelOf id args b =
      (let model : Model := ⟨id, d.name, Program.qualname m d.name, d.docstring, fields, none⟩
       (some model, (remember id args model { b with instances := later }).2)) := by
  have hnone : ∀ bases : List Expr,
      (∀ base ∈ bases, ∀ known, c.modelBase? m args base known = (none, known)) →
      ∀ depth above, c.baseModels depth above m args bases b = ([], b) := by
    intro bases
    induction bases with
    | nil => exact fun _ _ _ => rfl
    | cons base rest ih =>
        intro h depth above
        have hbase := h base List.mem_cons_self b.instances
        rw [baseModels_of_none (by rw [hbase]), hbase]
        exact ih (fun x hx => h x (List.mem_cons_of_mem _ hx)) depth above
  rw [modelOf, Program.classDepth, model_of_class hknown List.not_mem_nil hdecl]
  simp only [hnone d.bases hbases, assemble_eq, hfields, hpolicy]
  rfl

theorem ownFields_of_no_attributes (hdecl : c.modules.classDecl? id = some (m, d))
    (hattributes : d.attributes = []) (hcomputed : d.computed = []) (known : List Instance) :
    c.ownFields known id = [] := by
  rw [ownFields, hdecl]
  simp only [fieldsOf, hattributes, hcomputed]
  rfl

theorem ownFields_of_attribute {a : Attribute} {f : Field} {known : List Instance}
    (hdecl : c.modules.classDecl? id = some (m, d)) (hattributes : d.attributes = [a])
    (hcomputed : d.computed = [])
    (hfield : c.field? m [] (c.isLegacy Program.stepLimit id) a known = (some f, known)) :
    c.ownFields known id = [f] := by
  rw [ownFields, hdecl]
  simp only [fieldsOf, hattributes, hcomputed]
  simp [bind, StateT.bind, pure, StateT.pure, hfield, Field.upsertAll, Field.upsert]

end

end ClassifiedProgram

/-! ## A diamond -/

namespace Sample

def declare (name : String) (bases : List String) (attributes : List Attribute) : ClassDecl where
  name
  bases := bases.map Expr.name
  keywords := []
  docstring := none
  attributes
  computed := []
  assignments := []
  config := none

/-- `D` has the bases `B` and `C`, whose base is `A`. The field of `A` is declared again by `C`. -/
def diamondModule : SourceModule where
  key := ["m.py"]
  dotted := "m"
  packageDirectory := none
  content := {
    imports := [.names 0 (some "pydantic") [⟨"BaseModel", some "M"⟩] false]
    classes := [
      declare "A" ["M"] [⟨"x", .name "A", none⟩],
      declare "B" ["A"] [],
      declare "C" ["A"] [⟨"x", .name "C", none⟩],
      declare "D" ["B", "C"] []]
    aliases := [] }
  bindings := [
    ("D", .classDef), ("C", .classDef), ("B", .classDef), ("A", .classDef),
    ("M", .external "pydantic.BaseModel")]
  stars := []
  inScope := true

def a : DefinitionId := ⟨"/m.py", "A"⟩

def b : DefinitionId := ⟨"/m.py", "B"⟩

def c : DefinitionId := ⟨"/m.py", "C"⟩

def d : DefinitionId := ⟨"/m.py", "D"⟩

def diamond : ClassifiedProgram :=
  ⟨[diamondModule], [(a, .model), (b, .model), (c, .model), (d, .model)]⟩

theorem classified_diamondModule : Program.classified [diamondModule] = diamond := by cbv

theorem resolve_base : diamond.resolve diamondModule "M" = .external "pydantic.BaseModel" := by cbv

theorem resolve_a : diamond.resolve diamondModule "A" = .classDef a := by cbv

theorem resolve_b : diamond.resolve diamondModule "B" = .classDef b := by cbv

theorem resolve_c : diamond.resolve diamondModule "C" = .classDef c := by cbv

theorem classDecl?_a : diamond.modules.classDecl? a =
    some (diamondModule, declare "A" ["M"] [⟨"x", .name "A", none⟩]) := rfl

theorem classDecl?_b : diamond.modules.classDecl? b =
    some (diamondModule, declare "B" ["A"] []) := rfl

theorem classDecl?_c : diamond.modules.classDecl? c =
    some (diamondModule, declare "C" ["A"] [⟨"x", .name "C", none⟩]) := rfl

theorem classDecl?_d : diamond.modules.classDecl? d =
    some (diamondModule, declare "D" ["B", "C"] []) := rfl

theorem basesOf_a : diamond.basesOf a = [] := by
  simp [ClassifiedProgram.basesOf, classDecl?_a, declare, ClassifiedProgram.baseClass?, resolve_base]

theorem basesOf_b : diamond.basesOf b = [a] := by
  simp [ClassifiedProgram.basesOf, classDecl?_b, declare, ClassifiedProgram.baseClass?, resolve_a]

theorem basesOf_c : diamond.basesOf c = [a] := by
  simp [ClassifiedProgram.basesOf, classDecl?_c, declare, ClassifiedProgram.baseClass?, resolve_a]

theorem basesOf_d : diamond.basesOf d = [b, c] := by
  simp [ClassifiedProgram.basesOf, classDecl?_d, declare, ClassifiedProgram.baseClass?, resolve_b,
    resolve_c]

theorem ownFields_a (known : List Instance) :
    diamond.ownFields known a = [.required "x" (.ref a)] :=
  ClassifiedProgram.ownFields_of_attribute classDecl?_a rfl rfl
    (ClassifiedProgram.field?_of_model (by cbv) resolve_a (by decide) (by decide) _ _ _)

theorem ownFields_b (known : List Instance) : diamond.ownFields known b = [] :=
  ClassifiedProgram.ownFields_of_no_attributes classDecl?_b rfl rfl known

theorem ownFields_c (known : List Instance) :
    diamond.ownFields known c = [.required "x" (.ref c)] :=
  ClassifiedProgram.ownFields_of_attribute classDecl?_c rfl rfl
    (ClassifiedProgram.field?_of_model (by cbv) resolve_c (by decide) (by decide) _ _ _)

theorem ownFields_d (known : List Instance) : diamond.ownFields known d = [] :=
  ClassifiedProgram.ownFields_of_no_attributes classDecl?_d rfl rfl known

/-- The orders of the classes of the diamond. -/
def resolutionOrder (id : DefinitionId) : List DefinitionId :=
  if id = d then [d, b, c, a] else if id = a then [a] else [id, a]

theorem linearizes_diamond : Linearizes diamond.basesOf d [d, b, c, a] := by
  have ha : Linearizes diamond.basesOf a [a] := by
    refine .merge resolutionOrder ?_ ?_
    · rw [basesOf_a]
      exact fun x hx => absurd hx List.not_mem_nil
    · rw [basesOf_a]
      exact .done (by decide)
  -- Both sides of the diamond have the top as their only base.
  have hside : ∀ x, diamond.basesOf x = [a] → Linearizes diamond.basesOf x [x, a] := by
    intro x hx
    refine .merge resolutionOrder ?_ ?_
    · rw [hx]
      intro y hy
      rw [List.mem_singleton.1 hy]
      exact ha
    · rw [hx]
      exact .step (by decide) (.done (by decide))
  refine .merge resolutionOrder ?_ ?_
  · rw [basesOf_d]
    intro x hx
    rcases List.mem_cons.1 hx with rfl | hx
    · exact hside b basesOf_b
    · rw [List.mem_singleton.1 hx]
      exact hside c basesOf_c
  · rw [basesOf_d]
    exact .step (by decide) (.step (by decide) (.step (by decide) (.done (by decide))))

theorem unapplied_diamond : ∀ x ∈ [d, b, c, a], diamond.Unapplied x := by
  -- All bases of the diamond are bare names.
  have hnames : ∀ (name : String) (bases : List String) (attributes : List Attribute),
      ∀ base ∈ (declare name bases attributes).bases, diamond.IsUnapplied diamondModule base := by
    intro name bases attributes base hbase target params hsubscript
    rcases List.mem_map.1 hbase with ⟨other, _, rfl⟩
    cases hsubscript
  have hall : ∀ x decl, diamond.modules.classDecl? x = some decl →
      (∃ name bases attributes, decl = (diamondModule, declare name bases attributes)) →
      diamond.Unapplied x := by
    rintro x decl hdecl ⟨name, bases, attributes, rfl⟩ m' d' hdecl'
    rw [hdecl] at hdecl'
    cases hdecl'
    exact hnames name bases attributes
  intro x hx
  simp only [List.mem_cons, List.not_mem_nil, or_false] at hx
  rcases hx with rfl | rfl | rfl | rfl
  · exact hall d _ classDecl?_d ⟨_, _, _, rfl⟩
  · exact hall b _ classDecl?_b ⟨_, _, _, rfl⟩
  · exact hall c _ classDecl?_c ⟨_, _, _, rfl⟩
  · exact hall a _ classDecl?_a ⟨_, _, _, rfl⟩

theorem modelBasesOf_diamond {x : DefinitionId} {bases : List DefinitionId}
    (hbases : diamond.basesOf x = bases) (hmodels : diamond.modelsOf bases = bases) :
    diamond.modelBasesOf x = bases := by
  rw [ClassifiedProgram.modelBasesOf, hbases]
  exact hmodels

/-- The walk meets `A` before `C`. -/
theorem depthFirst_diamond : DepthFirst diamond.modelBasesOf d [d, b, a, c, a] := by
  have ha : DepthFirst diamond.modelBasesOf a [a] := by
    refine .of_bases (modelBasesOf_diamond basesOf_a rfl) resolutionOrder ?_ rfl
    exact fun x hx => absurd hx List.not_mem_nil
  have hside : ∀ x, diamond.basesOf x = [a] → DepthFirst diamond.modelBasesOf x [x, a] := by
    intro x hx
    refine .of_bases (modelBasesOf_diamond hx (by decide)) resolutionOrder ?_ (by decide)
    intro y hy
    rw [List.mem_singleton.1 hy]
    exact ha
  refine .of_bases (modelBasesOf_diamond basesOf_d (by decide)) resolutionOrder ?_ (by decide)
  intro x hx
  rcases List.mem_cons.1 hx with rfl | hx
  · exact hside b basesOf_b
  · rw [List.mem_singleton.1 hx]
    exact hside c basesOf_c

end Sample

/-- The field of `D` is that of `A`, although `C` is before `A`. -/
theorem diamond_inherits_out_of_order :
    Sample.diamond = Program.classified [Sample.diamondModule] ∧
      Linearizes Sample.diamond.basesOf Sample.d [Sample.d, Sample.b, Sample.c, Sample.a] ∧
      (∀ x ∈ [Sample.d, Sample.b, Sample.c, Sample.a], Sample.diamond.Unapplied x) ∧
      ¬ ∃ model building, Sample.diamond.modelOf Sample.d [] .empty = (some model, building) ∧
        Sample.diamond.Inherits building.instances
          (Sample.diamond.modelsOf [Sample.d, Sample.b, Sample.c, Sample.a]) model := by
  refine ⟨Sample.classified_diamondModule.symm, Sample.linearizes_diamond,
    Sample.unapplied_diamond, ?_⟩
  rintro ⟨model, building, hmodel, hinherits⟩
  have hplain : ∀ x ∈ [Sample.d, Sample.b, Sample.a, Sample.c, Sample.a],
      Sample.diamond.Unapplied x := by
    intro x hx
    refine Sample.unapplied_diamond x ?_
    simp only [List.mem_cons, List.not_mem_nil, or_false] at hx ⊢
    tauto
  rcases ClassifiedProgram.modelOf_inherits_depthFirst .empty rfl Sample.depthFirst_diamond hplain with
    ⟨other, later, hother, hfields, _⟩
  rw [hmodel] at hother
  cases hother
  have hmodels : Sample.diamond.modelsOf [Sample.d, Sample.b, Sample.c, Sample.a] =
      [Sample.d, Sample.b, Sample.c, Sample.a] := by decide
  -- The first class of the order that declares the field is `C`,
  have hfirst : Sample.diamond.firstField? building.instances
      [Sample.d, Sample.b, Sample.c, Sample.a] "x" = some (.required "x" (.ref Sample.c)) := by
    simp [ClassifiedProgram.firstField?, Sample.ownFields_b, Sample.ownFields_c, Sample.ownFields_d,
      Field.named?, Field.required]
  -- and the first one on the walk up is `A`.
  have hwalk : Sample.diamond.firstField? building.instances
      [Sample.d, Sample.b, Sample.a, Sample.c, Sample.a] "x" =
        some (.required "x" (.ref Sample.a)) := by
    simp [ClassifiedProgram.firstField?, Sample.ownFields_a, Sample.ownFields_b,
      Sample.ownFields_d, Field.named?, Field.required]
  have hsame := hinherits.fields "x" _ (hmodels ▸ hfirst)
  rw [hfields, hwalk] at hsame
  simp [Field.required, Sample.a, Sample.c] at hsame

theorem diamond_inherits_iff :
    Sample.diamond.Reached .empty ∧ (Sample.diamond.modules.classDecl? Sample.d).isSome ∧
      Linearizes Sample.diamond.basesOf Sample.d [Sample.d, Sample.b, Sample.c, Sample.a] ∧
      (∀ x ∈ [Sample.d, Sample.b, Sample.c, Sample.a], Sample.diamond.Unapplied x) ∧
      ∃ model building walk,
        Sample.diamond.modelOf Sample.d [] .empty = (some model, building) ∧
        DepthFirst Sample.diamond.modelBasesOf Sample.d walk ∧
        (Sample.diamond.Inherits building.instances
            (Sample.diamond.modelsOf [Sample.d, Sample.b, Sample.c, Sample.a]) model ↔
          Sample.diamond.Agrees building.instances
            (Sample.diamond.modelsOf [Sample.d, Sample.b, Sample.c, Sample.a]) walk) :=
  ⟨.empty, rfl, Sample.linearizes_diamond, Sample.unapplied_diamond,
    ClassifiedProgram.modelOf_inherits_iff .empty rfl Sample.linearizes_diamond
      Sample.unapplied_diamond⟩

end Resolution
end WireTypes
