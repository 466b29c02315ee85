import WireTypes.Proofs.Resolution.Descent
import WireTypes.Proofs.Resolution.FieldNames
import WireTypes.Proofs.Resolution.Linearization
import WireTypes.Proofs.Resolution.Settling

/-!
# Inheritance — which class a field of a model comes from

The model of a class has its own fields in front of those of its bases, and the bases are models that
were flattened the same way. So a field comes from the first class that declares it on a walk up from
the first base before the second one.

- `Flattens`: models together consist of what the classes of an order declare;
- `model_builds`: what is built for a class, and what is kept for later, is flattened depth first;
- `modelOf_inherits_depthFirst`: so is a model that is built after any others.
-/

namespace WireTypes
namespace Resolution

open Discovery Python

namespace ClassifiedProgram

variable (c : ClassifiedProgram)

/-! ## Bases -/

/-- The class of the tree that a base names, with arguments or without. -/
def baseClass? (m : SourceModule) (base : Expr) : Option DefinitionId :=
  let classNamed := fun name =>
    match c.resolve m name with
    | .classDef id => some id
    | _ => none
  match base with
  | .name name => classNamed name
  | .type (.subscript name _) => classNamed name
  | _ => none

def basesOf (id : DefinitionId) : List DefinitionId :=
  match c.modules.classDecl? id with
  | some (m, d) => d.bases.filterMap (c.baseClass? m)
  | none => []

def modelBasesOf (id : DefinitionId) : List DefinitionId :=
  (c.basesOf id).filter fun b => (c.kind b).isModel

/-- A base that is no model with arguments. -/
def IsUnapplied (m : SourceModule) (base : Expr) : Prop :=
  ∀ name params, base = .type (.subscript name params) →
    ∀ b, c.resolve m name = .classDef b → (c.kind b).isModel = false

/-- No model is given arguments as a base of the class. -/
def Unapplied (id : DefinitionId) : Prop :=
  ∀ m d, c.modules.classDecl? id = some (m, d) → ∀ base ∈ d.bases, c.IsUnapplied m base

/-! ## What a class says itself -/

/-- The fields that a class declares, its bases left out. -/
def ownFields (known : List Instance) (id : DefinitionId) : List Field :=
  match c.modules.classDecl? id with
  | some (m, d) => (c.fieldsOf m id d [] [] known).1
  | none => []

def ownExtra? (id : DefinitionId) : Option ExtraFields :=
  match c.modules.classDecl? id with
  | some (m, d) => c.ownPolicy? m d
  | none => none

/-- The field of a name as the first class declares it that does. -/
def firstField? (known : List Instance) (order : List DefinitionId) (name : String) : Option Field :=
  order.findSome? fun id => Field.named? (c.ownFields known id) name

def firstExtra? (order : List DefinitionId) : Option ExtraFields := order.findSome? c.ownExtra?

/-! ## The fields of a class and of its bases -/

section

variable {c}

theorem mem_basesOf {m : SourceModule} {id b : DefinitionId} {d : ClassDecl}
    (hdecl : c.modules.classDecl? id = some (m, d)) :
    b ∈ c.basesOf id ↔ ∃ base ∈ d.bases, c.baseClass? m base = some b := by
  rw [basesOf, hdecl]
  exact List.mem_filterMap

theorem inherited_named? {bases : List Model}
    (hbases : ∀ b ∈ bases, (b.fields.map Field.name).Nodup) (name : String) :
    Field.named? (bases.reverse.foldl (fun fields b => Field.upsertAll fields b.fields) []) name =
      bases.findSome? fun b => Field.named? b.fields name := by
  rw [List.foldl_reverse]
  -- The bases are put together from the last one to the first one, so that the first one counts.
  induction bases with
  | nil => rfl
  | cons b rest ih =>
      have hb := hbases b List.mem_cons_self
      have hrest := ih fun b' hb' => hbases b' (List.mem_cons_of_mem _ hb')
      rw [List.foldr_cons, Field.named?_upsertAll, Field.named?_reverse hb, hrest, List.findSome?_cons]
      cases Field.named? b.fields name <;> rfl

theorem inherited_nodup (bases : List Model) :
    ((bases.foldl (fun fields b => Field.upsertAll fields b.fields) []).map Field.name).Nodup := by
  -- More general: names that are different stay so.
  have hfold : ∀ (bases : List Model) (fields : List Field), (fields.map Field.name).Nodup →
      ((bases.foldl (fun fields b => Field.upsertAll fields b.fields) fields).map Field.name).Nodup := by
    intro bases
    induction bases with
    | nil => exact fun fields h => h
    | cons b rest ih => exact fun fields h => ih _ (Field.nodup_names_upsertAll h b.fields)
  exact hfold bases [] List.nodup_nil

/-- The own fields of a class come before those of its bases, and these in order. -/
theorem fieldsOf_spec {m : SourceModule} {id : DefinitionId} {d : ClassDecl} {args : TypeArgs}
    {bases : List Model} (hbases : ∀ b ∈ bases, (b.fields.map Field.name).Nodup)
    (known : List Instance) :
    (c.fieldsOf m id d args bases known).2 = (c.fieldsOf m id d args [] known).2 ∧
      ((c.fieldsOf m id d args bases known).1.map Field.name).Nodup ∧
      ∀ name, Field.named? (c.fieldsOf m id d args bases known).1 name =
        (Field.named? (c.fieldsOf m id d args [] known).1 name).or
          (bases.findSome? fun b => Field.named? b.fields name) := by
  -- The fields of the bases come first, and own and computed fields are written over them.
  have hrun : ∀ bases : List Model, c.fieldsOf m id d args bases known =
      (let own := (d.attributes.filterMapM (c.field? m args (c.isLegacy Program.stepLimit id))) known
       let computed := (d.computed.mapM (c.computedField m args)) own.2
       (Field.upsertAll (Field.upsertAll
          (bases.reverse.foldl (fun fields b => Field.upsertAll fields b.fields) []) own.1) computed.1,
        computed.2)) := fun _ => rfl
  refine ⟨by rw [hrun, hrun], ?_, ?_⟩
  · rw [hrun]
    exact Field.nodup_names_upsertAll (Field.nodup_names_upsertAll (inherited_nodup _) _) _
  · intro name
    rw [hrun, hrun]
    simp only [Field.named?_upsertAll, inherited_named? hbases]
    simp [Option.or_assoc, Field.named?]

end

/-! ## Models that are built -/

/-- Models together consist of what the classes of an order declare, and reading these again changes
nothing. Where several have a field, the first one counts. -/
structure Flattens (known : List Instance) (order : List DefinitionId) (models : List Model) :
    Prop where
  distinct : ∀ model ∈ models, (model.fields.map Field.name).Nodup
  fixed : ∀ id ∈ order, ∀ later, Later known later → c.ownFields later id = c.ownFields known id
  fields : ∀ name,
    (models.findSome? fun model => Field.named? model.fields name) = c.firstField? known order name
  extra : (models.findSome? fun model => model.extra) = c.firstExtra? order

/-- What is built for a class is what the classes above it declare, depth first. -/
def Contributes (known : List Instance) (id : DefinitionId) (models : List Model) : Prop :=
  ∀ order, DepthFirst c.modelBasesOf id order → (∀ x ∈ order, c.Unapplied x) →
    c.Flattens known order models

/-- Every model that is kept is that of its class. -/
def Sound (b : Building) : Prop :=
  ∀ id model, b.finished.lookup id = some model → c.Contributes b.instances id [model]

section

variable {c} {known later : List Instance}

theorem Flattens.nil (known : List Instance) : c.Flattens known [] [] :=
  ⟨fun _ h => absurd h List.not_mem_nil, fun _ h => absurd h List.not_mem_nil, fun _ => rfl, rfl⟩

theorem firstField?_congr {order : List DefinitionId}
    (h : ∀ id ∈ order, c.ownFields later id = c.ownFields known id) (name : String) :
    c.firstField? later order name = c.firstField? known order name := by
  unfold firstField?
  induction order with
  | nil => rfl
  | cons id rest ih =>
      rw [List.findSome?_cons, List.findSome?_cons, h id List.mem_cons_self,
        ih fun x hx => h x (List.mem_cons_of_mem _ hx)]

theorem Flattens.mono {order : List DefinitionId} {models : List Model}
    (h : c.Flattens known order models) (hlater : Later known later) :
    c.Flattens later order models := by
  refine ⟨h.distinct, ?_, ?_, h.extra⟩
  · intro id hid u hu
    calc
      c.ownFields u id = c.ownFields known id := h.fixed id hid u (hlater.trans hu)
      _ = c.ownFields later id := (h.fixed id hid later hlater).symm
  · intro name
    rw [h.fields name, firstField?_congr fun id hid => h.fixed id hid later hlater]

theorem Flattens.append {order more : List DefinitionId} {models others : List Model}
    (h : c.Flattens known order models) (h' : c.Flattens known more others) :
    c.Flattens known (order ++ more) (models ++ others) := by
  refine ⟨?_, ?_, ?_, ?_⟩
  · intro model hmodel
    rcases List.mem_append.1 hmodel with hmem | hmem
    · exact h.distinct model hmem
    · exact h'.distinct model hmem
  · intro id hid
    rcases List.mem_append.1 hid with hmem | hmem
    · exact h.fixed id hmem
    · exact h'.fixed id hmem
  · intro name
    have hfields := h.fields name
    have hfields' := h'.fields name
    unfold firstField? at hfields hfields' ⊢
    rw [List.findSome?_append, List.findSome?_append, hfields, hfields']
  · have hextra := h.extra
    have hextra' := h'.extra
    unfold firstExtra? at hextra hextra' ⊢
    rw [List.findSome?_append, List.findSome?_append, hextra, hextra']

theorem Contributes.mono {id : DefinitionId} {models : List Model}
    (h : c.Contributes known id models) (hlater : Later known later) :
    c.Contributes later id models :=
  fun order horder hplain => (h order horder hplain).mono hlater

theorem Sound.mono {b : Building} (h : c.Sound b) (hlater : Later b.instances later) :
    c.Sound { b with instances := later } :=
  fun id model hmodel => (h id model hmodel).mono hlater

/-! ## One base -/

/-- A base is a model of the tree, or it is none; it has the arguments of the class, unless it is given
its own. -/
theorem modelBase?_spec (m : SourceModule) (args : TypeArgs) (base : Expr) (known : List Instance) :
    ((c.modelBase? m args base known).1 = none ∧
        (c.IsUnapplied m base → ∀ b, c.baseClass? m base = some b → (c.kind b).isModel = false)) ∨
      ∃ b types, (c.modelBase? m args base known).1 = some (b, types) ∧
        c.baseClass? m base = some b ∧ (c.kind b).isModel = true ∧
        (c.IsUnapplied m base → types = args) := by
  -- A base is a name, a name with arguments, or an expression that names no class.
  cases base with
  | name name =>
      cases hresolve : c.resolve m name with
      | classDef id =>
          by_cases hmodel : (c.kind id).isModel = true
          · refine Or.inr ⟨id, args, ?_, ?_, hmodel, fun _ => rfl⟩
            · simp [modelBase?, hresolve, hmodel, pure, StateT.pure]
            · simp [baseClass?, hresolve]
          · refine Or.inl ⟨?_, fun _ b hb => ?_⟩
            · simp [modelBase?, hresolve, hmodel, pure, StateT.pure]
            · have hid : id = b := by simpa [baseClass?, hresolve] using hb
              rw [← hid]
              simpa using hmodel
      | _ =>
          refine Or.inl ⟨?_, fun _ b hb => ?_⟩
          · simp [modelBase?, hresolve, pure, StateT.pure]
          · simp [baseClass?, hresolve] at hb
  | type hint =>
      cases hint with
      | subscript name params =>
          cases hresolve : c.resolve m name with
          | classDef id =>
              by_cases hmodel : (c.kind id).isModel = true
              · refine Or.inr ⟨id, c.bindParameters id (params.mapM (c.typeOf m args) known).1,
                  ?_, ?_, hmodel, fun hplain => ?_⟩
                · simp only [modelBase?, hresolve, hmodel, if_true]
                  rfl
                · simp [baseClass?, hresolve]
                · have hfalse := hplain name params rfl id hresolve
                  rw [hmodel] at hfalse
                  cases hfalse
              · refine Or.inl ⟨?_, fun _ b hb => ?_⟩
                · simp [modelBase?, hresolve, hmodel, pure, StateT.pure]
                · have hid : id = b := by simpa [baseClass?, hresolve] using hb
                  rw [← hid]
                  simpa using hmodel
          | _ =>
              refine Or.inl ⟨?_, fun _ b hb => ?_⟩
              · simp [modelBase?, hresolve, pure, StateT.pure]
              · simp [baseClass?, hresolve] at hb
      | _ => exact Or.inl ⟨rfl, fun _ b hb => by simp [baseClass?] at hb⟩
  | _ => exact Or.inl ⟨rfl, fun _ b hb => by simp [baseClass?] at hb⟩

end

/-! ## All bases -/

/-- The models among bases, in order. -/
def modelClasses (m : SourceModule) (bases : List Expr) : List DefinitionId :=
  (bases.filterMap (c.baseClass? m)).filter fun b => (c.kind b).isModel

/-- The models that are built for bases. -/
def baseModels (depth : Nat) (above : List DefinitionId) (m : SourceModule) (args : TypeArgs)
    (bases : List Expr) : StateM Building (List Model) :=
  bases.filterMapM fun base => do
    match ← Building.resolving (c.modelBase? m args base) with
    | some (b, types) => c.model depth above b types
    | none => return none

def BaseOf (b id : DefinitionId) : Prop := b ∈ c.modelBasesOf id

/-- The classes whose bases are being built. -/
def Pending (depth : Nat) (above : List DefinitionId) (id : DefinitionId) : Prop :=
  c.modules.Descent c.BaseOf depth above id

/-- What a run for a class does: it keeps what is kept in order, and without arguments it gives what
the class contributes. -/
def Builds (id : DefinitionId) (args : TypeArgs) (act : StateM Building (Option Model)) : Prop :=
  ∀ b, c.Sound b → c.Sound (act b).2 ∧ Later b.instances (act b).2.instances ∧
    (args = [] → c.Contributes (act b).2.instances id (act b).1.toList)

section

variable {c} {depth : Nat} {above : List DefinitionId} {m : SourceModule} {args : TypeArgs}

theorem modelBasesOf_eq {id : DefinitionId} {d : ClassDecl}
    (hdecl : c.modules.classDecl? id = some (m, d)) :
    c.modelBasesOf id = c.modelClasses m d.bases := by
  rw [modelBasesOf, basesOf, hdecl]
  rfl

theorem modelClasses_cons_of_model {base : Expr} {rest : List Expr} {b : DefinitionId}
    (hclass : c.baseClass? m base = some b) (hmodel : (c.kind b).isModel = true) :
    c.modelClasses m (base :: rest) = b :: c.modelClasses m rest := by
  rw [modelClasses, List.filterMap_cons_some hclass, List.filter_cons_of_pos (by simpa using hmodel)]
  rfl

theorem modelClasses_cons_of_not_model {base : Expr} {rest : List Expr}
    (h : ∀ b, c.baseClass? m base = some b → (c.kind b).isModel = false) :
    c.modelClasses m (base :: rest) = c.modelClasses m rest := by
  cases hclass : c.baseClass? m base with
  | none =>
      rw [modelClasses, List.filterMap_cons_none hclass]
      rfl
  | some b =>
      rw [modelClasses, List.filterMap_cons_some hclass,
        List.filter_cons_of_neg (by simpa using h b hclass)]
      rfl

theorem mem_modelClasses_cons {base : Expr} {rest : List Expr} {x : DefinitionId}
    (h : x ∈ c.modelClasses m rest) : x ∈ c.modelClasses m (base :: rest) := by
  rcases List.mem_filter.1 h with ⟨hmem, hmodel⟩
  rcases List.mem_filterMap.1 hmem with ⟨other, hother, hclass⟩
  exact List.mem_filter.2
    ⟨List.mem_filterMap.2 ⟨other, List.mem_cons_of_mem _ hother, hclass⟩, hmodel⟩

theorem baseModels_of_none {base : Expr} {rest : List Expr} {b : Building}
    (h : (c.modelBase? m args base b.instances).1 = none) :
    c.baseModels depth above m args (base :: rest) b = c.baseModels depth above m args rest
      { b with instances := (c.modelBase? m args base b.instances).2 } := by
  cases hbase : c.modelBase? m args base b.instances with
  | mk result instances =>
      rw [hbase] at h
      subst h
      rw [baseModels, List.filterMapM_cons]
      simp only [bind, StateT.bind, Building.resolving, StateT.run, hbase]
      rfl

theorem baseModels_of_some {base : Expr} {rest : List Expr} {b : Building} {id : DefinitionId}
    {types : TypeArgs} (h : (c.modelBase? m args base b.instances).1 = some (id, types)) :
    c.baseModels depth above m args (base :: rest) b =
      (let built := c.model depth above id types
        { b with instances := (c.modelBase? m args base b.instances).2 }
       let others := c.baseModels depth above m args rest built.2
       (built.1.toList ++ others.1, others.2)) := by
  cases hbase : c.modelBase? m args base b.instances with
  | mk result instances =>
      rw [hbase] at h
      subst h
      rw [baseModels, List.filterMapM_cons]
      simp only [bind, StateT.bind, Building.resolving, StateT.run, hbase]
      cases hmodel : c.model depth above id types { b with instances } with
      | mk model? next =>
          cases model? with
          | none => rfl
          | some model => rfl

/-- The bases together contribute what they contribute one by one. -/
theorem baseModels_spec (args : TypeArgs)
    (hmodel : ∀ id args, c.Pending depth above id → c.Builds id args (c.model depth above id args)) :
    ∀ bases, (∀ x ∈ c.modelClasses m bases, c.Pending depth above x) → ∀ b, c.Sound b →
      c.Sound (c.baseModels depth above m args bases b).2 ∧
      Later b.instances (c.baseModels depth above m args bases b).2.instances ∧
      (args = [] → (∀ base ∈ bases, c.IsUnapplied m base) → ∀ orders : DefinitionId → List DefinitionId,
        (∀ x ∈ c.modelClasses m bases, DepthFirst c.modelBasesOf x (orders x)) →
        (∀ x ∈ (c.modelClasses m bases).flatMap orders, c.Unapplied x) →
        c.Flattens (c.baseModels depth above m args bases b).2.instances
          ((c.modelClasses m bases).flatMap orders)
          (c.baseModels depth above m args bases b).1) := by
  intro bases
  induction bases with
  | nil =>
      intro _ b hsound
      exact ⟨hsound, .refl _, fun _ _ _ _ _ => .nil _⟩
  | cons base rest ih =>
      intro hpending b hsound
      -- The base is read, and what is kept stays right.
      have hsettles := (c.modelBase?_settles m args base b.instances).1
      have hnext := hsound.mono hsettles
      have hrest := ih fun x hx => hpending x (mem_modelClasses_cons hx)
      rcases modelBase?_spec m args base b.instances with
        ⟨hnone, hplain⟩ | ⟨x, types, hsome, hclass, hkind, hplain⟩
      -- The base is no model, and nothing is built for it.
      · rw [baseModels_of_none hnone]
        rcases hrest _ hnext with ⟨hlast, hlater, hcontributes⟩
        refine ⟨hlast, hsettles.trans hlater, ?_⟩
        intro hargs hunapplied
        rw [modelClasses_cons_of_not_model (hplain (hunapplied base List.mem_cons_self))]
        exact hcontributes hargs fun other hother => hunapplied other (List.mem_cons_of_mem _ hother)
      -- A model is built for the base, then those for the others. The first one stays right meanwhile.
      · have hclasses : c.modelClasses m (base :: rest) = x :: c.modelClasses m rest :=
          modelClasses_cons_of_model hclass hkind
        have hx : x ∈ c.modelClasses m (base :: rest) := by
          rw [hclasses]
          exact List.mem_cons_self
        rcases hmodel x types (hpending x hx) _ hnext with ⟨hbuilt, hbuiltLater, hbuiltContributes⟩
        rcases hrest _ hbuilt with ⟨hlast, hlater, hcontributes⟩
        rw [baseModels_of_some hsome]
        refine ⟨hlast, hsettles.trans (hbuiltLater.trans hlater), ?_⟩
        intro hargs hunapplied orders horders hall
        rw [hclasses] at horders hall ⊢
        rw [List.flatMap_cons] at hall ⊢
        have htypes : types = [] := (hplain (hunapplied base List.mem_cons_self)).trans hargs
        have hfirst := hbuiltContributes htypes (orders x) (horders x List.mem_cons_self)
          fun y hy => hall y (List.mem_append_left _ hy)
        have hothers := hcontributes hargs
          (fun other hother => hunapplied other (List.mem_cons_of_mem _ hother)) orders
          (fun y hy => horders y (List.mem_cons_of_mem _ hy))
          fun y hy => hall y (List.mem_append_right _ hy)
        exact (hfirst.mono hlater).append hothers

end

/-! ## The model of a class -/

section

variable {c} {depth : Nat} {above : List DefinitionId} {id : DefinitionId} {args : TypeArgs}

theorem contributes_of_above (h : c.Pending depth above id) (habove : id ∈ above)
    (known : List Instance) : c.Contributes known id [] := by
  -- A class that is above itself has no walk up, so that there is nothing to show.
  intro order horder
  exact absurd (h.leads id habove) (not_transGen_self horder.acc)

theorem contributes_of_no_class (h : c.modules.classDecl? id = none) (known : List Instance) :
    c.Contributes known id [] := by
  have hbases : c.modelBasesOf id = [] := by
    rw [modelBasesOf, basesOf, h]
    rfl
  have hfields : ∀ known, c.ownFields known id = [] := by
    intro known
    rw [ownFields, h]
  intro order horder _
  cases horder with
  | walk orders _ =>
      rw [hbases, List.flatMap_nil]
      refine ⟨fun _ hm => absurd hm List.not_mem_nil, ?_, ?_, ?_⟩
      · intro x hx later _
        rw [List.mem_singleton.1 hx, hfields, hfields]
      · intro name
        simp [firstField?, hfields, Field.named?]
      · simp [firstExtra?, ownExtra?, h]

/-! ## One step -/

theorem model_of_known {b : Building} {model : Model}
    (h : (if args.isEmpty then b.finished.lookup id else none) = some model) :
    c.model (depth + 1) above id args b = (some model, b) := by
  simp only [ClassifiedProgram.model, bind, StateT.bind, get, getThe, MonadStateOf.get, StateT.get,
    pure, h]
  rfl

theorem model_of_above {b : Building}
    (h : (if args.isEmpty then b.finished.lookup id else none) = none) (habove : id ∈ above) :
    c.model (depth + 1) above id args b = (none, b) := by
  simp only [ClassifiedProgram.model, bind, StateT.bind, get, getThe, MonadStateOf.get, StateT.get,
    pure, h, habove, if_true]
  rfl

theorem model_of_no_class {b : Building}
    (h : (if args.isEmpty then b.finished.lookup id else none) = none) (habove : id ∉ above)
    (hdecl : c.modules.classDecl? id = none) :
    c.model (depth + 1) above id args b = (none, b) := by
  simp only [ClassifiedProgram.model, bind, StateT.bind, get, getThe, MonadStateOf.get, StateT.get,
    pure, h, habove, if_false, hdecl]
  rfl

theorem model_of_class {b : Building} {m : SourceModule} {d : ClassDecl}
    (h : (if args.isEmpty then b.finished.lookup id else none) = none) (habove : id ∉ above)
    (hdecl : c.modules.classDecl? id = some (m, d)) :
    c.model (depth + 1) above id args b =
      (let bases := c.baseModels depth (id :: above) m args d.bases b
       let assembled := c.assemble m id d args bases.1 bases.2.instances
       (some assembled.1,
        (remember id args assembled.1 { bases.2 with instances := assembled.2 }).2)) := by
  simp only [ClassifiedProgram.model, bind, StateT.bind, get, getThe, MonadStateOf.get, StateT.get,
    pure, h, habove, if_false, hdecl]
  rfl

theorem assemble_eq (m : SourceModule) (d : ClassDecl) (bases : List Model) (known : List Instance) :
    c.assemble m id d args bases known =
      ({ id
         name := d.name
         qualname := Program.qualname m d.name
         docs := d.docstring
         fields := (c.fieldsOf m id d args bases known).1
         extra := c.ownPolicy? m d <|> bases.findSome? (·.extra) },
        (c.fieldsOf m id d args bases known).2) := rfl

theorem referenced_of_no_instance {b : Building} (h : b.instances.find? (·.id == id) = none) :
    c.referenced id b = if c.kind id = .model then c.modelOf id [] b else (none, b) := by
  have hrun : c.referenced id b = (if c.kind id = .model then c.modelOf id [] else pure none) b := by
    simp [referenced, bind, StateT.bind, get, getThe, MonadStateOf.get, StateT.get, pure, h]
  rw [hrun]
  by_cases hmodel : c.kind id = .model
  · rw [if_pos hmodel, if_pos hmodel]
  · rw [if_neg hmodel, if_neg hmodel]
    rfl

theorem referenced_of_instance {b : Building} {i : Instance} {m : SourceModule} {d : ClassDecl}
    (h : b.instances.find? (·.id == id) = some i)
    (hdecl : c.modules.classDecl? i.generic = some (m, d)) :
    c.referenced id b =
      ((c.modelOf i.generic i.args b).1.map fun model =>
          { model with id, name := id.name, qualname := Program.qualname m id.name },
        (c.modelOf i.generic i.args b).2) := by
  simp only [referenced, bind, StateT.bind, get, getThe, MonadStateOf.get, StateT.get, pure, h, hdecl]
  rfl

theorem referenced_of_no_class {b : Building} {i : Instance}
    (h : b.instances.find? (·.id == id) = some i) (hdecl : c.modules.classDecl? i.generic = none) :
    c.referenced id b = (none, b) := by
  simp [referenced, bind, StateT.bind, get, getThe, MonadStateOf.get, StateT.get, pure, StateT.pure, h,
    hdecl]

/-- The own fields of a class are those that were read when its model was put together. -/
theorem ownFields_of_assembled {m : SourceModule} {d : ClassDecl} {known later : List Instance}
    (hdecl : c.modules.classDecl? id = some (m, d))
    (hlater : Later (c.fieldsOf m id d [] [] known).2 later) :
    c.ownFields later id = (c.fieldsOf m id d [] [] known).1 := by
  simp only [ownFields, hdecl, (c.fieldsOf_settles m id d [] [] known).2 later hlater]

/-- The model of a class has its own fields and policy, and behind them what its bases have. -/
theorem Flattens.assemble {m : SourceModule} {d : ClassDecl} {known : List Instance}
    {order : List DefinitionId} {bases : List Model} (h : c.Flattens known order bases)
    (hdecl : c.modules.classDecl? id = some (m, d)) :
    c.Flattens (c.assemble m id d [] bases known).2 (id :: order)
      [(c.assemble m id d [] bases known).1] := by
  rcases @fieldsOf_spec c m id d [] bases h.distinct known with ⟨hstate, hdistinct, hfields⟩
  have hrest := h.mono (c.fieldsOf_settles m id d [] bases known).1
  rw [assemble_eq]
  dsimp only
  -- The own fields do not depend on the bases, and are read the same way in every later table.
  have hown : ∀ u, Later (c.fieldsOf m id d [] bases known).2 u →
      c.ownFields u id = (c.fieldsOf m id d [] [] known).1 := by
    intro u hu
    rw [hstate] at hu
    exact ownFields_of_assembled hdecl hu
  constructor
  case distinct =>
    intro model hmodel
    rw [List.mem_singleton.1 hmodel]
    exact hdistinct
  case fixed =>
    intro x hx u hu
    rcases List.mem_cons.1 hx with rfl | hx
    · rw [hown u hu, hown _ (.refl _)]
    · exact hrest.fixed x hx u hu
  case fields =>
    intro name
    have hbaseFields := hrest.fields name
    unfold firstField? at hbaseFields ⊢
    simp only [List.findSome?_cons, List.findSome?_nil, hfields, hown _ (.refl _), ← hbaseFields]
    cases Field.named? (c.fieldsOf m id d [] [] known).1 name with
    | some f => rfl
    | none => cases bases.findSome? fun b => Field.named? b.fields name <;> rfl
  case extra =>
    have hbaseExtra := hrest.extra
    unfold firstExtra? at hbaseExtra ⊢
    simp only [List.findSome?_cons, List.findSome?_nil, ← hbaseExtra, ownExtra?, hdecl]
    cases c.ownPolicy? m d with
    | some policy => rfl
    | none => cases bases.findSome? fun b => b.extra <;> rfl

/-- A class contributes its own fields and policy, and what its bases contribute. -/
theorem contributes_of_class {m : SourceModule} {d : ClassDecl} {known : List Instance}
    {bases : List Model} (hdecl : c.modules.classDecl? id = some (m, d))
    (hbases : ∀ orders : DefinitionId → List DefinitionId,
      (∀ x ∈ c.modelBasesOf id, DepthFirst c.modelBasesOf x (orders x)) →
      (∀ x ∈ (c.modelBasesOf id).flatMap orders, c.Unapplied x) → c.Unapplied id →
      c.Flattens known ((c.modelBasesOf id).flatMap orders) bases) :
    c.Contributes (c.assemble m id d [] bases known).2 id [(c.assemble m id d [] bases known).1] := by
  intro order horder hplain
  cases horder with
  | walk orders horders =>
      have habove : ∀ x ∈ (c.modelBasesOf id).flatMap orders, c.Unapplied x :=
        fun x hx => hplain x (List.mem_cons_of_mem _ hx)
      have hfront := hbases orders horders habove (hplain id List.mem_cons_self)
      exact hfront.assemble hdecl

/-- The model of the class is looked up first, and the others as before. -/
theorem lookup_remember {b : Building} {model : Model} (x : DefinitionId) :
    (remember id [] model b).2.finished.lookup x =
      if x = id then some model else b.finished.lookup x := by
  show List.lookup x ((id, model) :: b.finished) = _
  rw [List.lookup_cons]
  by_cases hx : x = id
  · rw [if_pos hx, hx, beq_self_eq_true]
  · rw [if_neg hx, beq_eq_false_iff_ne.2 hx]

theorem Sound.remember {b : Building} {model : Model} (h : c.Sound b)
    (hmodel : args = [] → c.Contributes b.instances id [model]) :
    c.Sound (remember id args model b).2 := by
  cases args with
  | cons a rest => exact h
  | nil =>
      intro x kept hkept
      rw [lookup_remember] at hkept
      by_cases hx : x = id
      · rw [if_pos hx] at hkept
        cases hkept
        rw [hx]
        exact hmodel rfl
      · rw [if_neg hx] at hkept
        exact h x kept hkept

theorem remember_instances {b : Building} {model : Model} :
    (remember id args model b).2.instances = b.instances := by
  cases args <;> rfl

/-- What is built for a class is what it contributes, by induction on the steps that are left. -/
theorem model_builds (depth : Nat) : ∀ (above : List DefinitionId) (id : DefinitionId)
    (args : TypeArgs), c.Pending depth above id → c.Builds id args (c.model depth above id args) := by
  -- The steps that are left suffice for the classes that are not above, so that there are always some.
  induction depth with
  | zero => exact fun above id args hpending => hpending.depth_pos.elim
  | succ depth ih =>
      intro above id args hpending b hsound
      cases hknown : (if args.isEmpty then b.finished.lookup id else none) with
      | some model =>
          rw [model_of_known hknown]
          refine ⟨hsound, .refl _, ?_⟩
          rintro rfl
          exact hsound id model hknown
      | none =>
          -- A class that is above itself is left out, and so is one that is not declared.
          by_cases habove : id ∈ above
          · rw [model_of_above hknown habove]
            exact ⟨hsound, .refl _, fun _ => contributes_of_above hpending habove _⟩
          · cases hdecl : c.modules.classDecl? id with
            | none =>
                rw [model_of_no_class hknown habove hdecl]
                exact ⟨hsound, .refl _, fun _ => contributes_of_no_class hdecl _⟩
            | some decl =>
                rcases decl with ⟨m, d⟩
                -- The bases are built with the class above them.
                have hbases : ∀ x ∈ c.modelClasses m d.bases, c.Pending depth (id :: above) x := by
                  intro x hx
                  rw [← modelBasesOf_eq hdecl] at hx
                  exact hpending.base habove (mem_classIds_of_decl hdecl) hx
                have hspec := baseModels_spec (m := m) args (ih (id :: above)) d.bases hbases b hsound
                rw [model_of_class hknown habove hdecl]
                cases hrun : c.baseModels depth (id :: above) m args d.bases b with
                | mk models next =>
                    rw [hrun] at hspec
                    rcases hspec with ⟨hbuilt, hlater, hflattens⟩
                    dsimp only at hbuilt hlater hflattens ⊢
                    have hassembles : Later next.instances
                        (c.assemble m id d args models next.instances).2 :=
                      (c.fieldsOf_settles m id d args models _).1
                    have hcontributes : args = [] →
                        c.Contributes (c.assemble m id d args models next.instances).2 id
                          [(c.assemble m id d args models next.instances).1] := by
                      rintro rfl
                      refine contributes_of_class hdecl ?_
                      intro orders horders hplain hunapplied
                      rw [modelBasesOf_eq hdecl] at horders hplain ⊢
                      exact hflattens rfl (hunapplied m d hdecl) orders horders hplain
                    refine ⟨(hbuilt.mono hassembles).remember hcontributes, ?_, ?_⟩
                    · rw [remember_instances]
                      exact hlater.trans hassembles
                    · rw [remember_instances]
                      exact hcontributes

end

/-! ## Models as they are built one after the other -/

/-- What is kept after any models were built. -/
inductive Reached : Building → Prop
  | empty : Reached Building.empty
  | built {b : Building} (id : DefinitionId) (args : TypeArgs) :
      Reached b → Reached (c.modelOf id args b).2

section

variable {c}

theorem pending_start (id : DefinitionId) : c.Pending c.modules.classDepth [] id := .start id

theorem Reached.sound {b : Building} (h : c.Reached b) : c.Sound b := by
  induction h with
  | empty =>
      intro id model hmodel
      cases hmodel
  | built id args _ ih => exact (model_builds _ [] id args (pending_start id) _ ih).1

theorem modelOf_isSome {id : DefinitionId} (h : (c.modules.classDecl? id).isSome) (args : TypeArgs)
    (b : Building) : ∃ model, (c.modelOf id args b).1 = some model := by
  cases hdecl : c.modules.classDecl? id with
  | none =>
      rw [hdecl] at h
      cases h
  | some decl =>
      -- There is at least one step, and no class is above at the start.
      unfold modelOf Program.classDepth
      cases hknown : (if args.isEmpty then b.finished.lookup id else none) with
      | some model => exact ⟨model, by rw [model_of_known hknown]⟩
      | none => exact ⟨_, by rw [model_of_class hknown List.not_mem_nil hdecl]⟩

/-- A model inherits depth first, whatever was built before it. -/
theorem modelOf_inherits_depthFirst {id : DefinitionId} {order : List DefinitionId} {b : Building}
    (hb : c.Reached b) (hclass : (c.modules.classDecl? id).isSome)
    (horder : DepthFirst c.modelBasesOf id order) (hplain : ∀ x ∈ order, c.Unapplied x) :
    ∃ model b', c.modelOf id [] b = (some model, b') ∧
      (∀ name, Field.named? model.fields name = c.firstField? b'.instances order name) ∧
      model.extra = c.firstExtra? order := by
  rcases modelOf_isSome hclass [] b with ⟨model, hmodel⟩
  have hbuilds := (model_builds _ [] id [] (pending_start id) b hb.sound).2.2 rfl order horder hplain
  have hrun : c.model c.modules.classDepth [] id [] b = c.modelOf id [] b := rfl
  rw [hrun, hmodel] at hbuilds
  have hfields := hbuilds.fields
  have hextra := hbuilds.extra
  simp only [Option.toList_some, List.findSome?_cons, List.findSome?_nil] at hfields hextra
  refine ⟨model, (c.modelOf id [] b).2, Prod.ext hmodel rfl, ?_, ?_⟩
  · intro name
    rw [← hfields name]
    cases Field.named? model.fields name <;> rfl
  · rw [← hextra]
    cases model.extra <;> rfl

end

end ClassifiedProgram

end Resolution
end WireTypes
