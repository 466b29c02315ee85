import WireTypes.Proofs.Resolution.Labels
import WireTypes.Proofs.Resolution.Settling
import WireTypes.Proofs.Text.Segments
import WireTypes.Resolution.Models

/-!
# Applications — whose arguments a generic model is built with

An annotation with a generic model is a reference to an instance, whose identity is the text of the
annotation. The instance is built with the arguments of the annotation that was read first.

- `Reading`: an annotation with a generic model, and what was read for its arguments;
- `Keeps`: the definition of a reference is built with the arguments of the annotation;
- `references_keep_arguments_iff`: of two annotations with the same reference the second one keeps its
  arguments exactly if both have the same ones, that is, if no arguments are namesakes.
-/

namespace WireTypes
namespace Resolution

open Discovery Python

/-! ## Identities of instances -/

/-- A generic model with arguments, none of whose names can be mistaken for other text. -/
structure LegibleApplication (generic : DefinitionId) (types : List FieldType) : Prop where
  name : '[' ∉ generic.name.toList
  types : ∀ t ∈ types, t.Legible

/-- The identity of an instance shows the model and the texts of the arguments. -/
theorem instanceId_injective {generic other : DefinitionId} {types others : List FieldType}
    (h : LegibleApplication generic types) (h' : LegibleApplication other others)
    (hid : instanceId generic types = instanceId other others) :
    generic = other ∧ types.map FieldType.label = others.map FieldType.label := by
  -- A name with arguments has a bracket, so that it is no bare name.
  have hbracket : ∀ {g : DefinitionId} {name : String} {items : List String},
      '[' ∉ g.name.toList → g.name ≠ FieldType.bracketed name items := by
    intro g name items hname heq
    refine hname ?_
    rw [heq, FieldType.bracketed_toList]
    simp
  cases types with
  | nil =>
      cases others with
      | nil => exact ⟨hid, rfl⟩
      | cons u us => exact absurd (congrArg DefinitionId.name hid) (hbracket h.name)
  | cons t ts =>
      cases others with
      | nil => exact absurd (congrArg DefinitionId.name hid).symm (hbracket h'.name)
      | cons u us =>
          have hmodule : generic.module = other.module := by
            simpa [instanceId] using congrArg DefinitionId.module hid
          have htext := congrArg (fun id => id.name.toList) hid
          simp only [instanceId, List.isEmpty_cons, Bool.false_eq_true, if_false,
            FieldType.bracketed_toList] at htext
          -- The name ends at its first bracket, and the arguments between the brackets can be told apart.
          rcases eq_of_append_bracket h.name h'.name (List.append_cancel_right htext) with
            ⟨hname, hjoined⟩
          have hsealed : ∀ {types : List FieldType}, (∀ t ∈ types, t.Legible) →
              ∀ p ∈ types.map fun t => t.label.toList, Sealed p ∧ p ≠ [] := by
            intro types htypes p hp
            rcases List.mem_map.1 hp with ⟨t, ht, rfl⟩
            exact (htypes t ht).part
          have htexts : ((t :: ts).map fun t => t.label.toList) = (u :: us).map fun t => t.label.toList :=
            joined_injective (hsealed h.types) (hsealed h'.types) (by simpa [Function.comp_def] using hjoined)
          refine ⟨?_, FieldType.map_label_of_toList htexts⟩
          rcases generic with ⟨module, name⟩
          rcases other with ⟨module', name'⟩
          have hsame : name = name' := String.toList_injective hname
          rw [show module = module' from hmodule, hsame]

/-- The type at a position of arguments; a missing one is `any`. -/
def argumentAt (types : List FieldType) (i : Nat) : FieldType := types[i]?.getD .any

theorem bind_eq_iff (parameters : List String) (types others : List FieldType) :
    TypeArgs.bind parameters types = TypeArgs.bind parameters others ↔
      ∀ i < parameters.length, argumentAt types i = argumentAt others i := by
  -- The parameters take the arguments one by one, and `any` when there are none left.
  have hcons : ∀ (p : String) (ps : List String) (ts : List FieldType),
      TypeArgs.bind (p :: ps) ts = (p, argumentAt ts 0) :: TypeArgs.bind ps ts.tail := by
    intro p ps ts
    cases ts <;> rfl
  have htail : ∀ (ts : List FieldType) (i : Nat), argumentAt ts (i + 1) = argumentAt ts.tail i := by
    intro ts i
    cases ts <;> simp [argumentAt]
  induction parameters generalizing types others with
  | nil => simp [TypeArgs.bind]
  | cons p ps ih =>
      have hrest := ih types.tail others.tail
      rw [hcons, hcons, List.cons.injEq, Prod.mk.injEq]
      constructor
      · rintro ⟨⟨_, hfirst⟩, htypes⟩ i hi
        cases i with
        | zero => exact hfirst
        | succ i =>
            rw [htail, htail]
            exact hrest.1 htypes i (Nat.lt_of_succ_lt_succ hi)
      · intro hall
        refine ⟨⟨rfl, hall 0 (Nat.succ_pos _)⟩, hrest.2 ?_⟩
        intro i hi
        rw [← htail, ← htail]
        exact hall (i + 1) (Nat.succ_lt_succ hi)

theorem legible_argumentAt {types : List FieldType} (h : ∀ t ∈ types, t.Legible) (i : Nat) :
    (argumentAt types i).Legible := by
  unfold argumentAt
  cases hi : types[i]? with
  | some t => exact h t (List.mem_of_getElem? hi)
  | none => exact .leaf rfl (.of_ordinary (by decide) (by decide) (by decide))

theorem label_argumentAt {types others : List FieldType}
    (h : types.map FieldType.label = others.map FieldType.label) (i : Nat) :
    (argumentAt types i).label = (argumentAt others i).label := by
  have hat := congrArg (fun texts => texts[i]?) h
  simp only [List.getElem?_map] at hat
  unfold argumentAt
  cases hi : types[i]? with
  | none =>
      cases hi' : others[i]? with
      | none => rfl
      | some u =>
          rw [hi, hi'] at hat
          cases hat
  | some t =>
      cases hi' : others[i]? with
      | none =>
          rw [hi, hi'] at hat
          cases hat
      | some u =>
          rw [hi, hi'] at hat
          exact Option.some.inj hat

/-! ## Readings -/

namespace ClassifiedProgram

variable (c : ClassifiedProgram)

/-- The generic model of an annotation with its arguments, and the table after these were read. -/
def applied? (steps : Nat) (m : SourceModule) (args : TypeArgs) (hint : TypeHint)
    (known : List Instance) : Option (DefinitionId × List FieldType × List Instance) :=
  match hint with
  | .name name =>
      if name = "None" then none
      else
        match c.resolve m name with
        | .classDef id => if c.kind id = .genericModel then some (id, [], known) else none
        | _ => none
  | .subscript base params =>
      match c.resolve m base with
      | .classDef id =>
          if c.kind id = .genericModel then
            some (id, params.mapM (c.resolveType steps m args) known)
          else none
      | _ => none
  | _ => none

theorem resolveType_of_applied {steps : Nat} {m : SourceModule} {args : TypeArgs} {hint : TypeHint}
    {known ready : List Instance} {generic : DefinitionId} {types : List FieldType}
    (h : c.applied? steps m args hint known = some (generic, types, ready)) :
    c.resolveType (steps + 1) m args hint known = c.apply generic types ready := by
  -- Only names and subscripts are applications, and both are read in the same way.
  cases hint with
  | name name =>
      simp only [applied?] at h
      split at h
      · cases h
      · next hname =>
          split at h
          · next id hresolve =>
              split at h
              · next hkind =>
                  cases h
                  simp only [resolveType, if_neg hname, namedType, hresolve, hkind]
              · cases h
          · cases h
  | subscript base params =>
      simp only [applied?] at h
      split at h
      · next id hresolve =>
          split at h
          · next hkind =>
              have hrun := Option.some.inj h
              rw [Prod.mk.injEq] at hrun
              rcases hrun with ⟨rfl, hrun⟩
              simp only [resolveType, subscriptType, hresolve, hkind]
              show c.apply id (params.mapM (c.resolveType steps m args) known).1
                (params.mapM (c.resolveType steps m args) known).2 = _
              rw [hrun]
          · cases h
      · cases h
  | _ => cases h

/-- An annotation with a generic model of the tree, and what was read for its arguments. -/
structure Reading where
  steps : Nat
  home : SourceModule
  args : TypeArgs
  hint : TypeHint
  before : List Instance
  generic : DefinitionId
  types : List FieldType
  /-- The table after the arguments were read. -/
  ready : List Instance
  applies : c.applied? steps home args hint before = some (generic, types, ready)
  declared : (c.modules.classDecl? generic).isSome

namespace Reading

variable {c} (r r' : c.Reading)

def type : FieldType := (c.resolveType (r.steps + 1) r.home r.args r.hint r.before).1

def after : List Instance := (c.resolveType (r.steps + 1) r.home r.args r.hint r.before).2

def id : DefinitionId := instanceId r.generic r.types

/-- The arguments of the annotation for the parameters of the model. -/
def own : TypeArgs := c.bindParameters r.generic r.types

def IsLegible : Prop := LegibleApplication r.generic r.types

/-- The identity of the reference was not met before. -/
def Registers : Prop := r.ready.any (·.id == r.id) = false

/-- No parameter has arguments that are namesakes. -/
def SetApart : Prop :=
  ∀ i < (c.parameters Program.stepLimit r.generic).length,
    ¬ FieldType.Namesakes (argumentAt r.types i) (argumentAt r'.types i)

/-- The definition of the reference is built with the arguments of the annotation. -/
structure Keeps (b : Building) : Prop where
  recorded : ∃ i, b.instances.find? (·.id == r.id) = some i ∧ i.generic = r.generic ∧ i.args = r.own
  fields : (c.referenced r.id b).1.map Model.fields =
    (c.modelOf r.generic r.own b).1.map Model.fields

section

variable {r r'} {id : DefinitionId} {b : Building}

theorem run_eq : c.resolveType (r.steps + 1) r.home r.args r.hint r.before =
    c.apply r.generic r.types r.ready := resolveType_of_applied c r.applies

theorem id_eq_of_type (h : r.type = .ref id) : r.id = id := by
  unfold type at h
  rw [run_eq, apply_eq] at h
  split at h
  · exact FieldType.ref.inj h
  · split at h
    · cases h
    · exact FieldType.ref.inj h

/-- The annotation that is read first records its arguments. -/
theorem after_of_registers (h : r.type = .ref id) (hnew : r.Registers) :
    r.after = r.ready ++ [⟨r.id, r.generic, r.own⟩] := by
  unfold type at h
  unfold after
  have hany : r.ready.any (·.id == instanceId r.generic r.types) = false := hnew
  rw [run_eq, apply_eq, hany] at h ⊢
  -- In a full table the annotation would not be a reference.
  by_cases hfull : instanceLimit ≤ r.ready.length
  · rw [if_neg (by decide), if_pos hfull] at h
    cases h
  · rw [if_neg (by decide), if_neg hfull]
    rfl

theorem find?_of_registers (h : r.type = .ref id) (hnew : r.Registers)
    (hlater : Later r.after b.instances) :
    b.instances.find? (·.id == r.id) = some ⟨r.id, r.generic, r.own⟩ := by
  rcases hlater.grows with ⟨rest, hrest⟩
  -- The instance is new, so that no earlier one is found instead of it.
  have hnone : r.ready.find? (·.id == r.id) = none := by
    rw [List.find?_eq_none]
    intro i hi hid
    have hany : r.ready.any (·.id == r.id) = true := List.any_eq_true.2 ⟨i, hi, hid⟩
    rw [hnew] at hany
    cases hany
  rw [← hrest, after_of_registers h hnew, List.find?_append, List.find?_append, hnone]
  simp

/-- The definition of an instance has the fields of its model with the arguments that are recorded. -/
theorem referenced_fields {i : Instance} (h : b.instances.find? (·.id == id) = some i)
    (hdeclared : (c.modules.classDecl? i.generic).isSome) :
    (c.referenced id b).1.map Model.fields = (c.modelOf i.generic i.args b).1.map Model.fields := by
  cases hdecl : c.modules.classDecl? i.generic with
  | none =>
      rw [hdecl] at hdeclared
      cases hdeclared
  | some decl =>
      -- Only the names of the model change.
      have hrun : (c.referenced id b).1 = (c.modelOf i.generic i.args b).1.map fun model =>
          { model with id, name := id.name, qualname := Program.qualname decl.1 id.name } := by
        simp only [ClassifiedProgram.referenced, bind, StateT.bind, get, getThe, MonadStateOf.get,
          StateT.get, pure, h, hdecl]
        rfl
      rw [hrun, Option.map_map]
      rfl

theorem keeps_of_recorded {i : Instance} (h : b.instances.find? (·.id == r.id) = some i)
    (hgeneric : i.generic = r.generic) (hargs : i.args = r.own) : r.Keeps b := by
  refine ⟨⟨i, h, hgeneric, hargs⟩, ?_⟩
  rw [referenced_fields h (hgeneric ▸ r.declared), hgeneric, hargs]

/-- The arguments for the parameters are equal exactly if none are namesakes. -/
theorem own_eq_iff (hlegible : r.IsLegible) (hlegible' : r'.IsLegible) (hid : r.id = r'.id) :
    r.generic = r'.generic ∧ (r.own = r'.own ↔ r.SetApart r') := by
  rcases instanceId_injective hlegible hlegible' hid with ⟨hgeneric, hlabels⟩
  have hbind : r'.own = TypeArgs.bind (c.parameters Program.stepLimit r.generic) r'.types := by
    rw [hgeneric]
    rfl
  refine ⟨hgeneric, ?_⟩
  rw [hbind]
  refine (bind_eq_iff _ _ _).trans (forall₂_congr fun i _ => ?_)
  -- Missing arguments are legible too, and have the same text on both sides.
  exact (legible_argumentAt hlegible.types i).eq_iff (legible_argumentAt hlegible'.types i)
    (label_argumentAt hlabels i)

/-- Of two annotations with the same reference the one that is read later keeps its arguments exactly if
it has the same model and the same arguments. Where the arguments are legible, it has the same model, and
the same arguments exactly if no parameter has arguments that are namesakes. -/
theorem references_keep_arguments_iff (href : r.type = .ref id) (href' : r'.type = .ref id) :
    (r.IsLegible → r'.IsLegible → r.generic = r'.generic ∧ (r.own = r'.own ↔ r.SetApart r')) ∧
      ∀ b : Building, r.Registers → Later r.after b.instances →
        (r'.Keeps b ↔ r.generic = r'.generic ∧ r.own = r'.own) := by
  have hid : r.id = r'.id :=
    calc
      r.id = id := id_eq_of_type href
      _ = r'.id := (id_eq_of_type href').symm
  refine ⟨fun hlegible hlegible' => own_eq_iff hlegible hlegible' hid, ?_⟩
  intro b hnew hlater
  -- What is recorded under the identity is what the first annotation recorded.
  have hfind := find?_of_registers href hnew hlater
  rw [hid] at hfind
  constructor
  · rintro ⟨⟨i, hi, hgeneric, hargs⟩, _⟩
    rw [hfind] at hi
    cases hi
    exact ⟨hgeneric, hargs⟩
  · rintro ⟨hgeneric, hown⟩
    exact keeps_of_recorded hfind hgeneric hown

end

end Reading

/-! ## Simple declarations -/

theorem shortName_generic : External.shortName "typing.Generic" = "Generic" := by
  simp only [External.shortName, External.splitLast?, Text.splitOn_dot]
  decide

/-- The kind of a class whose only base is a name from outside the tree. -/
theorem classifyNext_of_external {p : Program} {depth : Nat} {m : SourceModule} {d : ClassDecl}
    {id : DefinitionId} {base qualified : String} {kinds : List (DefinitionId × ClassKind)}
    (hdepth : p.classDepth = depth + 1) (hnew : kinds.lookup id = none)
    (hdecl : p.classDecl? id = some (m, d)) (hbases : d.bases = [.name base])
    (hresolve : p.resolve m base = .external qualified) :
    p.classifyNext kinds id =
      kinds ++ [(id, (Ancestry.none.add ⟨.ofExternal qualified, false⟩).result)] := by
  simp only [Program.classifyNext, hdepth, Program.classify, bind, StateT.bind, StateT.run, get,
    getThe, MonadStateOf.get, StateT.get, pure, hnew, List.not_mem_nil, if_false, set,
    MonadStateOf.set, StateT.set, hdecl, hbases, List.foldlM_cons, List.foldlM_nil,
    Program.baseAncestry, hresolve]
  rfl

/-- The kind of a class with two bases from outside the tree, of which the second one is the marker of
generic classes. -/
theorem classifyNext_of_generic {p : Program} {depth : Nat} {m : SourceModule} {d : ClassDecl}
    {id : DefinitionId} {base qualified marker : String} {params : List TypeHint}
    {kinds : List (DefinitionId × ClassKind)} (hdepth : p.classDepth = depth + 1)
    (hnew : kinds.lookup id = none) (hdecl : p.classDecl? id = some (m, d))
    (hbases : d.bases = [.name base, .type (.subscript marker params)])
    (hresolve : p.resolve m base = .external qualified)
    (hmarker : p.resolve m marker = .external "typing.Generic") :
    p.classifyNext kinds id =
      kinds ++ [(id, ((Ancestry.none.add ⟨.ofExternal qualified, false⟩).add ⟨.plain, true⟩).result)] := by
  simp only [Program.classifyNext, hdepth, Program.classify, bind, StateT.bind, StateT.run, get,
    getThe, MonadStateOf.get, StateT.get, pure, hnew, List.not_mem_nil, if_false, set,
    MonadStateOf.set, StateT.set, hdecl, hbases, List.foldlM_cons, List.foldlM_nil,
    Program.baseAncestry, hresolve, hmarker, shortName_generic]
  rfl

variable {c} in
/-- A generic model that is applied to a model without parameters. -/
theorem applied?_of_model {steps : Nat} {m : SourceModule} {args : TypeArgs} {base name : String}
    {generic id : DefinitionId} (hbase : c.resolve m base = .classDef generic)
    (hgeneric : c.kind generic = .genericModel) (hname : name ≠ "None")
    (hresolve : c.resolve m name = .classDef id) (hmodel : c.kind id = .model)
    (known : List Instance) :
    c.applied? (steps + 1) m args (.subscript base [.name name]) known =
      some (generic, [.ref id], known) := by
  have htype : c.resolveType (steps + 1) m args (.name name) known = (.ref id, known) := by
    simp [resolveType, hname, namedType, hresolve, hmodel, pure, StateT.pure]
  simp [applied?, hbase, hgeneric, bind, StateT.bind, pure, StateT.pure, htype]

end ClassifiedProgram

/-! ## Two models of the same name -/

namespace Sample

def classWith (name : String) (bases : List Expr) (attributes : List Attribute) : ClassDecl where
  name
  bases
  keywords := []
  docstring := none
  attributes
  computed := []
  assignments := []
  config := none

def itemClass : ClassDecl := classWith "I" [.name "M"] []

def itemModule (name : String) : SourceModule where
  key := [name ++ ".py"]
  dotted := name
  packageDirectory := none
  content := {
    imports := [.names 0 (some "pydantic") [⟨"BaseModel", some "M"⟩] false]
    classes := [itemClass]
    aliases := [] }
  bindings := [("I", .classDef), ("M", .external "pydantic.BaseModel")]
  stars := []
  inScope := false

def pageClass : ClassDecl :=
  classWith "P" [.name "M", .type (.subscript "G" [.name "T"])] [⟨"x", .name "T", none⟩]

def holderClass : ClassDecl :=
  classWith "H" [.name "M"]
    [⟨"p", .subscript "P" [.name "I"], none⟩, ⟨"q", .subscript "P" [.name "J"], none⟩]

/-- `P` is a generic model; `I` and `J` are the models of the name `I` of two other modules. -/
def pageModule : SourceModule where
  key := ["m.py"]
  dotted := "m"
  packageDirectory := none
  content := {
    imports := [
      .names 0 (some "typing") [⟨"Generic", some "G"⟩, ⟨"TypeVar", none⟩] false,
      .names 0 (some "pydantic") [⟨"BaseModel", some "M"⟩] false,
      .names 0 (some "a") [⟨"I", none⟩] false,
      .names 0 (some "b") [⟨"I", some "J"⟩] false]
    classes := [pageClass, holderClass]
    aliases := [("T", .call "TypeVar" [.literal (.str "T")] [])] }
  bindings := [
    ("H", .classDef), ("P", .classDef), ("T", .alias (.call "TypeVar" [.literal (.str "T")] [])),
    ("J", .imported ["b.py"] "I"), ("I", .imported ["a.py"] "I"),
    ("M", .external "pydantic.BaseModel"), ("TypeVar", .external "typing.TypeVar"),
    ("G", .external "typing.Generic")]
  stars := []
  inScope := true

def pageProgram : Program := [pageModule, itemModule "a", itemModule "b"]

def page : DefinitionId := ⟨"/m.py", "P"⟩

def holder : DefinitionId := ⟨"/m.py", "H"⟩

def itemOf (name : String) : DefinitionId := ⟨"/" ++ name ++ ".py", "I"⟩

def pages : ClassifiedProgram :=
  ⟨pageProgram,
    [(page, .genericModel), (holder, .model), (itemOf "a", .model), (itemOf "b", .model)]⟩

theorem resolve_generic : pages.resolve pageModule "G" = .external "typing.Generic" := by cbv

theorem resolve_page_base : pages.resolve pageModule "M" = .external "pydantic.BaseModel" := by cbv

theorem resolve_item_base (name : String) :
    pages.resolve (itemModule name) "M" = .external "pydantic.BaseModel" := by cbv

theorem resolve_page : pages.resolve pageModule "P" = .classDef page := by cbv

theorem resolve_item : pages.resolve pageModule "I" = .classDef (itemOf "a") := by cbv

theorem resolve_other_item : pages.resolve pageModule "J" = .classDef (itemOf "b") := by cbv

theorem classDecl?_page : pageProgram.classDecl? page = some (pageModule, pageClass) := rfl

theorem classDecl?_holder : pageProgram.classDecl? holder = some (pageModule, holderClass) := rfl

theorem classDecl?_item : pageProgram.classDecl? (itemOf "a") = some (itemModule "a", itemClass) := rfl

theorem classDecl?_other_item :
    pageProgram.classDecl? (itemOf "b") = some (itemModule "b", itemClass) := rfl

theorem classIds_pageProgram :
    pageProgram.classIds = [page, holder, itemOf "a", itemOf "b"] := by cbv

theorem classified_pageProgram : Program.classified pageProgram = pages := by
  have hdepth : pageProgram.classDepth = 4 + 1 := by
    rw [Program.classDepth, classIds_pageProgram]
    rfl
  -- The classes are classified one after the other.
  have hpage : pageProgram.classifyNext [] page = [(page, .genericModel)] :=
    ClassifiedProgram.classifyNext_of_generic hdepth rfl classDecl?_page rfl resolve_page_base
      resolve_generic
  have hholder : pageProgram.classifyNext [(page, .genericModel)] holder =
      [(page, .genericModel), (holder, .model)] :=
    ClassifiedProgram.classifyNext_of_external hdepth (by decide) classDecl?_holder rfl
      resolve_page_base
  have hitem : pageProgram.classifyNext [(page, .genericModel), (holder, .model)] (itemOf "a") =
      [(page, .genericModel), (holder, .model), (itemOf "a", .model)] :=
    ClassifiedProgram.classifyNext_of_external hdepth (by decide) classDecl?_item rfl
      (resolve_item_base "a")
  have hother : pageProgram.classifyNext
      [(page, .genericModel), (holder, .model), (itemOf "a", .model)] (itemOf "b") = pages.kinds :=
    ClassifiedProgram.classifyNext_of_external hdepth (by decide) classDecl?_other_item rfl
      (resolve_item_base "b")
  have hkinds : pageProgram.classKinds = pages.kinds := by
    rw [Program.classKinds, classIds_pageProgram]
    simp only [List.foldl_cons, List.foldl_nil, hpage, hholder, hitem, hother]
  rw [Program.classified, hkinds]
  rfl

theorem parameters_page : pages.parameters Program.stepLimit page = ["T"] := by
  have hdecl : pages.modules.classDecl? page = some (pageModule, pageClass) := classDecl?_page
  have hgeneric : pages.modules.resolve pageModule "G" = .external "typing.Generic" :=
    resolve_generic
  have hmarked : pageClass.bases.findSome? (pages.markedParameters? pageModule) = some ["T"] := by
    simp only [pageClass, classWith, List.findSome?_cons, ClassifiedProgram.markedParameters?,
      Program.isGenericMarker, hgeneric, ClassifiedProgram.shortName_generic]
    rfl
  rw [show Program.stepLimit = 32 + 1 from rfl, ClassifiedProgram.parameters]
  simp only [hdecl, hmarked]

/-- The reference to the item of a module is legible. -/
theorem legible_page {name : String} : LegibleApplication page [.ref (itemOf name)] := by
  refine ⟨by decide, ?_⟩
  intro t ht
  have hlabel : (FieldType.ref (itemOf name)).label = "I" := rfl
  rw [List.mem_singleton.1 ht]
  refine .leaf rfl ?_
  rw [hlabel]
  exact .of_ordinary (by decide) (by decide) (by decide)

/-- The annotation of the field `p`. -/
def first : pages.Reading where
  steps := 32
  home := pageModule
  args := []
  hint := .subscript "P" [.name "I"]
  before := []
  generic := page
  types := [.ref (itemOf "a")]
  ready := []
  applies := ClassifiedProgram.applied?_of_model resolve_page rfl (by decide) resolve_item rfl []
  declared := rfl

/-- The annotation of the field `q`. -/
def second : pages.Reading where
  steps := 32
  home := pageModule
  args := []
  hint := .subscript "P" [.name "J"]
  before := first.after
  generic := page
  types := [.ref (itemOf "b")]
  ready := first.after
  applies := ClassifiedProgram.applied?_of_model resolve_page rfl (by decide) resolve_other_item rfl _
  declared := rfl

def pageOfItem : DefinitionId := ⟨"/m.py", "P[I]"⟩

theorem type_first : first.type = .ref pageOfItem := by
  unfold ClassifiedProgram.Reading.type
  rw [ClassifiedProgram.Reading.run_eq, ClassifiedProgram.apply_eq]
  rfl

theorem type_second : second.type = .ref pageOfItem := by
  have hready : second.ready = [⟨pageOfItem, page, first.own⟩] :=
    ClassifiedProgram.Reading.after_of_registers type_first rfl
  unfold ClassifiedProgram.Reading.type
  rw [ClassifiedProgram.Reading.run_eq, ClassifiedProgram.apply_eq, hready]
  rfl

theorem own_eq (r : pages.Reading) (name : String) (hgeneric : r.generic = page)
    (htypes : r.types = [.ref (itemOf name)]) : r.own = [("T", .ref (itemOf name))] := by
  unfold ClassifiedProgram.Reading.own ClassifiedProgram.bindParameters
  rw [hgeneric, htypes, parameters_page]
  rfl

end Sample

/-- Both annotations are references to the same instance, with different arguments; it is built with those
of the first one. -/
theorem pages_share_instance :
    Sample.pages = Program.classified Sample.pageProgram ∧
      Sample.first.type = .ref Sample.pageOfItem ∧ Sample.second.type = .ref Sample.pageOfItem ∧
      Sample.first.own ≠ Sample.second.own ∧
      ∀ b : Building, Later Sample.first.after b.instances → ¬ Sample.second.Keeps b := by
  -- The arguments are the items of two modules.
  have hne : Sample.first.own ≠ Sample.second.own := by
    rw [Sample.own_eq Sample.first "a" rfl rfl, Sample.own_eq Sample.second "b" rfl rfl]
    simp [Sample.itemOf]
  refine ⟨Sample.classified_pageProgram.symm, Sample.type_first, Sample.type_second, hne, ?_⟩
  rintro b hlater ⟨⟨i, hi, _, hargs⟩, _⟩
  have hid : Sample.first.id = Sample.second.id :=
    calc
      Sample.first.id = Sample.pageOfItem :=
        ClassifiedProgram.Reading.id_eq_of_type Sample.type_first
      _ = Sample.second.id := (ClassifiedProgram.Reading.id_eq_of_type Sample.type_second).symm
  rw [← hid, ClassifiedProgram.Reading.find?_of_registers Sample.type_first rfl hlater] at hi
  cases hi
  exact hne hargs

theorem pages_keep_arguments_iff :
    Sample.first.type = .ref Sample.pageOfItem ∧ Sample.second.type = .ref Sample.pageOfItem ∧
      (Sample.first.IsLegible ∧ Sample.second.IsLegible) ∧
      (Sample.first.IsLegible → Sample.second.IsLegible →
        Sample.first.generic = Sample.second.generic ∧
          (Sample.first.own = Sample.second.own ↔ Sample.first.SetApart Sample.second)) ∧
      ∀ b : Building, Sample.first.Registers → Later Sample.first.after b.instances →
        (Sample.second.Keeps b ↔
          Sample.first.generic = Sample.second.generic ∧ Sample.first.own = Sample.second.own) :=
  ⟨Sample.type_first, Sample.type_second, ⟨Sample.legible_page, Sample.legible_page⟩,
    ClassifiedProgram.Reading.references_keep_arguments_iff Sample.type_first Sample.type_second⟩

end Resolution
end WireTypes
