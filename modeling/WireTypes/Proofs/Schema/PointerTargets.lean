import WireTypes.Proofs.Json.Pointer
import WireTypes.Proofs.Resolution.Applications
import WireTypes.Proofs.Resolution.CatalogClosure
import WireTypes.Proofs.Resolution.ResolutionOrder
import WireTypes.Proofs.Schema.Namespace

/-!
# Pointer targets — where the references of a document lead

A reference is written from the name of a definition as it is. Read as a pointer it leads to the
definition just if the name is literal, and names of applied generic models need not be.

- `tokens?_reference_iff`: a reference has two steps, the member of the definitions and the name, just if
  the name is literal;
- `resolve?_reference`: then it leads to the definition;
- `Program.reference_leads_iff`: so it is with every reference of a document that is written for a program.
-/

namespace WireTypes

/-! ## Identities of located definitions -/

/-- Where all identities are different, equal identities mean equal definitions. -/
theorem Catalog.uniqueIds_of_nodup {catalog : Catalog} {models : List Model}
    (h : catalog.ids.Nodup) (hmodels : ∀ m ∈ models, m ∈ catalog.allModels) :
    (catalog.withModels models).UniqueIds := by
  rcases List.nodup_append.1 h with ⟨hmodelIds, henumIds, hapart⟩
  have hall : ∀ m ∈ (catalog.withModels models).allModels, m ∈ catalog.allModels := by
    intro m hm
    rcases Catalog.mem_allModels_withModels.1 hm with hm | hm
    · exact hmodels m hm
    · exact hm
  refine ⟨?_, ?_, ?_⟩
  · intro a ha b hb hid
    exact List.inj_on_of_nodup_map hmodelIds (hall a ha) (hall b hb) hid
  · intro a ha b hb hid
    exact List.inj_on_of_nodup_map henumIds ha hb hid
  · intro m hm e he
    exact hapart m.id (List.mem_map_of_mem (hall m hm)) e.id (List.mem_map_of_mem he)

namespace Schema

open Synthesis
open Json.Pointer (tokens? resolve? at? IsLiteral unescape)

/-! ## References as pointers -/

section

variable {d : Draft} {doc : Document} {name : String} {entry : Json}

theorem tokens?_reference (d : Draft) (name : String) :
    tokens? (d.reference name) =
      some (d.defsKey :: (name.toList.splitOn '/').map fun token => String.ofList (unescape token)) := by
  -- The name of the member is one step, since it has neither slashes nor tildes.
  have hkey : '/' ∉ d.defsKey.toList ∧ String.ofList (unescape d.defsKey.toList) = d.defsKey := by
    cases d with
    | draft2020 => decide
    | draft07 => decide
  have hpath : (d.reference name).toList = '#' :: '/' :: (d.defsKey.toList ++ '/' :: name.toList) := by
    simp [Draft.reference]
  rw [Json.Pointer.tokens?_of_path hpath, List.splitOn_append_cons_self_of_not_mem hkey.1, List.map_cons, hkey.2]

/-- A reference leads into the definitions and takes the name as one step just if the name is literal. -/
theorem tokens?_reference_iff :
    tokens? (d.reference name) = some [d.defsKey, name] ↔ IsLiteral name := by
  rw [tokens?_reference, Option.some.injEq, List.cons.injEq, Json.Pointer.splitOn_map_unescape_iff]
  simp

theorem at?_definitions (h : doc.definition? name = some entry) :
    at? [doc.draft.defsKey, name] doc.toJson = some entry := by
  simp only [Document.definition?] at h
  simp [Document.toJson, at?, Json.lookup_insert_self, h]

theorem resolve?_reference (h : doc.definition? name = some entry) (hname : IsLiteral name) :
    resolve? doc.toJson (doc.draft.reference name) = some entry := by
  simp only [resolve?, tokens?_reference_iff.2 hname, Option.bind_some]
  exact at?_definitions h

end

/-! ## References of documents -/

/-- The definition of a retained model, or of an enumeration of the catalog. -/
def IsDefinition (models : List Model) (catalog : Catalog) (o : Options) (name : String)
    (entry : Json) : Prop :=
  (∃ m ∈ models, m.name = name ∧ ∃ t, WrittenModel (contextOf models catalog o) t true m entry) ∨
    ∃ e ∈ catalog.enums, e.name = name ∧ entry = enumSchema e

section

variable {models : List Model} {catalog : Catalog} {o : Options} {t : State}
  {schemas : List (String × Json)} {name target : String}

/-- A name of the document is that of a definition. -/
theorem Named.isDefinition (hunique : (catalog.withModels models).UniqueIds)
    (hsound : t.Sound (contextOf models catalog o))
    (howners : ∀ m ∈ models, t.owners.lookup m.name = some m.id)
    (hdefines : Defines (contextOf models catalog o) t models schemas)
    (h : Named (contextOf models catalog o) t name) :
    ∃ entry, Json.lookup name (definitionsOf schemas t.enums) = some entry ∧
      IsDefinition models catalog o name entry := by
  cases h with
  | retained hretained =>
      rcases mem_of_lookup_retained hretained with ⟨m, hm, _, rfl⟩
      rcases defines_model hunique hsound howners hdefines hm with ⟨entry, hentry, hwritten⟩
      exact ⟨entry, hentry, Or.inl ⟨m, hm, rfl, t, hwritten⟩⟩
  | enum _ henum howner hmet =>
      rename_i id e hnone
      have he : e ∈ catalog.enums := List.mem_of_find?_eq_some henum
      have hid : e.id = id := by simpa using List.find?_some henum
      rw [← hid] at howner
      exact ⟨_, defines_enum hunique hsound he howner hmet, Or.inr ⟨e, he, rfl, rfl⟩⟩

/-- Every reference of a document is written for the name of a definition. -/
theorem defined_of_refers (hunique : (catalog.withModels models).UniqueIds) {doc : Document}
    (hdoc : synthesize models catalog o = .ok doc) (href : Refers doc.toJson target) :
    ∃ name entry, target = doc.draft.reference name ∧ doc.definition? name = some entry ∧
      IsDefinition models catalog o name entry := by
  rcases synthesize_run hdoc with ⟨schemas, t, hrun, rfl⟩
  rcases writingOf_run hrun with ⟨hsound, howners, hdefines⟩
  rcases refers_toJson href with ⟨m, hm, htarget⟩ | ⟨d, hd, hrefers⟩
  · -- The root refers to models.
    rcases defines_model hunique hsound howners hdefines hm with ⟨entry, hentry, hwritten⟩
    exact ⟨m.name, entry, htarget, hentry, Or.inl ⟨m, hm, rfl, t, hwritten⟩⟩
  · have hmem : d ∈ schemas ∨ d ∈ t.enums := by
      rcases Json.mem_of_mem_insertAll hd with hmodel | henum
      · exact Or.inl (Json.mem_of_mem_insertAll_nil hmodel)
      · exact Or.inr (List.mem_mergeSort.1 henum)
    rcases named_of_refers hsound hdefines hmem hrefers with ⟨name, hnamed, htarget⟩
    rcases hnamed.isDefinition hunique hsound howners hdefines with ⟨entry, hentry, hdefinition⟩
    exact ⟨name, entry, htarget, hentry, hdefinition⟩

end

end Schema

namespace Resolution

open Discovery Python
open Schema (Options Document Refers IsDefinition refTo synthesize)
open Json.Pointer (tokens? resolve? IsLiteral)

/-- Every reference of a document that is written for a program is made for a definition. As a pointer it
has two steps, the last of them the name of the definition, just if this name is literal, and then it leads
there. -/
theorem Program.reference_leads_iff (p : Program) {models : List Model} {excluded : List String}
    {o : Options} {doc : Document}
    (hselect : select p.classified.catalog.allModels excluded = .ok models)
    (hdoc : synthesize models p.classified.catalog o = .ok doc) {target : String}
    (href : Refers doc.toJson target) :
    ∃ name entry, target = doc.draft.reference name ∧ doc.definition? name = some entry ∧
      IsDefinition models p.classified.catalog o name entry ∧
      (tokens? target = some [doc.draft.defsKey, name] ↔ IsLiteral name) ∧
      (IsLiteral name → resolve? doc.toJson target = some entry) := by
  have hunique : (p.classified.catalog.withModels models).UniqueIds :=
    Catalog.uniqueIds_of_nodup p.nodup_catalog_ids (mem_of_select hselect)
  rcases Schema.defined_of_refers hunique hdoc href with ⟨name, entry, rfl, hentry, hdefinition⟩
  exact ⟨name, entry, rfl, hentry, hdefinition, Schema.tokens?_reference_iff,
    Schema.resolve?_reference hentry⟩

/-! ## A name with a slash -/

/-- Names that are bound to external names and type variables lead to no class. -/
theorem Program.boundClassIds_of_foreign {p : Program} {m : SourceModule} (hstars : m.stars = [])
    (hforeign : ∀ x ∈ m.bindings, x.2 = .classDef ∨ (∃ qualified, x.2 = .external qualified) ∨
      ∃ value, x.2 = .alias value ∧ aliasTarget? value = some .typeVar) :
    p.boundClassIds m = [] := by
  refine List.filterMap_eq_nil_iff.2 fun name hname => ?_
  have hbinding : ∃ b, m.binding? name = some b ∧ b ≠ .classDef := by
    simp only [Program.boundNames, hstars, List.flatMap_nil, List.append_nil, List.mem_mergeSort,
      List.mem_eraseDups, List.mem_filter, List.mem_map] at hname
    rcases hname with ⟨⟨x, hx, rfl⟩, hclass⟩
    cases hb : m.binding? x.1 with
    | none =>
        have hne := List.lookup_eq_none_iff.1 hb x hx
        simp at hne
    | some b =>
        refine ⟨b, rfl, ?_⟩
        rintro rfl
        rw [hb] at hclass
        cases hclass
  rcases hbinding with ⟨b, hb, hne⟩
  have hmem : (name, b) ∈ m.bindings := by
    rcases List.lookup_eq_some_iff.1 hb with ⟨front, back, hsplit, _⟩
    rw [hsplit]
    exact List.mem_append_right _ List.mem_cons_self
  rw [show Program.stepLimit = 32 + 1 from rfl, Program.lookup, hb]
  rcases hforeign _ hmem with hclass | ⟨qualified, hexternal⟩ | ⟨value, halias, htarget⟩
  · exact absurd hclass hne
  · rw [show b = .external qualified from hexternal]
  · rw [show b = .alias value from halias]
    simp only [htarget]

namespace Sample.Slashed

def typeVariable : Expr := .call "TypeVar" [.literal (.str "T")] []

def pageClass : ClassDecl := classWith "P" [.name "M", .type (.subscript "G" [.name "T"])] []

/-- The annotation `P[L["a/b"]]`. -/
def hint : TypeHint := .subscript "P" [.subscript "L" [.str "a/b"]]

def holderClass : ClassDecl := classWith "H" [.name "M"] [⟨"p", hint, none⟩]

/-- `P` is a generic model, and `H` applies it to a literal with a slash. -/
def source : SourceModule where
  key := ["m.py"]
  dotted := "m"
  packageDirectory := none
  content := {
    imports := [
      .names 0 (some "typing")
        [⟨"Generic", some "G"⟩, ⟨"Literal", some "L"⟩, ⟨"TypeVar", none⟩] false,
      .names 0 (some "pydantic") [⟨"BaseModel", some "M"⟩] false]
    classes := [pageClass, holderClass]
    aliases := [("T", typeVariable)] }
  bindings := [
    ("H", .classDef), ("P", .classDef), ("T", .alias typeVariable),
    ("M", .external "pydantic.BaseModel"), ("TypeVar", .external "typing.TypeVar"),
    ("L", .external "typing.Literal"), ("G", .external "typing.Generic")]
  stars := []
  inScope := true

def program : ClassifiedProgram := ⟨[source], [(page, .genericModel), (holder, .model)]⟩

theorem resolve_base : program.resolve source "M" = .external "pydantic.BaseModel" := by cbv

theorem resolve_marker : program.resolve source "G" = .external "typing.Generic" := by cbv

theorem resolve_page : program.resolve source "P" = .classDef page := by cbv

theorem resolve_literal : program.resolve source "L" = .external "typing.Literal" := by cbv

theorem classDecl?_page : program.modules.classDecl? page = some (source, pageClass) := rfl

theorem classDecl?_holder : program.modules.classDecl? holder = some (source, holderClass) := rfl

theorem classIds_program : program.modules.classIds = [page, holder] := by cbv

theorem classified_source : Program.classified [source] = program := by
  have hdepth : program.modules.classDepth = 2 + 1 := by
    rw [Program.classDepth, classIds_program]
    rfl
  have hpage : program.modules.classifyNext [] page = [(page, .genericModel)] :=
    ClassifiedProgram.classifyNext_of_generic hdepth rfl classDecl?_page rfl resolve_base
      resolve_marker
  have hholder : program.modules.classifyNext [(page, .genericModel)] holder = program.kinds :=
    ClassifiedProgram.classifyNext_of_external hdepth (by decide) classDecl?_holder rfl resolve_base
  have hkinds : program.modules.classKinds = program.kinds := by
    rw [Program.classKinds, classIds_program]
    simp only [List.foldl_cons, List.foldl_nil, hpage, hholder]
  show ClassifiedProgram.mk program.modules program.modules.classKinds = program
  rw [hkinds]

theorem aliasTarget?_typeVariable : aliasTarget? typeVariable = some .typeVar := by
  have hfunction : Expr.lastSegmentOf "TypeVar" = "TypeVar" := by
    simp only [Expr.lastSegmentOf, Text.splitOn_dot]
    decide
  simp [typeVariable, aliasTarget?, hfunction]

theorem scopeIds_program : program.modules.scopeIds = [page, holder] := by
  have hbound : Program.boundClassIds program.modules source = [] := by
    refine Program.boundClassIds_of_foreign rfl ?_
    intro x hx
    simp only [source, List.mem_cons, List.not_mem_nil, or_false] at hx
    rcases hx with rfl | rfl | rfl | rfl | rfl | rfl | rfl
    · exact Or.inl rfl
    · exact Or.inl rfl
    · exact Or.inr (Or.inr ⟨_, rfl, aliasTarget?_typeVariable⟩)
    all_goals exact Or.inr (Or.inl ⟨_, rfl⟩)
  have hown : Program.ownClassIds source = [page, holder] := by cbv
  have hscope : program.modules.filter (·.inScope) = [source] := rfl
  rw [Program.scopeIds, hscope, List.flatMap_singleton, hbound, hown]
  rfl

/-! ## The models of the program -/

def slashedPage : DefinitionId := ⟨"/m.py", "P[Literal[\"a/b\"]]"⟩

def literal : FieldType := .literal [.str "a/b"]

def recorded : Instance := ⟨slashedPage, page, program.bindParameters page [literal]⟩

def holderModel : Model where
  id := holder
  name := "H"
  qualname := "m.H"
  docs := none
  fields := [.required "p" (.ref slashedPage)]
  extra := none

def pageModel : Model where
  id := slashedPage
  name := slashedPage.name
  qualname := "m.P[Literal[\"a/b\"]]"
  docs := none
  fields := []
  extra := none

theorem applied_hint (known : List Instance) :
    program.applied? 32 source [] hint known = some (page, [literal], known) := by
  have hshort : External.shortName "typing.Literal" = "Literal" := by
    simp only [External.shortName, External.splitLast?, Text.splitOn_dot]
    decide
  have hliteral : program.resolveType 32 source [] (.subscript "L" [.str "a/b"]) known =
      (literal, known) := by
    rw [show 32 = 31 + 1 from rfl, ClassifiedProgram.resolveType, ClassifiedProgram.subscriptType]
    simp only [resolve_literal, hshort]
    rfl
  have hgeneric : program.kind page = .genericModel := rfl
  simp [ClassifiedProgram.applied?, hint, resolve_page, hgeneric, bind, StateT.bind, pure,
    StateT.pure, hliteral]

theorem field?_holder (isLegacy : Bool) :
    program.field? source [] isLegacy ⟨"p", hint, none⟩ [] =
      (some (.required "p" (.ref slashedPage)), [recorded]) := by
  have hclassVar : program.isClassVar source hint = false := by
    simp [ClassifiedProgram.isClassVar, ClassifiedProgram.isClassVarWithin,
      ClassifiedProgram.isClassVarWithin.marks, hint, resolve_page]
  have hid : instanceId page [literal] = slashedPage := by cbv
  have htype : program.typeOf source [] hint [] = (.ref slashedPage, [recorded]) := by
    rw [ClassifiedProgram.typeOf, show Program.stepLimit = 32 + 1 from rfl,
      ClassifiedProgram.resolveType_of_applied _ (applied_hint []), ClassifiedProgram.apply_eq, hid]
    rfl
  exact ClassifiedProgram.field?_of_type (by cbv) hclassVar htype rfl isLegacy

/-- No base is a model of the tree. -/
theorem modelBase?_source {base : Expr} (hbase : base ∈ pageClass.bases) (args : TypeArgs)
    (known : List Instance) : program.modelBase? source args base known = (none, known) := by
  rcases List.mem_pair.1 hbase with rfl | rfl
  · simp only [ClassifiedProgram.modelBase?, resolve_base]
    rfl
  · simp only [ClassifiedProgram.modelBase?, resolve_marker]
    rfl

/-- What is kept when `H` is built. -/
def afterHolder : Building := ⟨[recorded], [(holder, holderModel)]⟩

theorem modelOf_holder : program.modelOf holder [] .empty = (some holderModel, afterHolder) := by
  have hbases : ∀ base ∈ holderClass.bases, ∀ known,
      program.modelBase? source [] base known = (none, known) := by
    intro base hbase
    exact modelBase?_source (List.mem_singleton.1 hbase ▸ List.mem_cons_self) []
  have hfields : program.fieldsOf source holder holderClass [] [] [] =
      ([.required "p" (.ref slashedPage)], [recorded]) := by
    simp [ClassifiedProgram.fieldsOf, holderClass, classWith, bind, StateT.bind, pure, StateT.pure,
      field?_holder, Field.upsertAll, Field.upsert]
  exact ClassifiedProgram.modelOf_of_class classDecl?_holder rfl hbases hfields rfl

theorem referenced_page : (program.referenced slashedPage afterHolder).1 = some pageModel := by
  have hrecorded : afterHolder.instances.find? (·.id == slashedPage) = some recorded := rfl
  have hknown : (if recorded.args.isEmpty then afterHolder.finished.lookup page else none) = none := by
    split <;> rfl
  have hbuilt := ClassifiedProgram.modelOf_of_class classDecl?_page hknown
    (fun base hbase => modelBase?_source hbase recorded.args) rfl rfl
  rw [ClassifiedProgram.referenced_of_instance hrecorded classDecl?_page]
  show (program.modelOf page recorded.args afterHolder).1.map _ = _
  rw [hbuilt]
  rfl

theorem catalog_program : program.catalog = ⟨[holderModel], [pageModel], []⟩ := by
  -- The models in scope are taken in: generic ones are left out.
  let inScope : Collection := ⟨⟨[holderModel], [], []⟩, [holder], afterHolder⟩
  have hscope : [page, holder].foldl (Collection.addInScope program) Collection.empty = inScope := by
    have hpage : Collection.addInScope program Collection.empty page = Collection.empty := rfl
    have hkind : program.kind holder = .model := rfl
    simp only [List.foldl_cons, List.foldl_nil, hpage]
    simp only [Collection.addInScope, hkind, StateT.run, Collection.empty, modelOf_holder]
    rfl
  have hrefs : inScope.catalog.models.flatMap Model.refs = [slashedPage] := rfl
  have hcount : program.idCount = 257 + 1 := by
    rw [ClassifiedProgram.idCount, classIds_program]
    rfl
  have hnew : slashedPage ∉ inScope.seen := by decide
  have hreferenced : (program.referenced slashedPage).run inScope.building =
      (some pageModel, (program.referenced slashedPage afterHolder).2) := Prod.ext referenced_page rfl
  rw [ClassifiedProgram.catalog, scopeIds_program, hscope]
  simp only [hrefs, hcount]
  rw [Collection.close, if_neg hnew]
  simp only [Collection.addReferenced, hreferenced]
  -- The model of the instance refers to nothing else.
  have hdone : [] ++ Model.refs pageModel = [] := rfl
  rw [hdone, Collection.close]
  rfl

def pageSchema : Json :=
  .obj [("title", .str pageModel.name), ("type", .str "object"), ("properties", .obj []),
    ("additionalProperties", .bool false)]

def document : Document where
  draft := .draft2020
  root := [
    ("title", .str "_Aggregate_"), ("type", .str "object"),
    ("properties", .obj [
      ("H", refTo .draft2020 "H"), (pageModel.name, refTo .draft2020 pageModel.name)]),
    ("required", Json.strings ["H", pageModel.name]), ("additionalProperties", .bool false)]
  definitions := [
    ("H", .obj [
      ("title", .str "H"), ("type", .str "object"),
      ("properties", .obj [("p", refTo .draft2020 pageModel.name)]), ("required", Json.strings ["p"]),
      ("additionalProperties", .bool false)]),
    (pageModel.name, pageSchema)]
  inclusion := .aggregator
  aggregator := "_Aggregate_"

theorem select_program : select program.catalog.allModels [] = .ok [holderModel, pageModel] := by
  rw [catalog_program]
  cbv

theorem synthesize_program :
    synthesize [holderModel, pageModel] program.catalog .standard = .ok document := by
  rw [catalog_program]
  cbv

/-- The root refers to both models. -/
theorem refers_document {name : String} (hname : name ∈ ["H", pageModel.name]) :
    Refers document.toJson (document.draft.reference name) := by
  have hproperties : document.toJson.get? "properties" = some (.obj
      [("H", refTo .draft2020 "H"), (pageModel.name, refTo .draft2020 pageModel.name)]) := rfl
  refine Schema.refers_obj_iff.2 (Or.inr ⟨_, Json.mem_of_lookup hproperties, refTo .draft2020 name, ?_,
    Schema.refers_refTo_iff.2 rfl⟩)
  rcases List.mem_pair.1 hname with rfl | rfl
  · exact List.mem_cons_self
  · exact List.mem_cons_of_mem _ List.mem_cons_self

end Sample.Slashed

/-- The reference to the applied generic model leads nowhere: its name is read as two steps. -/
theorem slashed_leads_nowhere :
    Sample.Slashed.program = Program.classified [Sample.Slashed.source] ∧
      ∃ models doc target entry,
        select Sample.Slashed.program.catalog.allModels [] = .ok models ∧
        synthesize models Sample.Slashed.program.catalog .standard = .ok doc ∧
        Refers doc.toJson target ∧ target = doc.draft.reference "P[Literal[\"a/b\"]]" ∧
        doc.definition? "P[Literal[\"a/b\"]]" = some entry ∧
        tokens? target = some ["$defs", "P[Literal[\"a", "b\"]]"] ∧
        resolve? doc.toJson target = none := by
  have href : Refers Sample.Slashed.document.toJson
      (Sample.Slashed.document.draft.reference "P[Literal[\"a/b\"]]") :=
    Sample.Slashed.refers_document (List.mem_cons_of_mem _ List.mem_cons_self)
  exact ⟨Sample.Slashed.classified_source.symm, _, Sample.Slashed.document, _,
    Sample.Slashed.pageSchema, Sample.Slashed.select_program, Sample.Slashed.synthesize_program, href,
    rfl, rfl, by decide, by decide⟩

theorem slashed_leads_to_holder :
    ∃ models doc entry,
      select (Program.classified [Sample.Slashed.source]).catalog.allModels [] = .ok models ∧
      synthesize models (Program.classified [Sample.Slashed.source]).catalog .standard = .ok doc ∧
      Refers doc.toJson "#/$defs/H" ∧ doc.definition? "H" = some entry ∧
      resolve? doc.toJson "#/$defs/H" = some entry := by
  have href : Refers Sample.Slashed.document.toJson "#/$defs/H" :=
    Sample.Slashed.refers_document List.mem_cons_self
  have hselect := Sample.Slashed.select_program
  have hdoc := Sample.Slashed.synthesize_program
  rw [← Sample.Slashed.classified_source] at hselect hdoc
  rcases Program.reference_leads_iff _ hselect hdoc href with ⟨name, entry, htarget, hentry, _, _, hleads⟩
  have hname : name = "H" := Schema.Draft.reference_injective htarget.symm
  subst hname
  exact ⟨_, _, entry, hselect, hdoc, href, hentry, hleads (by decide)⟩

end Resolution
end WireTypes
