import WireTypes.Proofs.Resolution.Bindings
import WireTypes.Proofs.Resolution.Agreement
import WireTypes.Proofs.Resolution.CatalogClosure

/-!
# Scope — what is collected is what the modules in scope bind

Names are listed in one way and looked up in another one: the names of a module are those that it binds and
those that its star imports bring, each star with a limit of its own, while a look-up has one limit for all
that it passes through.

- `Program.Binds`: a module in scope has a name that stands for the class;
- `mem_starNames_of_member`: a name that leads to a class through a star is listed for this star;
- `mem_scopeIds_iff`: so the classes in scope are those that are bound;
- `addInScope_ids`, `foldl_addInScope_ids`: which models and enumerations one class adds, and all of them;
- `scope_is_what_is_bound`: the models of the catalog are the bound classes that are models.
-/

namespace WireTypes
namespace Resolution

open Discovery Python

namespace Program

variable {p : Program} {m : SourceModule} {id : DefinitionId} {name : String} {key : Path}

/-! ## Names that lead to classes -/

/-- A name of a module in scope stands for the class. -/
def Binds (p : Program) (id : DefinitionId) : Prop :=
  ∃ m ∈ p, m.inScope = true ∧ ∃ name, p.lookup stepLimit m name = some (.classDef id)

/-- A submodule is no class. -/
theorem lookup_of_member {steps : Nat} (h : p.member steps key name = some (.classDef id)) :
    ∃ m, p.module? key = some m ∧ p.lookup steps m name = some (.classDef id) := by
  rw [member_eq] at h
  rcases Option.bind_eq_some_iff.1 h with ⟨m, hm, hfound⟩
  rcases Option.or_eq_some_iff.1 hfound with hlookup | ⟨_, hsubmodule⟩
  · exact ⟨m, hm, hlookup⟩
  · rcases Option.bind_eq_some_iff.1 hsubmodule with ⟨directory, _, hbelow⟩
    rcases Option.bind_eq_some_iff.1 hbelow with ⟨found, _, hmodule⟩
    cases hmodule

theorem mem_names_of_binding {b : Binding} (h : m.binding? name = some b) :
    name ∈ m.bindings.map Prod.fst :=
  List.mem_map.2 ⟨(name, b), mem_of_lookup_eq_some h, rfl⟩

/-- A name that a module does not bind itself comes through a star, and has no underscore in front. -/
theorem through_star_of_lookup {steps : Nat} (hfree : m.binding? name = none)
    (h : p.lookup (steps + 1) m name = some (.classDef id)) :
    name.startsWith "_" = false ∧
      ∃ star ∈ m.stars, p.member steps star name = some (.classDef id) := by
  rw [lookup_succ, hfree] at h
  by_cases hhidden : name.startsWith "_" = true
  · simp [hhidden] at h
  · have hplain : name.startsWith "_" = false := by simpa using hhidden
    simp only [hplain, Bool.false_eq_true, if_false, throughStars] at h
    rcases List.exists_of_findSome?_eq_some h with ⟨star, hstar, hmember⟩
    exact ⟨hplain, star, hstar, hmember⟩

/-- The names of a star are listed at least as far as a look-up goes, by induction on the steps that it has
left. -/
theorem mem_starNames_of_member {steps limit : Nat} (hlimit : steps ≤ limit)
    (hplain : name.startsWith "_" = false)
    (h : p.member steps key name = some (.classDef id)) : name ∈ p.starNames limit key := by
  induction steps generalizing limit key with
  | zero =>
      rcases lookup_of_member h with ⟨m, _, hlookup⟩
      rw [lookup] at hlookup
      cases hlookup
  | succ steps ih =>
      rcases lookup_of_member h with ⟨m, hm, hlookup⟩
      obtain ⟨rest, rfl⟩ : ∃ rest, limit = rest + 1 := ⟨limit - 1, by omega⟩
      simp only [starNames, hm]
      cases hbinding : m.binding? name with
      | some b =>
          have hnames := mem_names_of_binding hbinding
          exact List.mem_append_left _ (List.mem_filter.2 ⟨hnames, by simp [hplain]⟩)
      | none =>
          rcases through_star_of_lookup hbinding hlookup with ⟨_, star, hstar, hmember⟩
          have hbelow : name ∈ p.starNames rest star := ih (by omega) hmember
          exact List.mem_append_right _ (List.mem_flatMap.2 ⟨star, hstar, hbelow⟩)

theorem mem_boundNames_of_own {b : Binding} (h : m.binding? name = some b) (hb : b.isClass = false) :
    name ∈ p.boundNames m := by
  have hown : name ∈ (m.bindings.map Prod.fst).filter
      fun name => !(m.binding? name).any Binding.isClass :=
    List.mem_filter.2 ⟨mem_names_of_binding h, by simp [h, hb]⟩
  exact List.mem_mergeSort.2 (List.mem_eraseDups.2 (List.mem_append_left _ hown))

theorem mem_boundNames_of_star {star : Path} (hstar : star ∈ m.stars)
    (h : name ∈ p.starNames stepLimit star) : name ∈ p.boundNames m := by
  have hstars : name ∈ m.stars.flatMap (p.starNames stepLimit) := List.mem_flatMap.2 ⟨star, hstar, h⟩
  exact List.mem_mergeSort.2 (List.mem_eraseDups.2 (List.mem_append_right _ hstars))

/-- A name that stands for a class is bound as a class of the module, or it is among the listed names. -/
theorem mem_boundNames_of_lookup (h : p.lookup stepLimit m name = some (.classDef id)) :
    (m.binding? name = some .classDef ∧ id = m.classId name) ∨ name ∈ p.boundNames m := by
  cases hbinding : m.binding? name with
  | some b =>
      by_cases hclass : b.isClass = true
      · obtain rfl : b = .classDef := by
          cases b <;> first | rfl | cases hclass
        rw [stepLimit, lookup_succ, hbinding] at h
        cases h
        exact Or.inl ⟨rfl, rfl⟩
      · exact Or.inr (mem_boundNames_of_own hbinding (by simpa using hclass))
  | none =>
      rcases through_star_of_lookup hbinding h with ⟨hplain, star, hstar, hmember⟩
      have hlisted : name ∈ p.starNames stepLimit star :=
        mem_starNames_of_member (by decide) hplain hmember
      exact Or.inr (mem_boundNames_of_star hstar hlisted)

/-! ## Classes in scope -/

theorem mem_classes_of_mem_lastNames {classes : List ClassDecl} (h : name ∈ lastNames classes) :
    name ∈ classes.map ClassDecl.name := by
  induction classes with
  | nil => cases h
  | cons d rest ih =>
      unfold lastNames at h
      split at h
      · exact List.mem_cons_of_mem _ (ih h)
      · rcases List.mem_cons.1 h with rfl | hrest
        · exact List.mem_cons_self
        · exact List.mem_cons_of_mem _ (ih hrest)

/-- The classes that a module defines are those that it binds as its classes. -/
theorem mem_ownClassIds_iff (h : m.Declares) :
    id ∈ ownClassIds m ↔ ∃ name, m.binding? name = some .classDef ∧ id = m.classId name := by
  constructor
  · intro hid
    rcases List.mem_map.1 hid with ⟨name, hname, rfl⟩
    exact ⟨name, (h name).2 (mem_classes_of_mem_lastNames hname), rfl⟩
  · rintro ⟨name, hbinding, rfl⟩
    exact List.mem_map.2 ⟨name, ClassifiedProgram.mem_lastNames ((h name).1 hbinding), rfl⟩

theorem mem_boundClassIds_iff : id ∈ p.boundClassIds m ↔
    ∃ name ∈ p.boundNames m, p.lookup stepLimit m name = some (.classDef id) := by
  unfold boundClassIds
  rw [List.mem_filterMap]
  constructor
  · rintro ⟨name, hname, hid⟩
    refine ⟨name, hname, ?_⟩
    split at hid
    · next found hlookup =>
        cases hid
        exact hlookup
    · cases hid
  · rintro ⟨name, hname, hlookup⟩
    exact ⟨name, hname, by rw [hlookup]⟩

/-- The classes in scope are those that a module in scope binds. -/
theorem mem_scopeIds_iff (h : ∀ m ∈ p, m.Declares) : id ∈ p.scopeIds ↔ p.Binds id := by
  unfold scopeIds
  rw [List.mem_eraseDups, List.mem_flatMap]
  constructor
  · rintro ⟨m, hm, hid⟩
    rcases List.mem_filter.1 hm with ⟨hmem, hscope⟩
    refine ⟨m, hmem, hscope, ?_⟩
    rcases List.mem_append.1 hid with hown | hbound
    · rcases (mem_ownClassIds_iff (h m hmem)).1 hown with ⟨name, hbinding, rfl⟩
      refine ⟨name, ?_⟩
      rw [stepLimit, lookup_succ, hbinding]
      rfl
    · rcases mem_boundClassIds_iff.1 hbound with ⟨name, _, hlookup⟩
      exact ⟨name, hlookup⟩
  · rintro ⟨m, hmem, hscope, name, hlookup⟩
    refine ⟨m, List.mem_filter.2 ⟨hmem, hscope⟩, ?_⟩
    rcases mem_boundNames_of_lookup hlookup with hown | hname
    · exact List.mem_append_left _ ((mem_ownClassIds_iff (h m hmem)).2 ⟨name, hown⟩)
    · exact List.mem_append_right _ (mem_boundClassIds_iff.2 ⟨name, hname, hlookup⟩)

end Program

/-! ## Definitions in scope -/

namespace Collection

variable {c : ClassifiedProgram} {s : Collection}

/-- What a class in scope adds, as models and as enumerations. -/
structure Adds (c : ClassifiedProgram) (ids : List DefinitionId) (s s' : Collection) : Prop where
  grounded : c.Grounded s'.building
  models : s'.catalog.models.map Model.id
    = s.catalog.models.map Model.id ++ ids.filter fun id => c.kind id = .model
  enums : s'.catalog.enums.map Enumeration.id
    = s.catalog.enums.map Enumeration.id ++ ids.filter fun id => (c.kind id).isEnum

theorem Adds.nil (h : c.Grounded s.building) : Adds c [] s s := ⟨h, by simp, by simp⟩

theorem Adds.append {ids more : List DefinitionId} {s s' s'' : Collection} (h : Adds c ids s s')
    (h' : Adds c more s' s'') : Adds c (ids ++ more) s s'' := by
  refine ⟨h'.grounded, ?_, ?_⟩
  · rw [h'.models, h.models, List.filter_append, List.append_assoc]
  · rw [h'.enums, h.enums, List.filter_append, List.append_assoc]

theorem adds_model {id : DefinitionId} {model : Model} {building : Building}
    (hbuilt : c.Grounded building) (hkind : c.kind id = .model) (hid : model.id = id) :
    Adds c [id] s ({ s with building }.addModel id model) := by
  refine ⟨hbuilt, ?_, ?_⟩
  · simp [addModel, hkind, hid]
  · simp [addModel, hkind, ClassKind.isEnum]

theorem adds_enum {id : DefinitionId} {e : Enumeration} (h : c.Grounded s.building)
    (he : c.enumeration? id = some e) : Adds c [id] s ((s.addEnum e).see id) := by
  rcases enumeration?_spec he with ⟨hid, hkind⟩
  refine ⟨h, ?_, ?_⟩
  · have hmodel : c.kind id ≠ .model := by
      intro hmodel
      simp [hmodel, ClassKind.isEnum] at hkind
    simp [addEnum, see, hmodel]
  · simp [addEnum, see, hkind, hid]

/-- A model in scope is added as a model and an enumeration as an enumeration, and no other class. -/
theorem addInScope_adds (hdeclared : c.Declared) (h : c.Grounded s.building) (id : DefinitionId) :
    Adds c [id] s (addInScope c s id) := by
  unfold addInScope
  cases hkind : c.kind id with
  | model =>
      have hplain : c.kind id ≠ .plain := by
        rw [hkind]
        decide
      rcases ClassifiedProgram.modelOf_isSome (hdeclared id hplain) [] s.building with
        ⟨model, hmodel⟩
      have hbuilds := ClassifiedProgram.modelOf_grounds id [] s.building h
        fun _ ha => absurd ha List.not_mem_nil
      have hid : model.id = id := (hbuilds.2.2 model hmodel).1
      have hrun : (c.modelOf id []).run s.building = (some model, (c.modelOf id [] s.building).2) :=
        Prod.ext hmodel rfl
      simp only [hrun]
      exact adds_model hbuilds.1 hkind hid
  | enum =>
      rcases enumeration?_isSome hdeclared (by rw [hkind]; rfl) with ⟨e, he⟩
      simp only [he]
      exact adds_enum h he
  | strEnum =>
      rcases enumeration?_isSome hdeclared (by rw [hkind]; rfl) with ⟨e, he⟩
      simp only [he]
      exact adds_enum h he
  | genericModel => exact ⟨h, by simp [hkind], by simp [hkind, ClassKind.isEnum]⟩
  | plain => exact ⟨h, by simp [hkind], by simp [hkind, ClassKind.isEnum]⟩

theorem foldl_addInScope_adds (hdeclared : c.Declared) (h : c.Grounded s.building)
    (ids : List DefinitionId) : Adds c ids s (ids.foldl (addInScope c) s) := by
  induction ids generalizing s with
  | nil => exact .nil h
  | cons id rest ih =>
      have hfirst := addInScope_adds hdeclared h id
      exact hfirst.append (ih hfirst.grounded)

/-! ## Referenced definitions -/

/-- Nothing that is referenced becomes a model in scope, and no enumeration is lost. -/
theorem addReferenced_keeps (id : DefinitionId) :
    (addReferenced c s id).1.catalog.models = s.catalog.models ∧
      s.catalog.enums ⊆ (addReferenced c s id).1.catalog.enums := by
  unfold addReferenced
  cases hrun : (c.referenced id).run s.building with
  | mk model? building =>
      cases model? with
      | some model => exact ⟨rfl, List.Subset.refl _⟩
      | none =>
          cases c.enumeration? id with
          | some e => exact ⟨rfl, List.subset_append_left _ _⟩
          | none => exact ⟨rfl, List.Subset.refl _⟩

theorem close_keeps (budget : Nat) (s : Collection) (queue : List DefinitionId) :
    (close c budget s queue).catalog.models = s.catalog.models ∧
      s.catalog.enums ⊆ (close c budget s queue).catalog.enums := by
  fun_induction close c budget s queue with
  | case1 => exact ⟨rfl, List.Subset.refl _⟩
  | case2 budget s id rest hseen ih => exact ih
  | case3 => exact ⟨rfl, List.Subset.refl _⟩
  | case4 s id rest hnew budget next refs hstep ih =>
      have hone := addReferenced_keeps (c := c) (s := s) id
      rw [hstep] at hone
      exact ⟨ih.1.trans hone.1, List.Subset.trans hone.2 ih.2⟩

end Collection

namespace Program

/-- The models of a catalog are the models among the classes in scope, in their order, and every
enumeration among these is one of the enumerations. -/
theorem catalog_of_scope (p : Program) :
    p.classified.catalog.models.map Model.id
        = p.scopeIds.filter (fun id => p.classified.kind id = .model) ∧
      ∀ id ∈ p.scopeIds, (p.classified.kind id).isEnum = true →
        id ∈ p.classified.catalog.enums.map Enumeration.id := by
  have hempty : p.classified.Grounded Collection.empty.building :=
    (Collection.Collected.empty : Collection.Collected _ p.scopeIds _).grounded
  have hscope := Collection.foldl_addInScope_adds p.classified_declared hempty p.scopeIds
  have hclose := Collection.close_keeps (c := p.classified) p.classified.idCount
    (p.scopeIds.foldl (Collection.addInScope p.classified) Collection.empty)
    ((p.scopeIds.foldl (Collection.addInScope p.classified)
      Collection.empty).catalog.models.flatMap Model.refs)
  constructor
  · exact (congrArg (List.map Model.id) hclose.1).trans hscope.models
  · intro id hid hkind
    apply List.map_subset Enumeration.id hclose.2
    rw [hscope.enums]
    exact List.mem_append_right _ (List.mem_filter.2 ⟨hid, hkind⟩)

end Program

/-- The classes in scope are exactly those that a module in scope binds, each once. The models of the
catalog are the models among them, and its enumerations have all enumerations among them. The catalog is what
is found, if the numbers of its enumerations fit. -/
theorem scope_is_what_is_bound {t : FileTree} {roots : List Path} {entry : Path}
    {units : List SourceModule} (h : traverse t roots entry = .ok units) :
    (Program.scopeIds units).Nodup ∧
      (∀ id, id ∈ Program.scopeIds units ↔ Program.Binds units id) ∧
      (∀ named text, modulesOf t named text = .ok units →
        locate t named text = .ok (Program.classified units).catalog ∨
          locate t named text = .error .overflow ∧ ∃ e ∈ (Program.classified units).catalog.enums,
            (Program.classified units).isCounted e.id = false) ∧
      (∀ id, id ∈ (Program.classified units).catalog.models.map Model.id ↔
        Program.Binds units id ∧ (Program.classified units).kind id = .model) ∧
      (∀ id, Program.Binds units id → ((Program.classified units).kind id).isEnum = true →
        id ∈ (Program.classified units).catalog.enums.map Enumeration.id) := by
  have hbound (id : DefinitionId) : id ∈ Program.scopeIds units ↔ Program.Binds units id :=
    Program.mem_scopeIds_iff (traverse_declares h)
  have hcatalog := Program.catalog_of_scope units
  refine ⟨nodup_eraseDups _, hbound, ?_, ?_, ?_⟩
  · intro named text hmodules
    rcases (Program.classified units).located?_cases with ⟨hfound, _⟩ | ⟨hstops, hwhy⟩
    · exact .inl (by simp only [locate, hmodules, hfound])
    · exact .inr ⟨by simp only [locate, hmodules, hstops], hwhy⟩
  · intro id
    rw [hcatalog.1, List.mem_filter, hbound, decide_eq_true_iff]
  · intro id hid hkind
    exact hcatalog.2 id ((hbound id).2 hid) hkind

/-! ## A name that is imported under another one -/

namespace Sample.Namesakes

/-- A module `m` beside a directory without a package file, which has a module `m` too. -/
def tree : FileTree where
  entries := [
    (["a"], .directory),
    (["a", "m.py"], .file "from pydantic import BaseModel\nclass X(BaseModel): pass\n".toUTF8),
    (["m.py"], .file "from a.m import X as Y\nclass X(Y): pass\n".toUTF8)]
  workingDirectory := []

def inner : Path := ["a", "m.py"]

def outer : Path := ["m.py"]

/-- A class with this base and nothing else. -/
def derived (base : String) : ClassDecl where
  name := "X"
  bases := [.name base]
  keywords := []
  docstring := none
  attributes := []
  assignments := []
  config := none
  computed := []

def innerContent : Python.Module where
  imports := [.names 0 (some "pydantic") [⟨"BaseModel", none⟩] false]
  classes := [derived "BaseModel"]
  aliases := []

def outerContent : Python.Module where
  imports := [.names 0 (some "a.m") [⟨"X", some "Y"⟩] false]
  classes := [derived "Y"]
  aliases := []

def innerModule : SourceModule where
  key := inner
  dotted := "m"
  packageDirectory := none
  content := innerContent
  bindings := [("X", .classDef), ("BaseModel", .external "pydantic.BaseModel")]
  stars := []
  inScope := false

def outerModule : SourceModule where
  key := outer
  dotted := "m"
  packageDirectory := none
  content := outerContent
  bindings := [("X", .classDef), ("Y", .imported inner "X")]
  stars := []
  inScope := true

/-- The modules in the order of their visit. -/
def units : Program := [outerModule, innerModule]

-- Reading the text of a module is a deep recursion over its characters.
set_option maxRecDepth 100000 in
theorem readContent_inner : readContent tree inner = .ok innerContent := by cbv

set_option maxRecDepth 100000 in
theorem readContent_outer : readContent tree outer = .ok outerContent := by cbv

theorem linksOf_inner : linksOf tree [[]] inner innerContent.imports
    = .ok ⟨[("BaseModel", .external "pydantic.BaseModel")], [], []⟩ := by
  have hsegments : segmentsOf (some "pydantic") = ["pydantic"] := by
    change "pydantic".splitOn "." = _
    rw [Text.splitOn_dot]
    rfl
  have habsent : findModule? tree [[]] ["pydantic"] = none := by cbv
  have hlink : link tree [[]] inner Links.empty
      (.names 0 (some "pydantic") [⟨"BaseModel", none⟩] false)
        = .ok ⟨[("BaseModel", .external "pydantic.BaseModel")], [], []⟩ := by
    simp only [link, hsegments, habsent]
    rfl
  have hlinks : linksOf tree [[]] inner
      ([] ++ .names 0 (some "pydantic") [⟨"BaseModel", none⟩] false :: []) = _ :=
    linksOf_cons rfl hlink rfl
  exact hlinks

theorem linksOf_outer : linksOf tree [[]] outer outerContent.imports
    = .ok ⟨[("Y", .imported inner "X")], [], [(inner, .imported)]⟩ := by cbv

theorem packageTree_outer : packageTree tree outer = [] := by cbv

theorem visit_outer :
    (traversal tree [[]] outer).visit outer = .ok (outerModule, [(inner, .imported)]) := by
  rw [visit_of_links readContent_outer linksOf_outer]
  have hmodule : linkedModule tree
      (fun key => key == outer || (packageTree tree outer).contains key) outer outerContent
      ⟨[("Y", .imported inner "X")], [], [(inner, .imported)]⟩ = outerModule := by
    rw [packageTree_outer]
    cbv
  rw [hmodule]

theorem visit_inner : (traversal tree [[]] outer).visit inner = .ok (innerModule, []) := by
  rw [visit_of_links readContent_inner linksOf_inner]
  have hmodule : linkedModule tree
      (fun key => key == outer || (packageTree tree outer).contains key) inner innerContent
      ⟨[("BaseModel", .external "pydantic.BaseModel")], [], []⟩ = innerModule := by
    rw [packageTree_outer]
    cbv
  rw [hmodule]

theorem traverse_outer : traverse tree [[]] outer = .ok units := by
  have hfrontier : (traversal tree [[]] outer).frontier
      = ⟨[[], ["a"], inner], [], [(outer, .entry)]⟩ := by
    rw [frontier_of_alone packageTree_outer]
    cbv
  have hfollow : (⟨[[], ["a"], inner], [], []⟩ : Frontier).followAll [(inner, .imported)]
      = ⟨[[], ["a"]], [], [(inner, .imported)]⟩ := by cbv
  -- The entry is visited first, then what it imports, and then nothing is left.
  rw [traverse_eq, hfrontier, Frontier.explore_of_ok (by rfl) visit_outer, hfollow,
    Frontier.explore_of_ok (by rfl) visit_inner, Frontier.explore_of_nil (by rfl)]
  rfl

theorem binds_inner : units.Binds ⟨"/a/m.py", "X"⟩ := by
  refine ⟨outerModule, List.mem_cons_self, rfl, "Y", ?_⟩
  cbv

end Sample.Namesakes

/-- The class of the inner module is in scope, since the outer one gives it another name. -/
theorem renamed_class_is_in_scope :
    traverse Sample.Namesakes.tree [[]] Sample.Namesakes.outer = .ok Sample.Namesakes.units ∧
      (⟨"/a/m.py", "X"⟩ : DefinitionId) ∈ Sample.Namesakes.units.scopeIds := by
  have hscope := scope_is_what_is_bound Sample.Namesakes.traverse_outer
  exact ⟨Sample.Namesakes.traverse_outer, (hscope.2.1 _).2 Sample.Namesakes.binds_inner⟩

end Resolution
end WireTypes
