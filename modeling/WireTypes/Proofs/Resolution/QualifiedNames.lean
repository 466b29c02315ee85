import WireTypes.Proofs.Discovery.DottedNames
import WireTypes.Proofs.Python.ClassNames
import WireTypes.Proofs.Resolution.ModelInvariants
import WireTypes.Proofs.Resolution.Scope
import WireTypes.Proofs.Selection

/-!
# Qualified names — how far they identify definitions

A qualified name is the dotted name of a module and the name of a definition in it. The dotted name is
made of the names of the packages around the module, so that modules of different files may share it:
`r1/m.py` and `r2/m.py` are both `m`.

- `Model.IsOf`: the module that a model comes from;
- `catalog_isOf`: every model and every dependency of a catalog comes from a module;
- `qualname_eq_iff`: a qualified name shows the dotted name of the module and the name in it;
- `identifies_of_apart`: where different files have different dotted names, it excludes one model;
- `qualname_identifies_up_to_module`: what qualified names say of located definitions.
-/

namespace WireTypes

open Discovery Python Resolution Selection

/-! ## Where models come from -/

/-- A name that shows a class of the module: that of the class, or that of one of its applications. -/
def Discovery.SourceModule.Shows (home : SourceModule) (name : String) : Prop :=
  ∃ d ∈ home.content.classes, name = d.name ∨ ∃ parts, name = FieldType.bracketed d.name parts

/-- The model is one of the module: its identity leads to the file, and its qualified name starts with the
dotted name. -/
structure Model.IsOf (model : Model) (home : SourceModule) : Prop where
  module : model.id.module = home.key.display
  name : model.name = model.id.name
  qualname : model.qualname = Program.qualname home model.name
  shows : home.Shows model.name

section

variable {generic : DefinitionId} {types : List FieldType} {m : SourceModule} {d : ClassDecl}

theorem instanceId_module : (instanceId generic types).module = generic.module := by
  unfold instanceId
  split <;> rfl

theorem shows_instanceId (hd : d ∈ m.content.classes) (hname : d.name = generic.name) :
    m.Shows (instanceId generic types).name := by
  refine ⟨d, hd, ?_⟩
  rw [hname]
  unfold instanceId
  split
  · exact Or.inl rfl
  · exact Or.inr ⟨_, rfl⟩

theorem stable_isOf (c : ClassifiedProgram) :
    c.Stable (fun i => ∃ types, i.id = instanceId i.generic types)
      fun model => ∃ home ∈ c.modules, model.IsOf home := by
  constructor
  case applied => exact fun _ types _ => ⟨types, rfl⟩
  case assembled =>
    intro m d id args bases known hdecl
    rcases ClassifiedProgram.classDecl?_spec hdecl with ⟨hm, hmodule, hd, hname⟩
    exact ⟨m, hm, hmodule.symm, hname, rfl, d, hd, Or.inl rfl⟩
  case renamed =>
    rintro i m d model ⟨types, hid⟩ hdecl _
    rcases ClassifiedProgram.classDecl?_spec hdecl with ⟨hm, hmodule, hd, hname⟩
    refine ⟨m, hm, ?_, rfl, rfl, ?_⟩
    · show i.id.module = m.key.display
      rw [hid, instanceId_module, hmodule]
    · show m.Shows i.id.name
      rw [hid]
      exact shows_instanceId hd hname

theorem catalog_isOf (p : Program) : ∀ model ∈ p.classified.catalog.allModels,
    ∃ home ∈ p, model.IsOf home := (stable_isOf p.classified).catalog

end

/-! ## Names -/

/-- A name without points in front of its first bracket. -/
def Plain (name : String) : Prop := '.' ∉ name.toList.takeWhile (· != '[')

/-- A module whose dotted name can be seen in a qualified name. A bracket in it would be taken for the start of
an application: `m.P[b.Q[int]` is `P[b.Q[int]` in a module `m` and `Q[int]` in a module `m.P[b`. -/
structure Discovery.SourceModule.Legible (m : SourceModule) : Prop where
  nonempty : m.dotted ≠ ""
  brackets : '[' ∉ m.dotted.toList

section

variable {m m' : SourceModule} {name name' : String}

theorem plain_of_isName (h : Text.isName name = true) : Plain name := fun hpoint =>
  (Text.isName_ordinary h).1 ((List.takeWhile_subset _) hpoint)

theorem plain_bracketed (h : Text.isName name = true) (parts : List String) :
    Plain (FieldType.bracketed name parts) := by
  have hall : ∀ ch ∈ name.toList, (ch != '[') = true := by
    intro ch hch
    simpa using fun hbracket : ch = '[' => (Text.isName_ordinary h).2 (hbracket ▸ hch)
  have htext : (FieldType.bracketed name parts).toList =
      name.toList ++ '[' :: (", ".intercalate parts ++ "]").toList := by
    simp [FieldType.bracketed]
  unfold Plain
  rw [htext, List.takeWhile_append_of_pos hall]
  simpa using (Text.isName_ordinary h).1

/-- What comes before a point without a bracket is no part of a plain name. -/
theorem not_plain_of_point {front : List Char} (hfront : '[' ∉ front)
    (h : name.toList = front ++ '.' :: name'.toList) : ¬ Plain name := by
  intro hplain
  have hall : ∀ ch ∈ front, (ch != '[') = true := by
    intro ch hch
    simpa using fun hbracket : ch = '[' => hfront (hbracket ▸ hch)
  unfold Plain at hplain
  rw [h, List.takeWhile_append_of_pos hall] at hplain
  exact hplain (List.mem_append_right _ (by simp))

theorem qualname_toList (hm : m.dotted ≠ "") :
    (Program.qualname m name).toList = m.dotted.toList ++ '.' :: name.toList := by
  simp [Program.qualname, hm]

/-- A qualified name is no plain name. -/
theorem qualname_ne (hm : m.Legible) (hplain : Plain name') :
    Program.qualname m name ≠ name' := by
  rintro rfl
  exact not_plain_of_point hm.brackets (qualname_toList hm.nonempty) hplain

/-- Nothing stands between the end of a dotted name and the point before a plain name: it would be the
start of that name. -/
theorem eq_nil_of_rest {rest : List Char} (hrest : '[' ∉ rest) (hplain : Plain name)
    (h : '.' :: name.toList = rest ++ '.' :: name'.toList) : rest = [] ∧ name = name' := by
  cases rest with
  | nil => exact ⟨rfl, String.toList_inj.1 (List.cons.inj h).2⟩
  | cons ch rest =>
      have hname : name.toList = rest ++ '.' :: name'.toList := (List.cons.inj h).2
      have hfront : '[' ∉ rest := fun hmem => hrest (List.mem_cons_of_mem ch hmem)
      exact absurd hplain (not_plain_of_point hfront hname)

/-- A qualified name shows the dotted name of the module and the name in it. -/
theorem qualname_eq_iff (hm : m.Legible) (hm' : m'.Legible)
    (hplain : Plain name) (hplain' : Plain name') :
    Program.qualname m name = Program.qualname m' name' ↔ name = name' ∧ m.dotted = m'.dotted := by
  constructor
  · intro h
    have htext := congrArg String.toList h
    rw [qualname_toList hm.nonempty, qualname_toList hm'.nonempty] at htext
    -- One of the dotted names may go on behind the other.
    rcases List.append_eq_append_iff.1 htext with ⟨rest, hdotted, hname⟩ | ⟨rest, hdotted, hname⟩
    · have hrest : '[' ∉ rest := fun hmem => hm'.brackets (hdotted ▸ List.mem_append_right _ hmem)
      rcases eq_nil_of_rest hrest hplain hname with ⟨rfl, rfl⟩
      exact ⟨rfl, String.toList_inj.1 (by simpa using hdotted.symm)⟩
    · have hrest : '[' ∉ rest := fun hmem => hm.brackets (hdotted ▸ List.mem_append_right _ hmem)
      rcases eq_nil_of_rest hrest hplain' hname with ⟨rfl, rfl⟩
      exact ⟨rfl, String.toList_inj.1 (by simpa using hdotted)⟩
  · rintro ⟨rfl, hdotted⟩
    simp only [Program.qualname, hdotted]

end

/-! ## Located definitions -/

section

variable {t : FileTree} {roots : List Path} {entry : Path} {units : List SourceModule}

theorem readContent_named {key : Path} {content : Python.Module}
    (h : readContent t key = .ok content) : content.Named := by
  unfold readContent at h
  split at h
  · cases h
    exact .empty
  · split at h
    · cases h
    · split at h
      · cases h
        exact Python.Module.named_of_read ‹_›
      · cases h

theorem traverse_dotted (h : traverse t roots entry = .ok units) {m : SourceModule} (hm : m ∈ units) :
    m.dotted = dottedName t m.key := by
  rcases traverse_linked h m hm with ⟨inScope, content, links, _, _, hlinked⟩
  exact congrArg SourceModule.dotted hlinked

/-- The models of modules that were read have plain names. -/
theorem traverse_plain (h : traverse t roots entry = .ok units) {m : SourceModule} (hm : m ∈ units)
    {name : String} (hshows : m.Shows name) : Plain name := by
  rcases traverse_linked h m hm with ⟨inScope, content, links, hcontent, _, hlinked⟩
  have hnamed : m.content.Named := by
    rw [hlinked]
    exact readContent_named hcontent
  rcases hshows with ⟨d, hd, rfl | ⟨parts, rfl⟩⟩
  · exact plain_of_isName (hnamed d hd)
  · exact plain_bracketed (hnamed d hd) parts

/-- A qualified name excludes what has it, since it is the name of no model. -/
theorem isExcluded_qualname_iff {a b : Model} {home : SourceModule} (hhome : home.Legible)
    (ha : a.IsOf home) (hb : Plain b.name) :
    isExcluded [a.qualname] b = true ↔ a.qualname = b.qualname := by
  have hname : b.name ≠ a.qualname := fun heq =>
    qualname_ne hhome hb (ha.qualname.symm.trans heq.symm)
  simp [isExcluded, hname, eq_comm]

theorem modulesOf_of_locate {named : List String} {text : String} {catalog : Catalog}
    (h : locate t named text = .ok catalog) :
    ∃ units, modulesOf t named text = .ok units ∧ (Program.classified units).catalog = catalog := by
  unfold locate at h
  cases hmodules : modulesOf t named text with
  | error e =>
      simp only [hmodules] at h
      cases h
  | ok units =>
      rw [hmodules] at h
      rcases (Program.classified units).located?_cases with ⟨hfound, _⟩ | ⟨hstops, _⟩
      · simp only [hfound, Except.ok.injEq] at h
        exact ⟨units, rfl, h⟩
      · simp only [hstops] at h
        cases h

theorem traverse_of_modulesOf {named : List String} {text : String}
    (h : modulesOf t named text = .ok units) : ∃ roots key, traverse t roots key = .ok units := by
  unfold modulesOf at h
  dsimp only at h
  split at h
  · exact ⟨_, _, h⟩
  · cases h

end

/-! ## Files of different dotted names -/

/-- Different files have different dotted names. -/
def Resolution.Program.Apart (units : Program) : Prop :=
  ∀ m ∈ units, ∀ m' ∈ units, m.dotted = m'.dotted → m.key.display = m'.key.display

section

variable {units : Program} {models : List Model}

theorem Model.IsOf.id_eq {a b : Model} {home home' : SourceModule} (ha : a.IsOf home)
    (hb : b.IsOf home') (hname : a.name = b.name) (hfile : home.key.display = home'.key.display) :
    a.id = b.id := by
  have hmodule : a.id.module = b.id.module := ha.module.trans (hfile.trans hb.module.symm)
  have hidName : a.id.name = b.id.name := ha.name.symm.trans (hname.trans hb.name)
  calc
    a.id = ⟨a.id.module, a.id.name⟩ := rfl
    _ = ⟨b.id.module, b.id.name⟩ := by rw [hmodule, hidName]
    _ = b.id := rfl

/-- The qualified names of models of such files are those of one model each. -/
theorem identifies_of_apart (hsame : Identified models)
    (horigin : ∀ a ∈ models, ∃ home ∈ units, a.IsOf home) (hlegible : ∀ m ∈ units, m.Legible)
    (hplain : ∀ m ∈ units, ∀ name, m.Shows name → Plain name) (hapart : Program.Apart units) :
    Identifies models := by
  intro a ha b hb
  rcases horigin a ha with ⟨home, hhome, haOf⟩
  rcases horigin b hb with ⟨home', hhome', hbOf⟩
  have haPlain := hplain home hhome a.name haOf.shows
  have hbPlain := hplain home' hhome' b.name hbOf.shows
  rw [isExcluded_qualname_iff (hlegible home hhome) haOf hbPlain]
  constructor
  · intro hqualname
    rw [haOf.qualname, hbOf.qualname] at hqualname
    rcases (qualname_eq_iff (hlegible home hhome) (hlegible home' hhome') haPlain hbPlain).1 hqualname
      with ⟨hname, hdotted⟩
    have hid := haOf.id_eq hbOf hname (hapart home hhome home' hhome' hdotted)
    exact (hsame a ha b hb hid).symm
  · exact fun heq => heq ▸ rfl

end

/-- Every located model and dependency comes from a module. Its qualified name is that of another one exactly
if both have one name in modules of one dotted name, and it excludes just these. So it identifies
definitions where different files have different dotted names. Then a collision ends when all of its
models are excluded but one. -/
theorem qualname_identifies_up_to_module {t : FileTree} {roots : List String} {entry : String}
    {catalog : Catalog} (h : locate t roots entry = .ok catalog) :
    ∃ units, modulesOf t roots entry = .ok units ∧
      (∀ a ∈ catalog.allModels, ∃ home ∈ units, a.IsOf home) ∧
      (∀ m ∈ units, ∀ m' ∈ units, PlainChain t m.key → PlainChain t m'.key →
        (m.dotted = m'.dotted ↔ chain t m.key = chain t m'.key)) ∧
      ((∀ m ∈ units, m.Legible) →
        (∀ a ∈ catalog.allModels, ∀ b ∈ catalog.allModels, ∀ home ∈ units, ∀ home' ∈ units,
          a.IsOf home → b.IsOf home' →
            (a.qualname = b.qualname ↔ a.name = b.name ∧ home.dotted = home'.dotted) ∧
            (isExcluded [a.qualname] b = true ↔ a.qualname = b.qualname)) ∧
        (Program.Apart units →
          (∀ a ∈ catalog.allModels, ∀ b ∈ catalog.allModels, a.id ≠ b.id → a.qualname ≠ b.qualname) ∧
          (∀ a ∈ catalog.allModels, catalog.allModels.filter (isExcluded [a.qualname] ·) = [a]) ∧
          ∀ excluded collision, select catalog.allModels excluded = .error collision →
            ∀ keep ∈ collision.locations, ∃ others : List Model,
              (∀ m, m ∈ others ↔
                m ∈ catalog.allModels ∧ m.id ∈ collision.locations ∧ m.id ≠ keep) ∧
              others.length + 1 = collision.locations.length ∧
              (∀ c, select catalog.allModels (excluded ++ others.map (·.qualname)) = .error c →
                c.name ≠ collision.name) ∧
              ∀ retained,
                select catalog.allModels (excluded ++ others.map (·.qualname)) = .ok retained →
                  ∃ m ∈ retained, m.id = keep ∧ m.name = collision.name)) := by
  rcases modulesOf_of_locate h with ⟨units, hmodules, rfl⟩
  rcases traverse_of_modulesOf hmodules with ⟨searched, key, htraverse⟩
  have horigin := catalog_isOf units
  have hids : ((Program.classified units).catalog.allModels.map Model.id).Nodup :=
    (List.nodup_append.1 (Program.nodup_catalog_ids units)).1
  have hplain : ∀ m ∈ units, ∀ name, m.Shows name → Plain name :=
    fun m hm name hshows => traverse_plain htraverse hm hshows
  refine ⟨units, hmodules, horigin, ?_, fun hlegible => ⟨?_, fun hapart => ?_⟩⟩
  · intro m hm m' hm' hchain hchain'
    rw [traverse_dotted htraverse hm, traverse_dotted htraverse hm']
    exact dottedName_eq_iff hchain hchain'
  · intro a _ b _ home hhome home' hhome' ha hb
    have haPlain := hplain home hhome a.name ha.shows
    have hbPlain := hplain home' hhome' b.name hb.shows
    refine ⟨?_, isExcluded_qualname_iff (hlegible home hhome) ha hbPlain⟩
    rw [ha.qualname, hb.qualname]
    exact qualname_eq_iff (hlegible home hhome) (hlegible home' hhome') haPlain hbPlain
  · have hidentifies := identifies_of_apart (identified_of_nodup hids) horigin hlegible hplain hapart
    refine ⟨?_, ?_, ?_⟩
    · intro a ha b hb hne hqualname
      exact hne (congrArg Model.id (hidentifies.eq_of_qualname ha hb hqualname))
    · exact fun a ha => hidentifies.filter_isExcluded (hids.of_map _) ha
    · exact fun excluded collision hselect keep hkeep =>
        select_without_others hids hidentifies hselect hkeep

/-! ## Files of one dotted name -/

namespace Sample.TwoRoots

/-- Two directories with a module `m`. The modules `m` and `n` with one text import a class `X` from the
second one and define a class `X` of their own. -/
def tree : FileTree where
  entries := [
    (["r1"], .directory),
    (["r1", "m.py"], .file "from m import X as Y\nclass X(Y): pass\n".toUTF8),
    (["r2"], .directory),
    (["r2", "m.py"], .file "from pydantic import BaseModel as M\nclass X(M): pass\n".toUTF8),
    (["r2", "n.py"], .file "from m import X as Y\nclass X(Y): pass\n".toUTF8)]
  workingDirectory := []

def base : Path := ["r2", "m.py"]

/-- A class with this base and nothing else. -/
def derived (base : String) : ClassDecl where
  name := "X"
  bases := [.name base]
  keywords := []
  docstring := none
  attributes := []
  assignments := []
  config := none
  computed := []

def baseContent : Python.Module where
  imports := [.names 0 (some "pydantic") [⟨"BaseModel", some "M"⟩] false]
  classes := [derived "M"]
  aliases := []

def content : Python.Module where
  imports := [.names 0 (some "m") [⟨"X", some "Y"⟩] false]
  classes := [derived "Y"]
  aliases := []

def baseLinks : Links := ⟨[("M", .external "pydantic.BaseModel")], [], []⟩

def links : Links := ⟨[("Y", .imported base "X")], [], [(base, .imported)]⟩

def baseModule : SourceModule where
  key := base
  dotted := "m"
  packageDirectory := none
  content := baseContent
  bindings := [("X", .classDef), ("M", .external "pydantic.BaseModel")]
  stars := []
  inScope := false

def module (key : Path) (dotted : String) : SourceModule where
  key := key
  dotted := dotted
  packageDirectory := none
  content := content
  bindings := [("X", .classDef), ("Y", .imported base "X")]
  stars := []
  inScope := true

def units (key : Path) (dotted : String) : Program := [module key dotted, baseModule]

-- Reading the text of a module is a deep recursion over its characters.
set_option maxRecDepth 100000 in
theorem read_base : Python.Module.read "from pydantic import BaseModel as M\nclass X(M): pass\n"
    = .ok baseContent := by cbv

set_option maxRecDepth 100000 in
theorem read_content : Python.Module.read "from m import X as Y\nclass X(Y): pass\n" = .ok content := by
  cbv

theorem readContent_base : readContent tree base = .ok baseContent :=
  readContent_of_read (by cbv) (by cbv) read_base

theorem linksOf_base {t : FileTree} {roots : List Path} {key : Path}
    (habsent : findModule? t roots ["pydantic"] = none) :
    linksOf t roots key baseContent.imports = .ok baseLinks := by
  have hsegments : segmentsOf (some "pydantic") = ["pydantic"] := by
    change "pydantic".splitOn "." = _
    rw [Text.splitOn_dot]
    rfl
  have hlink : link t roots key Links.empty
      (.names 0 (some "pydantic") [⟨"BaseModel", some "M"⟩] false) = .ok baseLinks := by
    simp only [link, hsegments, habsent]
    rfl
  have hlinks : linksOf t roots key
      ([] ++ .names 0 (some "pydantic") [⟨"BaseModel", some "M"⟩] false :: []) = _ :=
    linksOf_cons rfl hlink rfl
  exact hlinks

/-- What is visited from a module of this text. -/
theorem traverse_of_content {roots : List Path} {key : Path} {dotted : String} {places rest : List Path}
    (hcontent : readContent tree key = .ok content)
    (hlinks : linksOf tree roots key content.imports = .ok links)
    (habsent : findModule? tree roots ["pydantic"] = none) (hscope : packageTree tree key = [])
    (hmodule : linkedModule tree (fun k => k == key || [].contains k) key content links =
      module key dotted)
    (hbase : linkedModule tree (fun k => k == key || [].contains k) base baseContent baseLinks =
      baseModule)
    (hstart : Frontier.start tree.paths key = ⟨places, [], [(key, .entry)]⟩)
    (hfollow : (⟨places, [], []⟩ : Frontier).followAll [(base, .imported)] =
      ⟨rest, [], [(base, .imported)]⟩) :
    traverse tree roots key = .ok (units key dotted) := by
  have hfrontier : (traversal tree roots key).frontier = ⟨places, [], [(key, .entry)]⟩ := by
    rw [frontier_of_alone hscope, hstart]
  have hvisit : (traversal tree roots key).visit key = .ok (module key dotted, [(base, .imported)]) := by
    rw [visit_of_links hcontent hlinks, hscope, hmodule]
    rfl
  have hvisitBase : (traversal tree roots key).visit base = .ok (baseModule, []) := by
    rw [visit_of_links readContent_base (linksOf_base habsent), hscope, hbase]
    rfl
  -- The entry is visited first, then what it imports, and then nothing is left.
  rw [traverse_eq, hfrontier, Frontier.explore_of_ok (by rfl) hvisit, hfollow,
    Frontier.explore_of_ok (by rfl) hvisitBase, Frontier.explore_of_nil (by rfl)]
  rfl

def first : Path := ["r1", "m.py"]

theorem traverse_first : traverse tree [["r2"], ["r1"]] first = .ok (units first "m") := by
  have hplaces : (Frontier.start tree.paths first) =
      ⟨[[], ["r1"], ["r2"], base, ["r2", "n.py"]], [], [(first, .entry)]⟩ := by cbv
  exact traverse_of_content (readContent_of_read (by cbv) (by cbv) read_content) (by cbv) (by cbv)
    (by cbv) (by cbv) (by cbv) hplaces (by cbv)

def second : Path := ["r2", "n.py"]

theorem traverse_second : traverse tree [["r2"]] second = .ok (units second "n") := by
  have hplaces : (Frontier.start tree.paths second) =
      ⟨[[], ["r1"], first, ["r2"], base], [], [(second, .entry)]⟩ := by cbv
  exact traverse_of_content (readContent_of_read (by cbv) (by cbv) read_content) (by cbv) (by cbv)
    (by cbv) (by cbv) (by cbv) hplaces (by cbv)

def baseId : DefinitionId := ⟨"/r2/m.py", "X"⟩

def firstId : DefinitionId := ⟨"/r1/m.py", "X"⟩

def secondId : DefinitionId := ⟨"/r2/n.py", "X"⟩

theorem classified_first : Program.classified (units first "m") =
    ⟨units first "m", [(baseId, .model), (firstId, .model)]⟩ := by cbv

theorem classified_second : Program.classified (units second "n") =
    ⟨units second "n", [(baseId, .model), (secondId, .model)]⟩ := by cbv

theorem ids_first :
    (Program.classified (units first "m")).catalog.models.map Model.id = [firstId, baseId] := by
  have hscope : Program.scopeIds (units first "m") = [firstId, baseId] := by cbv
  rw [(Program.catalog_of_scope _).1, hscope, classified_first]
  rfl

theorem ids_second :
    (Program.classified (units second "n")).catalog.models.map Model.id = [secondId, baseId] := by
  have hscope : Program.scopeIds (units second "n") = [secondId, baseId] := by cbv
  rw [(Program.catalog_of_scope _).1, hscope, classified_second]
  rfl

theorem entryKey?_of_steps {text : String} {names : Path} (hempty : text.isEmpty = false)
    (hsteps : Path.stepsOf text = names) (hwalk : tree.walk FileTree.linkLimit [] names = some names)
    (hkey : keyOf tree names = names) (roots : List Path) : entryKey? tree roots text = some names := by
  have hstart : FileTree.stepsFrom [] text = ([], Path.stepsOf text) := by simp [FileTree.stepsFrom]
  have hworking : tree.workingDirectory = [] := rfl
  have hfind : tree.find? text = some names := by
    simp only [FileTree.find?, hempty, hworking, hstart, hsteps, hwalk]
    rfl
  simp only [entryKey?, hfind, hkey]

theorem entryKey?_first (roots : List Path) : entryKey? tree roots "r1/m.py" = some first := by
  have hsteps : Path.stepsOf "r1/m.py" = first := by
    rw [Path.stepsOf, Text.splitOn_slash]
    rfl
  exact entryKey?_of_steps rfl hsteps (by cbv) (by cbv) roots

theorem entryKey?_second (roots : List Path) : entryKey? tree roots "r2/n.py" = some second := by
  have hsteps : Path.stepsOf "r2/n.py" = second := by
    rw [Path.stepsOf, Text.splitOn_slash]
    rfl
  exact entryKey?_of_steps rfl hsteps (by cbv) (by cbv) roots

theorem searchRoots_tree : searchRoots tree ["r2"] = [["r2"]] := by cbv

theorem modulesOf_first : modulesOf tree ["r2"] "r1/m.py" = .ok (units first "m") := by
  have hroots : rootsFor tree [["r2"]] first = [["r2"], ["r1"]] := by cbv
  simp only [modulesOf, searchRoots_tree, entryKey?_first, hroots, traverse_first]

theorem modulesOf_second : modulesOf tree ["r2"] "r2/n.py" = .ok (units second "n") := by
  have hroots : rootsFor tree [["r2"]] second = [["r2"]] := by cbv
  simp only [modulesOf, searchRoots_tree, entryKey?_second, hroots, traverse_second]

theorem apart_second : Program.Apart (units second "n") := by
  intro m hm m' hm' hdotted
  simp only [units, List.mem_pair] at hm hm'
  rcases hm with rfl | rfl <;> rcases hm' with rfl | rfl
  · rfl
  · exact absurd hdotted (by decide)
  · exact absurd hdotted (by decide)
  · rfl

theorem legible_second : ∀ m ∈ units second "n", m.Legible := by
  intro m hm
  simp only [units, List.mem_pair] at hm
  rcases hm with rfl | rfl
  · exact ⟨by decide, by decide⟩
  · exact ⟨by decide, by decide⟩

end Sample.TwoRoots

/-- No class of the modules has members. -/
theorem locate_of_modules {roots : List String} {entry : String} {key : Path} {dotted : String}
    (h : modulesOf Sample.TwoRoots.tree roots entry = .ok (Sample.TwoRoots.units key dotted)) :
    locate Sample.TwoRoots.tree roots entry =
      .ok (Program.classified (Sample.TwoRoots.units key dotted)).catalog := by
  let found := Program.classified (Sample.TwoRoots.units key dotted)
  have hcounted (id : DefinitionId) : found.isCounted id := by
    apply ClassifiedProgram.isCounted_of_unassigned
    intro m d hdecl
    have hclass := ClassifiedProgram.classDecl?_spec hdecl
    rcases List.mem_pair.1 hclass.1 with rfl | rfl <;> rw [List.mem_singleton.1 hclass.2.2.1] <;> rfl
  rcases found.located?_cases with ⟨hfound, _⟩ | ⟨_, e, _, he⟩
  · simp only [locate, h, hfound, found]
  · rw [hcounted] at he
    cases he

/-- The module `m` of the first directory and that of the second one both have a class `m.X`, and this name
excludes both of them. -/
theorem files_of_two_roots_share_qualname :
    ∃ catalog, locate Sample.TwoRoots.tree ["r2"] "r1/m.py" = .ok catalog ∧
      ∃ a ∈ catalog.allModels, ∃ b ∈ catalog.allModels, a.id ≠ b.id ∧ a.qualname = b.qualname ∧
        isExcluded [a.qualname] a = true ∧ isExcluded [a.qualname] b = true := by
  let program := Program.classified (Sample.TwoRoots.units Sample.TwoRoots.first "m")
  have hmodel : ∀ id ∈ [Sample.TwoRoots.firstId, Sample.TwoRoots.baseId],
      ∃ a ∈ program.catalog.allModels, a.id = id ∧ a.qualname = "m.X" := by
    intro id hid
    have hname : id.name = "X" := by
      rcases List.mem_pair.1 hid with rfl | rfl <;> rfl
    rw [← Sample.TwoRoots.ids_first] at hid
    rcases List.mem_map.1 hid with ⟨a, ha, rfl⟩
    have hall := Catalog.mem_allModels_of_mem ha
    rcases catalog_isOf _ a hall with ⟨home, hhome, hof⟩
    -- Both modules have the dotted name `m`.
    have hdotted : home.dotted = "m" := by
      rcases List.mem_pair.1 hhome with rfl | rfl <;> rfl
    refine ⟨a, hall, rfl, ?_⟩
    rw [hof.qualname, hof.name, hname, Program.qualname, hdotted]
    rfl
  rcases hmodel _ List.mem_cons_self with ⟨a, ha, haId, haName⟩
  rcases hmodel _ (List.mem_cons_of_mem _ List.mem_cons_self) with ⟨b, hb, hbId, hbName⟩
  refine ⟨program.catalog, locate_of_modules Sample.TwoRoots.modulesOf_first, a, ha, b, hb, ?_,
    haName.trans hbName.symm, ?_, ?_⟩
  · rw [haId, hbId]
    decide
  · simp [isExcluded]
  · simp [isExcluded, haName, hbName]

/-- The modules `n` and `m` of the second directory both have a class `X`, and the qualified name of one
excludes no other. -/
theorem files_of_one_root_have_own_qualnames :
    ∃ catalog, locate Sample.TwoRoots.tree ["r2"] "r2/n.py" = .ok catalog ∧
      ∃ a ∈ catalog.allModels, ∃ b ∈ catalog.allModels, a.id ≠ b.id ∧ a.qualname ≠ b.qualname ∧
        catalog.allModels.filter (isExcluded [a.qualname] ·) = [a] := by
  have hlocate := locate_of_modules Sample.TwoRoots.modulesOf_second
  rcases qualname_identifies_up_to_module hlocate with ⟨units, hmodules, _, _, hlegible⟩
  obtain rfl : Sample.TwoRoots.units Sample.TwoRoots.second "n" = units :=
    Except.ok.inj (Sample.TwoRoots.modulesOf_second.symm.trans hmodules)
  rcases (hlegible Sample.TwoRoots.legible_second).2 Sample.TwoRoots.apart_second with
    ⟨hdiffer, hexcludes, _⟩
  have hmodel : ∀ id ∈ [Sample.TwoRoots.secondId, Sample.TwoRoots.baseId], ∃ a ∈ (Program.classified
      (Sample.TwoRoots.units Sample.TwoRoots.second "n")).catalog.allModels, a.id = id := by
    intro id hid
    rw [← Sample.TwoRoots.ids_second] at hid
    rcases List.mem_map.1 hid with ⟨a, ha, rfl⟩
    exact ⟨a, Catalog.mem_allModels_of_mem ha, rfl⟩
  rcases hmodel _ List.mem_cons_self with ⟨a, ha, haId⟩
  rcases hmodel _ (List.mem_cons_of_mem _ List.mem_cons_self) with ⟨b, hb, hbId⟩
  have hne : a.id ≠ b.id := by
    rw [haId, hbId]
    decide
  exact ⟨_, hlocate, a, ha, b, hb, hne, hdiffer a ha b hb hne, hexcludes a ha⟩

end WireTypes
