import WireTypes.Proofs.Discovery.Exploration
import WireTypes.Proofs.Discovery.PackageTree
import WireTypes.Proofs.Files.Places

/-!
# Traversal — which imports of a module tree must load

- `load_spec`, `load_ok`: a module leads to modules that it imports, which are places without links and
  so paths of the tree;
- `traversal`: so the modules of an entry are an exploration;
- `traverse_error_iff`: when a traversal fails;
- `traverse_ok`: the modules that it gives otherwise;
- `traverse_requires_imports_iff`: when every imported module must load. The exception is a module of
  the package that is imported before its turn: its failure is forgiven when its turn comes.
-/

namespace WireTypes
namespace Discovery

/-! ## What a module leads to -/

namespace Links

variable {t : FileTree} {roots : List Path} {l : Links}

/-- Every edge is an import of a place without links. -/
def Inside (t : FileTree) (l : Links) : Prop := ∀ e ∈ l.edges, e.2 = .imported ∧ t.Direct e.1

theorem Inside.empty (t : FileTree) : Links.empty.Inside t := by
  intro e he
  cases he

theorem Inside.bind (h : l.Inside t) (name : String) (b : Binding) : (l.bind name b).Inside t := h

theorem Inside.needs (h : l.Inside t) {target : Path} (htarget : t.Direct target) :
    (l.needs target).Inside t := by
  intro e he
  rcases List.mem_append.1 he with hold | hnew
  · exact h e hold
  · rw [List.mem_singleton.1 hnew]
    exact ⟨rfl, htarget⟩

theorem Inside.needsAll {targets : List Path} (h : l.Inside t)
    (htargets : ∀ target ∈ targets, t.Direct target) : (l.needsAll targets).Inside t := by
  induction targets generalizing l with
  | nil => exact h
  | cons target rest ih =>
      have hnext := h.needs (htargets target List.mem_cons_self)
      exact ih hnext fun other hother => htargets other (List.mem_cons_of_mem _ hother)

theorem Inside.importModule (h : l.Inside t) (name : String) (rename : Option String) :
    (l.importModule t roots name rename).Inside t := by
  -- The targets are modules that were found, for the name itself and for the packages around it.
  have htargets : ∀ target ∈ (enclosing (name.splitOn ".")).filterMap (findModule? t roots) ++
      (findModule? t roots (name.splitOn ".")).toList, t.Direct target := by
    intro target htarget
    rcases List.mem_append.1 htarget with houter | hlast
    · rcases List.mem_filterMap.1 houter with ⟨segments, _, hfound⟩
      exact findModule?_direct hfound
    · exact findModule?_direct (Option.mem_toList.1 hlast)
  have hneeds := h.needsAll htargets
  unfold Links.importModule
  cases rename with
  | none => exact hneeds.bind _ _
  | some new => exact hneeds.bind _ _

theorem Inside.importName (h : l.Inside t) (target : Path) (n : Python.ImportedName) :
    (Links.importName t target l n).Inside t := by
  unfold Links.importName
  split
  · next submodule hfound =>
      rcases Option.bind_eq_some_iff.1 hfound with ⟨directory, _, hmodule⟩
      exact (h.needs (moduleAt?_direct hmodule)).bind _ _
  -- A name that is no submodule is a member of its module, which was queued before.
  · exact h.bind _ _

theorem Inside.importNames {target : Path} (h : l.Inside t) (htarget : t.Direct target)
    (names : List Python.ImportedName) (star : Bool) :
    (Links.importNames t l target names star).Inside t := by
  have hnames : ∀ (names : List Python.ImportedName) (l : Links), l.Inside t →
      (names.foldl (Links.importName t target) l).Inside t := by
    intro names
    induction names with
    | nil => exact fun l hl => hl
    | cons n rest ih => exact fun l hl => ih _ (hl.importName target n)
  have hall := hnames names _ (h.needs htarget)
  unfold Links.importNames
  cases star with
  | true => exact hall
  | false => exact hall

theorem Inside.importExternal (h : l.Inside t) (target : String) (names : List Python.ImportedName) :
    (l.importExternal target names).Inside t := by
  unfold Links.importExternal
  induction names generalizing l with
  | nil => exact h
  | cons n rest ih => exact ih (h.bind _ _)

end Links

section

variable {t : FileTree} {roots : List Path}

theorem link_inside {key : Path} {l l' : Links} {i : Python.Import} (h : l.Inside t)
    (hlink : link t roots key l i = .ok l') : l'.Inside t := by
  -- An import of a module, one from an absolute name, and a relative one, which must be found.
  unfold link at hlink
  split at hlink
  · cases hlink
    exact h.importModule _ _
  · split at hlink
    · next target hfound =>
        cases hlink
        exact h.importNames (findModule?_direct hfound) _ _
    · cases hlink
      exact h.importExternal _ _
  · split at hlink
    · next target hfound =>
        cases hlink
        rcases Option.bind_eq_some_iff.1 hfound with ⟨base, _, hmodule⟩
        exact h.importNames (moduleAt?_direct hmodule) _ _
    · cases hlink

theorem foldlM_link_inside {key : Path} {imports : List Python.Import} {l l' : Links}
    (h : l.Inside t) (hlinks : imports.foldlM (link t roots key) l = .ok l') : l'.Inside t := by
  -- Every import adds edges to those of the imports before it.
  induction imports generalizing l with
  | nil =>
      cases hlinks
      exact h
  | cons i rest ih =>
      rw [List.foldlM_cons] at hlinks
      cases hlink : link t roots key l i with
      | error e =>
          rw [hlink] at hlinks
          cases hlinks
      | ok next =>
          rw [hlink] at hlinks
          exact ih (link_inside h hlink) hlinks

theorem load_of_error {inScope : Path → Bool} {key : Path} {e : LoadError}
    (hcontent : readContent t key = .error e) :
    SourceModule.load t roots inScope key = .error e := by
  rw [SourceModule.load, hcontent]
  rfl

theorem load_of_ok {inScope : Path → Bool} {key : Path} {content : Python.Module} {links : Links}
    (hcontent : readContent t key = .ok content)
    (hlinks : content.imports.foldlM (link t roots key) Links.empty = .ok links) :
    ∃ m, m.key = key ∧ m.inScope = inScope key ∧
      SourceModule.load t roots inScope key = .ok (m, links.edges) := by
  simp only [SourceModule.load, hcontent, bind, Except.bind, hlinks]
  exact ⟨_, rfl, rfl, rfl⟩

theorem load_spec {inScope : Path → Bool} {key : Path} {m : SourceModule}
    {edges : List (Path × Edge)} (h : SourceModule.load t roots inScope key = .ok (m, edges)) :
    m.key = key ∧ m.inScope = inScope key ∧ (∃ content, readContent t key = .ok content) ∧
      ∀ e ∈ edges, e.2 = .imported ∧ t.Direct e.1 := by
  cases hcontent : readContent t key with
  | error e =>
      rw [load_of_error hcontent] at h
      cases h
  | ok content =>
      cases hlinks : content.imports.foldlM (link t roots key) Links.empty with
      | error e =>
          simp only [SourceModule.load, hcontent, bind, Except.bind, hlinks] at h
          cases h
      | ok links =>
          rcases load_of_ok hcontent hlinks with ⟨m', hkey, hscope, hload⟩
          rw [hload] at h
          cases h
          exact ⟨hkey, hscope, ⟨content, rfl⟩, foldlM_link_inside (Links.Inside.empty t) hlinks⟩

/-- A module that loads has the key that it was loaded by, and leads to imports within the tree. -/
theorem load_ok {inScope : Path → Bool} {key : Path} {m : SourceModule} {edges : List (Path × Edge)}
    (h : SourceModule.load t roots inScope key = .ok (m, edges)) :
    m.key = key ∧ ∀ e ∈ edges, e.2 = .imported ∧ e.1 ∈ t.paths := by
  rcases load_spec h with ⟨hkey, _, _, hedges⟩
  exact ⟨hkey, fun e he => ⟨(hedges e he).1, (hedges e he).2.mem⟩⟩

end

/-! ## The modules of an entry -/

/-- The modules in the package of the entry are the children. -/
def traversal (t : FileTree) (roots : List Path) (entry : Path) :
    Exploration LoadError SourceModule where
  visit := SourceModule.load t roots fun key => key == entry || (packageTree t entry).contains key
  places := t.paths
  first := entry
  children := packageTree t entry
  distinct := (packageTree_spec t entry).1
  children_places := (packageTree_spec t entry).2
  imports := fun h => (load_ok h).2

theorem traversal_visit (t : FileTree) (roots : List Path) (entry key : Path) :
    (traversal t roots entry).visit key =
      SourceModule.load t roots (fun key => key == entry || (packageTree t entry).contains key) key :=
  rfl

theorem traverse_eq (t : FileTree) (roots : List Path) (entry : Path) :
    traverse t roots entry =
      (traversal t roots entry).frontier.explore (traversal t roots entry).visit := rfl

section

variable (t : FileTree) (roots : List Path) (entry : Path)

theorem traverse_error_iff :
    (∃ e, traverse t roots entry = .error e) ↔ (traversal t roots entry).Aborts := by
  rw [traverse_eq]
  exact (traversal t roots entry).explore_error_iff

/-- The modules of a traversal are those that are led to and load, each once. -/
theorem traverse_ok {units : List SourceModule} (h : traverse t roots entry = .ok units) :
    (units.map SourceModule.key).Nodup ∧
      ∀ key, key ∈ units.map SourceModule.key ↔
        (traversal t roots entry).Leads key ∧ ¬ (traversal t roots entry).Fails key := by
  rw [traverse_eq] at h
  rcases Exploration.explore_ok h with ⟨done, rfl, honce, hdone⟩
  -- A module has the key by which it was visited: the keys of the results are the places that succeed.
  have hkeys : ((traversal t roots entry).results done).map SourceModule.key =
      done.filter (traversal t roots entry).succeeds := by
    clear honce hdone h
    induction done with
    | nil => rfl
    | cons p rest ih =>
        cases hvisit : (traversal t roots entry).visit p with
        | ok r =>
            rcases r with ⟨m, edges⟩
            have hkey := (load_ok ((traversal_visit t roots entry p).symm.trans hvisit)).1
            rw [Exploration.results_cons_ok _ rest hvisit, List.map_cons, ih, hkey,
              List.filter_cons_of_pos (Exploration.succeeds_of_ok _ hvisit)]
        | error e =>
            have hfails : ¬ (traversal t roots entry).succeeds p = true := by
              rw [Exploration.not_succeeds _ ⟨e, hvisit⟩]
              decide
            rw [Exploration.results_cons_error _ rest hvisit, ih, List.filter_cons_of_neg hfails]
  rw [hkeys]
  refine ⟨honce, fun key => ?_⟩
  rw [List.mem_filter, hdone]
  refine and_congr_right fun _ => ?_
  cases hvisit : (traversal t roots entry).visit key with
  | ok r =>
      exact iff_of_true (Exploration.succeeds_of_ok _ hvisit) (Exploration.not_fails_of_ok _ hvisit)
  | error e =>
      rw [Exploration.not_succeeds _ ⟨e, hvisit⟩]
      exact iff_of_false (by decide) fun hnot => hnot ⟨e, hvisit⟩

/-- A module that is imported must load: the targets of all imports are among the modules that a
traversal gives, and it fails just if the entry fails or a module that is imported. -/
def RequiresImports : Prop :=
  (∀ units, traverse t roots entry = .ok units → ∀ u ∈ units, ∀ target,
      (traversal t roots entry).Needs u.key target → target ∈ units.map SourceModule.key) ∧
    ((∃ e, traverse t roots entry = .error e) ↔
      (traversal t roots entry).Fails entry ∨
        ∃ importer target, (traversal t roots entry).Leads importer ∧
          (traversal t roots entry).Needs importer target ∧ (traversal t roots entry).Fails target)

/-- Imported modules must load, except where a module of the package is imported before its own turn
and fails then. -/
theorem traverse_requires_imports_iff :
    RequiresImports t roots entry ↔
      ∀ importer target, (traversal t roots entry).Overlooks importer target →
        (traversal t roots entry).Aborts := by
  have herror := traverse_error_iff t roots entry
  constructor
  · rintro ⟨_, hfails⟩ importer target ⟨hleads, hneeds, htarget, _⟩
    exact herror.1 (hfails.2 (Or.inr ⟨importer, target, hleads, hneeds, htarget⟩))
  · intro h
    -- An import that fails is overlooked, or it ends the traversal.
    have haborts : ∀ {importer target}, (traversal t roots entry).Leads importer →
        (traversal t roots entry).Needs importer target →
        (traversal t roots entry).Fails target → (traversal t roots entry).Aborts := by
      intro importer target hleads hneeds htarget
      by_cases hprecedes : (traversal t roots entry).Precedes importer target
      · exact h importer target ⟨hleads, hneeds, htarget, hprecedes⟩
      · exact Or.inr ⟨importer, target, hleads, hneeds, htarget, hprecedes⟩
    constructor
    · intro units hunits u hu target hneeds
      have hkeys := (traverse_ok t roots entry hunits).2
      have hleads := ((hkeys u.key).1 (List.mem_map_of_mem hu)).1
      refine (hkeys target).2 ⟨.needed hleads hneeds, fun htarget => ?_⟩
      rcases herror.2 (haborts hleads hneeds htarget) with ⟨e, he⟩
      rw [hunits] at he
      cases he
    · rw [herror]
      constructor
      · rintro (hfirst | ⟨importer, target, hleads, hneeds, htarget, _⟩)
        · exact Or.inl hfirst
        · exact Or.inr ⟨importer, target, hleads, hneeds, htarget⟩
      · rintro (hfirst | ⟨importer, target, hleads, hneeds, htarget⟩)
        · exact Or.inl hfirst
        · exact haborts hleads hneeds htarget

end

/-! ## A child that is imported before its turn -/

/-- The file of a package is no module in it. -/
theorem childKey?_packageFile {t : FileTree} {directory : Path} {entry : FileTree.Entry}
    (h : entry.isDirectory = false) : childKey? t directory packageFile entry = none := by
  simp [childKey?, h]

namespace Sample

/-- A package that imports its only submodule, which is no module. -/
def package : FileTree where
  entries := [
    (["pkg"], .directory),
    (["pkg", "__init__.py"], .file "from . import broken\n".toUTF8),
    (["pkg", "broken"], .directory),
    (["pkg", "broken", "__init__.py"], .file "class A(:\n".toUTF8)]
  workingDirectory := []

def packageKey : Path := ["pkg", "__init__.py"]

def brokenKey : Path := ["pkg", "broken", "__init__.py"]

theorem submodules_package : submodules package packageKey = [brokenKey] := by
  -- The module of the package itself is among the children of its directory, and no submodule.
  have hdirectory : packageDirectory? package packageKey = some ["pkg"] := by cbv
  have hchildren : package.children ["pkg"] =
      [(packageFile, .file "from . import broken\n".toUTF8), ("broken", .directory)] := by cbv
  have hfile : childKey? package ["pkg"] packageFile (.file "from . import broken\n".toUTF8) = none :=
    childKey?_packageFile rfl
  have hchild : childKey? package ["pkg"] "broken" .directory = some brokenKey := by cbv
  simp only [submodules, hdirectory, packageChildren, hchildren, List.filterMap_cons,
    List.filterMap_nil, hfile, hchild]

theorem submodules_broken : submodules package brokenKey = [] := by
  have hdirectory : packageDirectory? package brokenKey = some ["pkg", "broken"] := by cbv
  have hchildren : package.children ["pkg", "broken"] =
      [(packageFile, .file "class A(:\n".toUTF8)] := by cbv
  have hfile : childKey? package ["pkg", "broken"] packageFile (.file "class A(:\n".toUTF8) = none :=
    childKey?_packageFile rfl
  simp only [submodules, hdirectory, packageChildren, hchildren, List.filterMap_cons,
    List.filterMap_nil, hfile]

theorem packageTree_package : packageTree package packageKey = [brokenKey] := by
  have hfollow : ({ Frontier.start package.paths packageKey with queue := [] } : Frontier).followAll
      ([brokenKey].map fun q => (q, .child)) =
        ⟨[[], ["pkg"], ["pkg", "broken"]], [], [(brokenKey, .child)]⟩ := by cbv
  unfold packageTree
  rw [Frontier.drain_of_cons rfl, submodules_package, hfollow, Frontier.drain_of_cons rfl,
    submodules_broken, Frontier.drain_of_nil rfl]
  rfl

-- Reading the text of a module is a deep recursion over its characters.
set_option maxRecDepth 100000 in
theorem visit_package :
    ∃ m, (traversal package [[]] packageKey).visit packageKey =
      .ok (m, [(packageKey, .imported), (brokenKey, .imported)]) := by
  have himports : (readContent package packageKey).toOption.map Python.Module.imports =
      some [.names 1 none [⟨"broken", none⟩] false] := by cbv
  have hedges : (link package [[]] packageKey Links.empty
      (.names 1 none [⟨"broken", none⟩] false)).toOption.map Links.edges =
        some [(packageKey, .imported), (brokenKey, .imported)] := by cbv
  -- Both parts of the visit are known in what matters here, and the module itself is left open.
  cases hcontent : readContent package packageKey with
  | error e =>
      rw [hcontent] at himports
      cases himports
  | ok content =>
      cases hlink : link package [[]] packageKey Links.empty
          (.names 1 none [⟨"broken", none⟩] false) with
      | error e =>
          rw [hlink] at hedges
          cases hedges
      | ok links =>
          rw [hcontent] at himports
          rw [hlink] at hedges
          have hcontents : content.imports = [.names 1 none [⟨"broken", none⟩] false] :=
            Option.some.inj himports
          have hlinks : content.imports.foldlM (link package [[]] packageKey) Links.empty =
              .ok links := by
            rw [hcontents, List.foldlM_cons, hlink]
            rfl
          rw [← Option.some.inj hedges]
          rcases load_of_ok hcontent hlinks with ⟨m, _, _, hload⟩
          exact ⟨m, (traversal_visit _ _ _ _).trans hload⟩

set_option maxRecDepth 100000 in
theorem visit_broken : (traversal package [[]] packageKey).Fails brokenKey := by
  have hbroken : (readContent package brokenKey).toBool = false := by cbv
  cases hcontent : readContent package brokenKey with
  | error e => exact ⟨e, (traversal_visit _ _ _ _).trans (load_of_error hcontent)⟩
  | ok content =>
      rw [hcontent] at hbroken
      cases hbroken

end Sample

/-- The failure of the submodule is forgiven, although its package imports it. -/
theorem package_overlooks_import : ¬ RequiresImports Sample.package [[]] Sample.packageKey := by
  intro hrequires
  rcases Sample.visit_package with ⟨m, hpackage⟩
  rcases Sample.visit_broken with ⟨e, hbroken⟩
  have hfrontier : (traversal Sample.package [[]] Sample.packageKey).frontier =
      ⟨[[], ["pkg"], ["pkg", "broken"]], [],
        [(Sample.packageKey, .entry), (Sample.brokenKey, .child)]⟩ := by
    show (Frontier.start Sample.package.paths Sample.packageKey).followAll
      ((packageTree Sample.package Sample.packageKey).map fun p => (p, .child)) = _
    rw [Sample.packageTree_package]
    cbv
  -- Both targets were met before, so that the import leaves the frontier as it is.
  have hfollow : (⟨[[], ["pkg"], ["pkg", "broken"]], [], [(Sample.brokenKey, .child)]⟩ :
      Frontier).followAll [(Sample.packageKey, .imported), (Sample.brokenKey, .imported)] =
        ⟨[[], ["pkg"], ["pkg", "broken"]], [], [(Sample.brokenKey, .child)]⟩ := by cbv
  -- The package is visited first, then its submodule as a child, and then nothing is left.
  have htraverse : traverse Sample.package [[]] Sample.packageKey = .ok [m] := by
    rw [traverse_eq, hfrontier, Frontier.explore_of_ok (by rfl) hpackage, hfollow,
      Frontier.explore_of_forgiven (by rfl) hbroken, Frontier.explore_of_nil (by rfl)]
    rfl
  have hneeds : (traversal Sample.package [[]] Sample.packageKey).Needs Sample.packageKey
      Sample.brokenKey := ⟨m, _, hpackage, by simp⟩
  rcases hrequires.2.2 (Or.inr ⟨_, _, .first, hneeds, Sample.visit_broken⟩) with ⟨e', he'⟩
  rw [htraverse] at he'
  cases he'

end Discovery
end WireTypes
