import WireTypes.Proofs.Discovery.Traversal
import WireTypes.Proofs.Text.Segments

/-!
# Visits — a traversal visits every place at most once

- `Run.nodup`, `Run.length_le`: a run of an exploration visits no place twice, also not a forgiven child
  that is queued again, and so it is no longer than the list of its places;
- `Leads.origin`: a place is led to because it is queued at the start or because another place needs it;
- `VisitsOnce`: what this means for the modules of an entry;
- `visitsOnce_iff`: all of it holds, except that the key of the entry may be a link to another module.
-/

namespace WireTypes
namespace Discovery

/-! ## Runs -/

namespace Frontier

/-- The children that wait for their turn. -/
def waiting (f : Frontier) : List Path := (f.queue.filter (·.2 = .child)).map Prod.fst

theorem waiting_follow (f : Frontier) (target : Path) :
    (f.follow target .imported).waiting = f.waiting := by
  unfold Frontier.follow
  split
  · simp [waiting]
  · split
    · simp [waiting]
    · rfl

theorem waiting_followAll (f : Frontier) {edges : List (Path × Edge)}
    (hedges : ∀ e ∈ edges, e.2 = .imported) : (f.followAll edges).waiting = f.waiting := by
  induction edges generalizing f with
  | nil => rfl
  | cons e rest ih =>
      rcases e with ⟨target, edge⟩
      obtain rfl : edge = .imported := hedges _ List.mem_cons_self
      have hrest := ih (f.follow target .imported) fun e he => hedges e (List.mem_cons_of_mem _ he)
      exact hrest.trans (f.waiting_follow target)

end Frontier

namespace Exploration

variable {ε α : Type} {x : Exploration ε α} {done : List Path} {f : Frontier}

/-- What was visited is different from each other and from the children that wait. -/
theorem Run.distinct (h : x.Run done f) : (done ++ f.waiting).Nodup := by
  induction h with
  | start =>
      have hwaiting : x.frontier.waiting = x.children := by
        simp [Frontier.waiting, frontier_eq, List.filter_map, Function.comp_def]
      rw [List.nil_append, hwaiting]
      exact (List.nodup_cons.1 x.distinct).2
  | @visited done f p edge rest a edges hrun hqueue hvisit ih =>
      rw [Frontier.waiting_followAll _ fun e he => (x.imports hvisit e he).1]
      -- A place that succeeds is met once, so that it was neither visited before nor does it wait.
      have honce := hrun.sound.once
      simp only [met, hqueue, List.map_cons, List.filter_append,
        List.filter_cons_of_pos (x.succeeds_of_ok hvisit)] at honce
      have hdone : p ∉ done := by
        intro hmem
        have hfilter := List.mem_filter.2 ⟨hmem, x.succeeds_of_ok hvisit⟩
        exact (List.nodup_append.1 honce).2.2 p hfilter p List.mem_cons_self rfl
      have hrest : p ∉ ({ f with queue := rest } : Frontier).waiting := by
        intro hmem
        rcases List.mem_map.1 hmem with ⟨e, he, rfl⟩
        have hfilter := List.mem_filter.2
          ⟨List.mem_map_of_mem (List.mem_of_mem_filter he), x.succeeds_of_ok hvisit⟩
        exact (List.nodup_cons.1 (List.nodup_append.1 honce).2.1).1 hfilter
      have hsub : (done ++ ({ f with queue := rest } : Frontier).waiting).Nodup := by
        refine ih.sublist (List.Sublist.append_left ?_ done)
        rw [Frontier.waiting, Frontier.waiting, hqueue]
        exact ((List.sublist_cons_self _ _).filter _).map _
      rw [List.append_assoc, List.singleton_append, List.nodup_middle]
      refine List.nodup_cons.2 ⟨?_, hsub⟩
      rw [List.mem_append, not_or]
      exact ⟨hdone, hrest⟩
  | @forgiven done f p rest e _ hqueue _ ih =>
      -- The child that is forgiven was the first one that waited.
      have hwaiting : f.waiting = p :: (({ f with queue := rest } : Frontier).forgive p).waiting := by
        simp [Frontier.waiting, Frontier.forgive, hqueue]
      rwa [hwaiting, ← List.singleton_append, ← List.append_assoc] at ih

theorem Run.nodup (h : x.Run done f) : done.Nodup := (List.nodup_append.1 h.distinct).1

theorem Leads.mem_places {p : Path} (h : x.Leads p) : p ∈ x.first :: x.places := by
  cases h with
  | first => exact List.mem_cons_self
  | child hchild => exact List.mem_cons_of_mem _ (x.children_places p hchild)
  | needed _ hneeds => exact List.mem_cons_of_mem _ (Needs.mem_places x hneeds)

theorem Run.length_le (h : x.Run done f) : done.length ≤ x.places.length + 1 := by
  have hsub : done ⊆ x.first :: x.places := by
    intro p hp
    exact (h.sound.leads p (List.mem_append_left _ hp)).mem_places
  exact (List.subperm_of_subset h.nodup hsub).length_le

theorem Leads.origin {q : Path} (h : x.Leads q) :
    q = x.first ∨ q ∈ x.children ∨ ∃ p, p ≠ q ∧ x.Leads p ∧ x.Needs p q := by
  induction h with
  | first => exact Or.inl rfl
  | child hchild => exact Or.inr (Or.inl hchild)
  | @needed p q hleads hneeds ih =>
      -- A place that needs itself was led to before.
      by_cases hself : p = q
      · rwa [hself] at ih
      · exact Or.inr (Or.inr ⟨p, hself, hleads, hneeds⟩)

theorem mem_results {a : α} (h : a ∈ x.results done) :
    ∃ p ∈ done, ∃ edges, x.visit p = .ok (a, edges) := by
  rcases List.mem_filterMap.1 h with ⟨p, hp, hresult⟩
  refine ⟨p, hp, ?_⟩
  cases hvisit : x.visit p with
  | error e => simp [hvisit, Except.toOption] at hresult
  | ok r =>
      rcases r with ⟨b, edges⟩
      obtain rfl : b = a := by simpa [hvisit, Except.toOption] using hresult
      exact ⟨edges, rfl⟩

end Exploration

/-! ## Places of a package -/

theorem Frontier.mem_drain {next : Path → List Path} {f : Frontier} {p : Path}
    (h : p ∈ f.drain next) : p ∈ f.queue.map Prod.fst ∨ ∃ q, p ∈ next q := by
  have hfollow : ∀ (places : List Path) (f : Frontier),
      ∀ q ∈ (f.followAll (places.map fun q => (q, .child))).queue.map Prod.fst,
        q ∈ f.queue.map Prod.fst ∨ q ∈ places := by
    intro places
    induction places with
    | nil => exact fun f q hq => Or.inl hq
    | cons target rest ih =>
        intro f q hq
        rcases ih (f.follow target .child) q hq with hmem | hmem
        · unfold Frontier.follow at hmem
          by_cases hunmet : target ∈ f.unmet
          · simp only [hunmet, if_true, List.map_append, List.map_singleton, List.mem_append,
              List.mem_singleton] at hmem
            rcases hmem with hmem | rfl
            · exact Or.inl hmem
            · exact Or.inr List.mem_cons_self
          · simp only [hunmet, if_false] at hmem
            exact Or.inl hmem
        · exact Or.inr (List.mem_cons_of_mem _ hmem)
  fun_induction Frontier.drain next f with
  | case1 => cases h
  | case2 f q edge rest hqueue ih =>
      rw [hqueue, List.map_cons]
      rcases List.mem_cons.1 h with rfl | h
      · exact Or.inl List.mem_cons_self
      · rcases ih h with hmem | hnext
        · rcases hfollow _ _ _ hmem with hrest | hnext
          · exact Or.inl (List.mem_cons_of_mem _ hrest)
          · exact Or.inr ⟨q, hnext⟩
        · exact Or.inr hnext

theorem packageTree_direct {t : FileTree} {key place : Path} (h : place ∈ packageTree t key) :
    t.Direct place := by
  have hne : place ≠ key := fun heq => (List.nodup_cons.1 (packageTree_spec t key).1).1 (heq ▸ h)
  rcases Frontier.mem_drain (List.mem_of_mem_tail h) with hqueue | ⟨q, hnext⟩
  · have hkey : place = key := by simpa [Frontier.start] using hqueue
    exact absurd hkey hne
  · exact submodules_direct hnext

/-! ## The modules of an entry -/

section

variable {t : FileTree} {roots : List Path} {entry : Path}

theorem visit_spec {key : Path} {u : SourceModule} {edges : List (Path × Edge)}
    (h : (traversal t roots entry).visit key = .ok (u, edges)) :
    u.key = key ∧ (u.inScope = true ↔ key = entry ∨ key ∈ packageTree t entry) ∧
      ∀ e ∈ edges, t.Direct e.1 := by
  rw [traversal_visit] at h
  rcases load_spec h with ⟨hkey, hscope, _, hedges⟩
  exact ⟨hkey, by simp [hscope], fun e he => (hedges e he).2⟩

theorem Exploration.Leads.direct {key : Path} (h : (traversal t roots entry).Leads key) :
    key = entry ∨ t.Direct key := by
  cases h with
  | first => exact Or.inl rfl
  | child hchild => exact Or.inr (packageTree_direct hchild)
  | needed _ hneeds =>
      rcases hneeds with ⟨m, edges, hvisit, hmem⟩
      exact Or.inr ((visit_spec hvisit).2.2 _ hmem)

variable {units : List SourceModule}

/-- A module that a traversal gives is the one that is visited by its key. -/
theorem visit_of_mem (h : traverse t roots entry = .ok units) {u : SourceModule} (hu : u ∈ units) :
    ∃ edges, (traversal t roots entry).visit u.key = .ok (u, edges) := by
  rw [traverse_eq] at h
  rcases Exploration.explore_ok h with ⟨done, rfl, _, _⟩
  rcases Exploration.mem_results hu with ⟨key, _, edges, hvisit⟩
  have hkey := (visit_spec hvisit).1
  exact ⟨edges, hkey.symm ▸ hvisit⟩

theorem leads_of_mem (h : traverse t roots entry = .ok units) {u : SourceModule} (hu : u ∈ units) :
    (traversal t roots entry).Leads u.key :=
  (((traverse_ok t roots entry h).2 u.key).1 (List.mem_map_of_mem hu)).1

/-- The key of every module but the entry is where its links lead. -/
theorem canonical?_of_mem (h : traverse t roots entry = .ok units) {u : SourceModule} (hu : u ∈ units) :
    u.key = entry ∨ t.canonical? u.key = some u.key :=
  (leads_of_mem h hu).direct.imp_right FileTree.Direct.canonical?

/-- The entry is among its modules. -/
theorem entry_mem (h : traverse t roots entry = .ok units) : ∃ u ∈ units, u.key = entry := by
  have hfails : ¬ (traversal t roots entry).Fails entry := by
    intro hfails
    rcases (traverse_error_iff t roots entry).2 (Or.inl hfails) with ⟨e, he⟩
    rw [h] at he
    cases he
  exact List.mem_map.1 (((traverse_ok t roots entry h).2 entry).2 ⟨.first, hfails⟩)

theorem inScope_of_mem (h : traverse t roots entry = .ok units) {u : SourceModule} (hu : u ∈ units) :
    u.inScope = true ↔ u.key = entry ∨ u.key ∈ packageTree t entry := by
  rcases visit_of_mem h hu with ⟨edges, hvisit⟩
  exact (visit_spec hvisit).2.1

theorem origin_of_mem (h : traverse t roots entry = .ok units) {u : SourceModule} (hu : u ∈ units) :
    u.key = entry ∨ u.key ∈ packageTree t entry ∨
      ∃ v ∈ units, v.key ≠ u.key ∧ (traversal t roots entry).Needs v.key u.key := by
  refine (leads_of_mem h hu).origin.imp_right (Or.imp_right ?_)
  rintro ⟨key, hne, hleads, hneeds⟩
  -- What needs another module does not fail, and so it is given.
  rcases Exploration.Needs.ok _ hneeds with ⟨r, hok⟩
  have hkey := ((traverse_ok t roots entry h).2 key).2 ⟨hleads, Exploration.not_fails_of_ok _ hok⟩
  rcases List.mem_map.1 hkey with ⟨v, hv, rfl⟩
  exact ⟨v, hv, hne, hneeds⟩

theorem eq_of_key (h : traverse t roots entry = .ok units) {u v : SourceModule} (hu : u ∈ units)
    (hv : v ∈ units) (hkey : u.key = v.key) : u = v :=
  List.inj_on_of_nodup_map (traverse_ok t roots entry h).1 hu hv hkey

end

/-- A traversal ends after at most one visit of every place, and the modules that it gives are different
files. They are the entry, the modules of its package and what others import, and those of the package
are in scope. -/
structure VisitsOnce (t : FileTree) (roots : List Path) (entry : Path) : Prop where
  bounded : ∀ done f, (traversal t roots entry).Run done f →
    done.Nodup ∧ done.length ≤ t.paths.length + 1
  ends : (traversal t roots entry).Outcome [] (traverse t roots entry)
  distinct : ∀ units, traverse t roots entry = .ok units →
    (units.map fun u => t.canonical? u.key).Nodup
  origin : ∀ units, traverse t roots entry = .ok units → ∀ u ∈ units,
    u.key = entry ∨ u.key ∈ packageTree t entry ∨
      ∃ v ∈ units, v.key ≠ u.key ∧ (traversal t roots entry).Needs v.key u.key
  scope : ∀ units, traverse t roots entry = .ok units → ∀ u ∈ units,
    (u.inScope = true ↔ u.key = entry ∨ u.key ∈ packageTree t entry)

/-- A file is visited under two keys just if the key of the entry is a link to another module that is
visited. -/
theorem visitsOnce_iff (t : FileTree) (roots : List Path) (entry : Path) :
    VisitsOnce t roots entry ↔
      ∀ units, traverse t roots entry = .ok units →
        ∀ u ∈ units, t.canonical? entry = some u.key → u.key = entry := by
  constructor
  · intro honce units hunits u hu hentry
    by_contra hne
    rcases entry_mem hunits with ⟨v, hv, rfl⟩
    have hplace : t.canonical? u.key = some u.key := (canonical?_of_mem hunits hu).resolve_left hne
    have hsame : t.canonical? u.key = t.canonical? v.key := hplace.trans hentry.symm
    have heq := List.inj_on_of_nodup_map (honce.distinct units hunits) hu hv hsame
    exact hne (congrArg SourceModule.key heq)
  · intro hentry
    constructor
    case bounded => exact fun done f hrun => ⟨hrun.nodup, hrun.length_le⟩
    case ends => exact Exploration.Run.start.outcome
    case origin => exact fun units hunits u hu => origin_of_mem hunits hu
    case scope => exact fun units hunits u hu => inScope_of_mem hunits hu
    case distinct =>
      intro units hunits
      refine List.Nodup.map_on ?_ (List.Nodup.of_map _ (traverse_ok t roots entry hunits).1)
      intro u hu v hv hsame
      refine eq_of_key hunits hu hv ?_
      -- Only the key of the entry may lead elsewhere.
      rcases canonical?_of_mem hunits hu with hu' | hu' <;>
        rcases canonical?_of_mem hunits hv with hv' | hv'
      · exact hu'.trans hv'.symm
      · rw [hu', hv'] at hsame
        exact hu'.trans (hentry units hunits v hv hsame).symm
      · rw [hu', hv'] at hsame
        exact (hentry units hunits u hu hsame.symm).trans hv'.symm
      · rw [hu', hv'] at hsame
        exact Option.some.inj hsame

/-- An entry that is reached without links is visited once, and so is everything else. -/
theorem visitsOnce_of_direct {t : FileTree} {roots : List Path} {entry : Path} (h : t.Direct entry) :
    VisitsOnce t roots entry := by
  refine (visitsOnce_iff t roots entry).2 fun units _ u _ hentry => ?_
  rw [h.canonical?] at hentry
  exact (Option.some.inj hentry).symm

/-! ## A package file that is a link -/

namespace Sample

/-- A package whose file is a link to its only submodule. -/
def linkedPackage : FileTree where
  entries := [
    (["pkg"], .directory),
    (["pkg", "__init__.py"], .link "core.py"),
    (["pkg", "core.py"], .file "".toUTF8)]
  workingDirectory := []

def coreKey : Path := ["pkg", "core.py"]

theorem direct_package : linkedPackage.Direct ["pkg"] :=
  FileTree.Direct.step .root rfl rfl (by decide) rfl fun _ h => by cases h

theorem direct_core : linkedPackage.Direct coreKey :=
  FileTree.Direct.step direct_package rfl rfl (by decide) rfl fun _ h => by cases h

theorem stepsFrom_core : FileTree.stepsFrom ["pkg"] "core.py" = (["pkg"], ["core.py"]) := by
  have hsteps : Path.stepsOf "core.py" = ["core.py"] := by
    rw [Path.stepsOf, Text.splitOn_slash]
    cbv
  have hrelative : Path.isAbsoluteText "core.py" = false := by cbv
  rw [FileTree.stepsFrom, hsteps, hrelative]
  rfl

theorem extensionOf?_core : Path.extensionOf? "core.py" = some fileExtension := by
  have hsplit : "core.py".splitOn "." = ["core", "py"] := by
    rw [Text.splitOn_dot]
    cbv
  rw [Path.extensionOf?, Path.splitExtension, hsplit]
  cbv

/-- The package file leads to the submodule. -/
theorem canonical?_package : linkedPackage.canonical? packageKey = some coreKey := by
  have hentry : linkedPackage.entry? (["pkg"] ++ [packageFile]) = some (.link "core.py") := by cbv
  have hdirectory : linkedPackage.entry? ["pkg"] = some .directory := by cbv
  have hstays : FileTree.staysHere packageFile = false := by decide
  have hup : packageFile ≠ ".." := by decide
  -- The link is read in the directory of the package, and from there it is one step.
  calc
    linkedPackage.canonical? packageKey
      = linkedPackage.walk FileTree.linkLimit ["pkg"] [packageFile] :=
        direct_package.walk_append FileTree.linkLimit [packageFile]
    _ = linkedPackage.walk 39 ["pkg"] ["core.py"] := by
        rw [FileTree.walk, hdirectory, hentry]
        simp [FileTree.linkLimit, FileTree.Entry.isDirectory, stepsFrom_core, hstays, hup]
    _ = linkedPackage.walk 39 [] coreKey := (direct_package.walk_append 39 ["core.py"]).symm
    _ = some coreKey := by
        have hwalk := direct_core.walk_append 39 []
        rwa [List.append_nil, FileTree.walk] at hwalk

theorem submodules_linkedPackage : submodules linkedPackage packageKey = [coreKey] := by
  have hdirectory : packageDirectory? linkedPackage packageKey = some ["pkg"] := by
    simp only [packageDirectory?, FileTree.isDirectory, FileTree.resolve?, canonical?_package]
    rfl
  have hlink : childKey? linkedPackage ["pkg"] packageFile (.link "core.py") = none :=
    childKey?_packageFile rfl
  have hcore : ∀ content, childKey? linkedPackage ["pkg"] "core.py" (.file content) = some coreKey := by
    intro content
    have hcanonical : linkedPackage.canonical? (["pkg"] ++ ["core.py"]) = some coreKey :=
      direct_core.canonical?
    have hhidden : isHidden "core.py" = false := by cbv
    have hname : ("core.py" != packageFile) = true := by decide
    simp only [childKey?, hcanonical, hhidden, hname, extensionOf?_core, FileTree.Entry.isDirectory]
    rfl
  have hchildren : linkedPackage.children ["pkg"] =
      [(packageFile, .link "core.py"), ("core.py", .file "".toUTF8)] := by cbv
  simp only [submodules, hdirectory, packageChildren, hchildren, List.filterMap_cons,
    List.filterMap_nil, hlink, hcore]

theorem submodules_core : submodules linkedPackage coreKey = [] := by
  have hfile : isPackageFile coreKey = false := by cbv
  have hdirectory : packageDirectory? linkedPackage coreKey = none := by
    simp only [packageDirectory?, FileTree.isDirectory, FileTree.resolve?, direct_core.canonical?, hfile]
    rfl
  rw [submodules, hdirectory]

theorem packageTree_linkedPackage : packageTree linkedPackage packageKey = [coreKey] := by
  have hfollow : ({ Frontier.start linkedPackage.paths packageKey with queue := [] } : Frontier).followAll
      ([coreKey].map fun q => (q, .child)) =
        ⟨[[], ["pkg"]], [], [(coreKey, .child)]⟩ := by cbv
  unfold packageTree
  rw [Frontier.drain_of_cons rfl, submodules_linkedPackage, hfollow, Frontier.drain_of_cons rfl,
    submodules_core, Frontier.drain_of_nil rfl]
  rfl

theorem visit_linkedPackage {key : Path} (hkey : linkedPackage.canonical? key = some coreKey) :
    ∃ m, m.key = key ∧ (traversal linkedPackage [[]] packageKey).visit key = .ok (m, []) := by
  have htext : String.fromUTF8? "".toUTF8 = some "" := by cbv
  have hread : linkedPackage.readText? key = some "" := by
    simp only [FileTree.readText?, FileTree.read?, FileTree.resolve?, hkey]
    exact htext
  have hdirectory : linkedPackage.isDirectory key = false := by
    simp only [FileTree.isDirectory, FileTree.resolve?, hkey]
    rfl
  have himports : (Python.Module.read "").toOption.map Python.Module.imports = some [] := by cbv
  cases hmodule : Python.Module.read "" with
  | error e => simp [hmodule, Except.toOption] at himports
  | ok content =>
      have hcontent : readContent linkedPackage key = .ok content := by
        simp [readContent, hdirectory, hread, hmodule]
      have hlinks : content.imports.foldlM (link linkedPackage [[]] key) Links.empty =
          .ok Links.empty := by
        have hnone : content.imports = [] := by simpa [hmodule, Except.toOption] using himports
        rw [hnone]
        rfl
      rcases load_of_ok hcontent hlinks with ⟨m, hm, _, hload⟩
      exact ⟨m, hm, (traversal_visit _ _ _ _).trans hload⟩

end Sample

/-- The file is visited as the package and as its submodule. -/
theorem linked_package_visited_twice :
    ¬ VisitsOnce Sample.linkedPackage [[]] Sample.packageKey := by
  intro honce
  rcases Sample.visit_linkedPackage Sample.canonical?_package with ⟨m, hm, hpackage⟩
  rcases Sample.visit_linkedPackage Sample.direct_core.canonical? with ⟨u, hu, hcore⟩
  have hfrontier : (traversal Sample.linkedPackage [[]] Sample.packageKey).frontier =
      ⟨[[], ["pkg"]], [], [(Sample.packageKey, .entry), (Sample.coreKey, .child)]⟩ := by
    show (Frontier.start Sample.linkedPackage.paths Sample.packageKey).followAll
      ((packageTree Sample.linkedPackage Sample.packageKey).map fun p => (p, .child)) = _
    rw [Sample.packageTree_linkedPackage]
    cbv
  have htraverse : traverse Sample.linkedPackage [[]] Sample.packageKey = .ok [m, u] := by
    rw [traverse_eq, hfrontier, Frontier.explore_of_ok (by rfl) hpackage,
      Frontier.explore_of_ok (by rfl) hcore, Frontier.explore_of_nil (by rfl)]
    rfl
  have hdistinct := honce.distinct _ htraverse
  simp [hm, hu, Sample.canonical?_package, Sample.direct_core.canonical?] at hdistinct

end Discovery
end WireTypes
