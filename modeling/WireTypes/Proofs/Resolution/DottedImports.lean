import WireTypes.Proofs.Discovery.ImportedNames
import WireTypes.Proofs.Discovery.Visits
import WireTypes.Proofs.Resolution.Agreement
import WireTypes.Proofs.Text.Segments

/-!
# Dotted imports — `import a.b.c` and `from a.b.c import x`

The search for a module looks at every root, and a dotted name is followed from package to package through
the modules that were loaded. They lead to the same module as long as every module on the way stands
directly below the one before.

- `Program.FirstAt`: the first module that was loaded from a place;
- `Program.Offers`: a module has another one by a name, which it binds to it or which is its place;
- `member_eq_module_iff`: what a module has by a name is a module just if it offers it;
- `OffersAll.resolveAt`: where all modules on the way do, a dotted name leads along them;
- `SpelledAlike`: dotted names mean what the search finds, and what imports of single names mean;
- `spelledAlike_iff`: this holds just if every module on the way offers the next one;
- `split_package_spelled_apart`: a package of which each of two roots has a part.
-/

namespace WireTypes
namespace Resolution

open Discovery Python

namespace Program

/-! ## Modules at places -/

/-- A module was loaded from a place, and none from there before. -/
def FirstAt (p : Program) (place key : Path) : Prop :=
  ∃ before m after, p = before ++ m :: after ∧ m.key = key ∧ placeOf m = place ∧
    ∀ u ∈ before, placeOf u ≠ place

theorem firstAt_iff {p : Program} {place key : Path} :
    p.FirstAt place key ↔ ∃ m, p.find? (placeOf · = place) = some m ∧ m.key = key := by
  simp only [FirstAt, List.find?_eq_some_iff_append, decide_eq_true_eq, Bool.not_eq_true',
    decide_eq_false_iff_not]
  constructor
  · rintro ⟨before, m, after, rfl, hkey, hplace, hbefore⟩
    exact ⟨m, ⟨hplace, before, after, rfl, hbefore⟩, hkey⟩
  · rintro ⟨m, ⟨hplace, before, after, rfl, hbefore⟩, hkey⟩
    exact ⟨before, m, after, rfl, hkey, hplace, hbefore⟩

/-- A module has another one by a name. -/
structure Offers (p : Program) (t : FileTree) (steps : Nat) (key : Path) (name : String)
    (next : Path) : Prop where
  loaded : ∃ m ∈ p, m.key = key
  /-- It binds the name to nothing else. -/
  free : ∀ m ∈ p, m.key = key → ∀ symbol, p.lookup steps m name = some symbol →
    symbol = .module next
  /-- If it does not bind the name, then the other one stands there. -/
  placed : ∀ m ∈ p, m.key = key → p.lookup steps m name = none →
    ∃ directory, packageDirectory? t key = some directory ∧ p.FirstAt (directory ++ [name]) next

section

variable {t : FileTree} {roots : List Path} {entry : Path} {p : Program} {m : SourceModule}
  {steps : Nat}

/-- A loaded module is found by its key. -/
theorem module?_of_mem (h : traverse t roots entry = .ok p) (hm : m ∈ p) :
    p.module? m.key = some m := by
  have hsome : (p.module? m.key).isSome := by
    rw [module?, List.find?_isSome]
    exact ⟨m, hm, decide_eq_true rfl⟩
  rcases Option.isSome_iff_exists.1 hsome with ⟨u, hu⟩
  have hkey : u.key = m.key := by simpa using List.find?_some hu
  rw [hu, eq_of_key h (List.mem_of_find?_eq_some hu) hm hkey]

theorem packageDirectory_of_mem (h : traverse t roots entry = .ok p) (hm : m ∈ p) :
    m.packageDirectory = packageDirectory? t m.key := by
  rcases traverse_linked h m hm with ⟨inScope, content, links, _, _, hlinked⟩
  exact congrArg SourceModule.packageDirectory hlinked

theorem submodule?_eq_module_iff {name : String} {next : Path} :
    p.submodule? m name = some (.module next) ↔
      ∃ directory, m.packageDirectory = some directory ∧ p.FirstAt (directory ++ [name]) next := by
  simp only [submodule?, firstAt_iff, bind, Option.bind_eq_some_iff, pure, Option.some.injEq,
    Symbol.module.injEq]

theorem member_eq_module_iff (h : traverse t roots entry = .ok p) {key next : Path} {name : String} :
    p.member steps key name = some (.module next) ↔ p.Offers t steps key name next := by
  constructor
  · intro hmember
    rw [member_eq] at hmember
    rcases Option.bind_eq_some_iff.1 hmember with ⟨m, hfound, hname⟩
    have hm : m ∈ p := List.mem_of_find?_eq_some hfound
    obtain rfl : m.key = key := by simpa using List.find?_some hfound
    have hsame : ∀ u ∈ p, u.key = m.key → u = m := fun u hu hkey => eq_of_key h hu hm hkey
    refine ⟨⟨m, hm, rfl⟩, fun u hu hkey symbol hsymbol => ?_, fun u hu hkey hnone => ?_⟩
    · obtain rfl := hsame u hu hkey
      rw [hsymbol] at hname
      exact Option.some.inj hname
    · obtain rfl := hsame u hu hkey
      rw [hnone, Option.none_or, submodule?_eq_module_iff, packageDirectory_of_mem h hu] at hname
      exact hname
  · rintro ⟨⟨m, hm, rfl⟩, hfree, hplaced⟩
    rw [member_eq, module?_of_mem h hm, Option.bind_some]
    cases hlookup : p.lookup steps m name with
    | some symbol => rw [hfree m hm rfl symbol hlookup, Option.some_or]
    | none =>
        rw [Option.none_or, submodule?_eq_module_iff, packageDirectory_of_mem h hm]
        exact hplaced m hm rfl hlookup

/-! ## Dotted names -/

/-- One more name at the end of a dotted name. -/
theorem resolveAt_of_append {f g name : String} (h : g.splitOn "." = f.splitOn "." ++ [name]) :
    p.resolveAt (steps + 1) m g
      = (p.resolveAt (steps + 1) m f).bind fun symbol => p.access steps symbol name := by
  rw [resolveAt_succ, resolveAt_succ, h]
  cases hf : f.splitOn "." with
  | nil => exact absurd hf (Text.splitOn_dot_ne_nil f)
  | cons head segments =>
      rw [List.cons_append]
      dsimp only
      cases p.lookup (steps + 1) m head with
      | none => rfl
      | some first =>
          rw [Option.bind_some, Option.bind_some, List.foldlM_append]
          refine congrArg (Option.bind _) (funext fun symbol => ?_)
          rw [List.foldlM_cons]
          exact bind_pure _

theorem resolveAt_of_single {f head : String} (h : f.splitOn "." = [head]) :
    p.resolveAt (steps + 1) m f = p.lookup (steps + 1) m head := by
  rw [resolveAt_succ, h]
  exact Option.bind_fun_some _

/-- A name that was imported from a module: a file of its package, else what the module has by it. -/
theorem lookup_of_namedBinding {target : Path} {name : String}
    (h : m.binding? name = some (namedBinding t target name)) :
    (∃ next, namedBinding t target name = .module next ∧
        p.lookup (steps + 1) m name = some (.module next)) ∨
      (∀ next, namedBinding t target name ≠ .module next) ∧
        p.lookup (steps + 1) m name = p.member steps target name := by
  rw [lookup_succ, h]
  unfold namedBinding
  cases (packageDirectory? t target).bind fun directory => moduleAt? t directory [name] with
  | some next => exact Or.inl ⟨next, rfl, rfl⟩
  | none => exact Or.inr ⟨fun _ => nofun, rfl⟩

end

/-! ## The two spellings -/

variable (p : Program) (t : FileTree) (roots : List Path) (steps : Nat)

/-- After `import path` in a module, `path` and the names of the packages around it stand for the modules
that the search finds for them, and `path.x` stands for what `x` stands for after `from path import x`. -/
structure SpelledAlike (m : SourceModule) (path : String) : Prop where
  modules : ∀ f : String, f.splitOn "." <+: path.splitOn "." →
    ∀ key, findModule? t roots (f.splitOn ".") = some key →
      p.resolveAt (steps + 1) m f = some (.module key)
  names : ∀ m' ∈ p, ∀ name, '.' ∉ name.toList → m'.ImportsName path name →
    p.resolveAt (steps + 1) m (path ++ "." ++ name) = p.resolveAt (steps + 1) m' name

/-- Every package on the way has the next module by its name, and the module at the end has its
submodules, as far as they are imported by name. -/
structure OffersAll (path : String) (target : Path) : Prop where
  modules : ∀ front name, front ≠ [] → front ++ [name] <+: path.splitOn "." → ∀ key next,
    findModule? t roots front = some key → findModule? t roots (front ++ [name]) = some next →
      p.Offers t steps key name next
  names : ∀ m' ∈ p, ∀ name, '.' ∉ name.toList → m'.ImportsName path name → ∀ next,
    namedBinding t target name = .module next → p.Offers t steps target name next

variable {p t roots steps} {entry : Path} {m : SourceModule} {path : String} {target : Path}

/-- Where every module on the way offers the next one, the dotted name leads along them. -/
theorem OffersAll.resolveAt (hoffers : p.OffersAll t roots steps path target)
    (h : traverse t roots entry = .ok p) (hm : m ∈ p) (himports : m.ImportsModule path)
    {front : List String} (hfront : front <+: path.splitOn ".") (hne : front ≠ []) :
    ∀ f : String, f.splitOn "." = front → ∀ key, findModule? t roots front = some key →
      p.resolveAt (steps + 1) m f = some (.module key) := by
  induction front using List.reverseRecOn with
  | nil => exact absurd rfl hne
  | append_singleton front name ih =>
      intro f hf key hkey
      by_cases hfirst : front = []
      -- The outermost package is bound by the import.
      · subst hfirst
        rcases hfront with ⟨back, hback⟩
        have hhead : outermost path = name := by
          rw [outermost, ← hback]
          rfl
        have hbinding := himports.binding? h hm
        rw [hhead, show findModule? t roots [name] = some key from hkey] at hbinding
        rw [resolveAt_of_single hf, lookup_succ, hbinding]
        rfl
      · have hprefix : front <+: path.splitOn "." := (List.prefix_append _ _).trans hfront
        rcases findModule?_of_append hkey hfirst with ⟨around, haround⟩
        rcases hprefix with ⟨back, hback⟩
        rcases Text.exists_splitOn_dot hback.symm hfirst with ⟨g, hg⟩
        have hpackage := ih ⟨back, hback⟩ hfirst g hg around haround
        have hnext := hoffers.modules front name hfirst hfront around key haround hkey
        rw [resolveAt_of_append (hf.trans (by rw [hg])), hpackage, Option.bind_some]
        exact (member_eq_module_iff h).2 hnext

/-- Behind the module that is imported, the two spellings agree on a name unless it is that of a submodule
which the module does not offer. -/
theorem name_alike_iff {m' : SourceModule} {name : String} (h : traverse t roots entry = .ok p)
    (hm' : m' ∈ p) (hfound : findModule? t roots (path.splitOn ".") = some target)
    (himports : m'.ImportsName path name) (hname : '.' ∉ name.toList)
    (hpath : p.resolveAt (steps + 1) m path = some (.module target)) :
    p.resolveAt (steps + 1) m (path ++ "." ++ name) = p.resolveAt (steps + 1) m' name ↔
      ∀ next, namedBinding t target name = .module next → p.Offers t steps target name next := by
  have hlast : p.resolveAt (steps + 1) m (path ++ "." ++ name) = p.member steps target name := by
    rw [resolveAt_of_append (Text.splitOn_dot_append hname path), hpath]
    rfl
  rw [hlast, resolveAt_of_single (Text.splitOn_dot_of_not_mem hname)]
  rcases lookup_of_namedBinding (himports.binding? h hm' hfound) with ⟨found, hfile, hlookup⟩ | hother
  · rw [hlookup, member_eq_module_iff h]
    refine ⟨fun hoffers next hnext => ?_, fun hall => hall found hfile⟩
    rw [hfile] at hnext
    cases hnext
    exact hoffers
  · exact iff_of_true hother.2.symm fun next hnext => absurd hnext (hother.1 next)

/-- The two spellings of an import agree just if every package on the way has the next module by its
name. -/
theorem spelledAlike_iff (h : traverse t roots entry = .ok p) (hm : m ∈ p)
    (hfound : findModule? t roots (path.splitOn ".") = some target)
    (himports : m.ImportsModule path) :
    p.SpelledAlike t roots steps m path ↔ p.OffersAll t roots steps path target := by
  constructor
  · intro halike
    have hpath := halike.modules path (List.prefix_refl _) target hfound
    refine ⟨fun front name hfront hprefix key next hkey hnext => ?_, ?_⟩
    · rcases hprefix with ⟨back, hback⟩
      have hsplit : path.splitOn "." = front ++ ([name] ++ back) := by
        rw [← hback, List.append_assoc]
      rcases Text.exists_splitOn_dot hsplit hfront with ⟨f, hf⟩
      rcases Text.exists_splitOn_dot hback.symm (by simp) with ⟨g, hg⟩
      have houter := halike.modules f (hf ▸ ⟨_, hsplit.symm⟩) key (hf ▸ hkey)
      have hinner := halike.modules g (hg ▸ ⟨back, hback⟩) next (hg ▸ hnext)
      rw [resolveAt_of_append (hg.trans (by rw [hf])), houter, Option.bind_some] at hinner
      exact (member_eq_module_iff h).1 hinner
    · intro m' hm' name hname himports'
      exact (name_alike_iff h hm' hfound himports' hname hpath).1 (halike.names m' hm' name hname himports')
  · intro hoffers
    have hmodules : ∀ f : String, f.splitOn "." <+: path.splitOn "." →
        ∀ key, findModule? t roots (f.splitOn ".") = some key →
          p.resolveAt (steps + 1) m f = some (.module key) := by
      intro f hf key hkey
      exact hoffers.resolveAt h hm himports hf (Text.splitOn_dot_ne_nil f) f rfl key hkey
    have hpath := hmodules path (List.prefix_refl _) target hfound
    refine ⟨hmodules, fun m' hm' name hname himports' => ?_⟩
    exact (name_alike_iff h hm' hfound himports' hname hpath).2
      (hoffers.names m' hm' name hname himports')

/-- Modules at places of their own: a module offers what stands below it under a free name. -/
theorem offers_of_places {u v : SourceModule} {directory : Path} {name : String}
    (h : traverse t roots entry = .ok p) (hu : u ∈ p) (hv : v ∈ p) (hplaces : (p.map placeOf).Nodup)
    (hdirectory : u.packageDirectory = some directory) (hplace : placeOf v = directory ++ [name])
    (hfree : p.lookup steps u name = none) : p.Offers t steps u.key name v.key := by
  have hsame : ∀ w ∈ p, w.key = u.key → w = u := fun w hw hkey => eq_of_key h hw hu hkey
  refine ⟨⟨u, hu, rfl⟩, fun w hw hkey symbol hsymbol => ?_, fun w hw hkey _ => ?_⟩
  · rw [hsame w hw hkey, hfree] at hsymbol
    cases hsymbol
  · refine ⟨directory, packageDirectory_of_mem h hu ▸ hdirectory, ?_⟩
    rcases List.append_of_mem hv with ⟨before, after, rfl⟩
    refine ⟨before, v, after, rfl, rfl, hplace, fun w hw heq => ?_⟩
    rw [List.map_append, List.map_cons, List.nodup_append] at hplaces
    exact hplaces.2.2 _ (List.mem_map_of_mem hw) _ List.mem_cons_self (heq.trans hplace.symm)

end Program

/-! ## A package in two roots -/

namespace Sample.SplitPackage

/-- The directory `a` of the first root is empty, and that of the second one has the module `a.b`. Both
spellings of its import stand in one module. -/
def tree : FileTree where
  entries := [
    (["r1"], .directory),
    (["r1", "a"], .directory),
    (["r1", "m.py"], .file "import a.b\nfrom a.b import X\n".toUTF8),
    (["r2"], .directory),
    (["r2", "a"], .directory),
    (["r2", "a", "b.py"], .file "class X: pass\n".toUTF8)]
  workingDirectory := []

def outerKey : Path := ["r1", "m.py"]

def innerKey : Path := ["r2", "a", "b.py"]

def content : Python.Module where
  imports := [.modules "a.b" none, .names 0 (some "a.b") [⟨"X", none⟩] false]
  classes := []
  aliases := []

def innerContent : Python.Module := ⟨[], [shared], []⟩

/-- The imports, where the search finds this package. -/
def links (package : Path) : Links :=
  ⟨[("X", .imported innerKey "X"), ("a", .module package)], [],
    [(package, .imported), (innerKey, .imported), (innerKey, .imported)]⟩

def outerModule (package : Path) : SourceModule where
  key := outerKey
  dotted := "m"
  packageDirectory := none
  content := content
  bindings := [("X", .imported innerKey "X"), ("a", .module package)]
  stars := []
  inScope := true

def packageModule (package : Path) : SourceModule where
  key := package
  dotted := "a"
  packageDirectory := some package
  content := Python.Module.empty
  bindings := []
  stars := []
  inScope := false

def innerModule : SourceModule where
  key := innerKey
  dotted := "b"
  packageDirectory := none
  content := innerContent
  bindings := [("X", .classDef)]
  stars := []
  inScope := false

def units (package : Path) : Program := [outerModule package, packageModule package, innerModule]

-- Reading the text of a module is a deep recursion over its characters.
set_option maxRecDepth 100000 in
theorem readContent_outer : readContent tree outerKey = .ok content := by cbv

set_option maxRecDepth 100000 in
theorem readContent_inner : readContent tree innerKey = .ok innerContent := by cbv

theorem packageTree_outer : packageTree tree outerKey = [] := by cbv

/-- The places that are not met before the entry is visited. -/
def places : List Path := [[], ["r1"], ["r1", "a"], ["r2"], ["r2", "a"], innerKey]

theorem start_outer : Frontier.start tree.paths outerKey = ⟨places, [], [(outerKey, .entry)]⟩ := by cbv

/-- What is visited where the search finds this package. -/
theorem traverse_of_package {roots : List Path} {package : Path} {later : List Path}
    (hlinks : linksOf tree roots outerKey content.imports = .ok (links package))
    (hcontent : readContent tree package = .ok Python.Module.empty)
    (houter : linkedModule tree (fun k => k == outerKey || [].contains k) outerKey content (links package) =
      outerModule package)
    (hpackage : linkedModule tree (fun k => k == outerKey || [].contains k) package Python.Module.empty
      Links.empty = packageModule package)
    (hfollow : (⟨places, [], []⟩ : Frontier).followAll (links package).edges =
      ⟨later, [], [(package, .imported), (innerKey, .imported)]⟩) :
    traverse tree roots outerKey = .ok (units package) := by
  have hfrontier : (traversal tree roots outerKey).frontier = ⟨places, [], [(outerKey, .entry)]⟩ := by
    rw [frontier_of_alone packageTree_outer, start_outer]
  have hvisitOuter : (traversal tree roots outerKey).visit outerKey
      = .ok (outerModule package, (links package).edges) := by
    rw [visit_of_links readContent_outer hlinks, packageTree_outer, houter]
  have hnothing : ∀ key, linksOf tree roots key [] = .ok Links.empty := fun _ => rfl
  have hvisitPackage : (traversal tree roots outerKey).visit package = .ok (packageModule package, []) := by
    rw [visit_of_links hcontent (hnothing package), packageTree_outer, hpackage]
    rfl
  have hvisitInner : (traversal tree roots outerKey).visit innerKey = .ok (innerModule, []) := by
    have hinner : linkedModule tree (fun k => k == outerKey || [].contains k) innerKey innerContent Links.empty
        = innerModule := by cbv
    rw [visit_of_links readContent_inner (hnothing innerKey), packageTree_outer, hinner]
    rfl
  -- The entry is visited first, then the package and the module that it imports.
  rw [traverse_eq, hfrontier, Frontier.explore_of_ok (by rfl) hvisitOuter, hfollow,
    Frontier.explore_of_ok (by rfl) hvisitPackage, Frontier.explore_of_ok (by rfl) hvisitInner,
    Frontier.explore_of_nil (by rfl)]
  rfl

theorem traverse_both : traverse tree [["r1"], ["r2"]] outerKey = .ok (units ["r1", "a"]) :=
  traverse_of_package (by cbv) (by cbv) (by cbv) (by cbv) (by cbv)

theorem traverse_second : traverse tree [["r2"]] outerKey = .ok (units ["r2", "a"]) :=
  traverse_of_package (by cbv) (by cbv) (by cbv) (by cbv) (by cbv)

theorem splitOn_path : "a.b".splitOn "." = ["a", "b"] := by
  rw [Text.splitOn_dot]
  rfl

theorem importsModule_outer (package : Path) : (outerModule package).ImportsModule "a.b" where
  unassigned := List.not_mem_nil
  undeclared := List.not_mem_nil
  among := by
    refine ⟨[], [.names 0 (some "a.b") [⟨"X", none⟩] false], rfl, ?_⟩
    intro i hi hbound
    have hhead : outermost "a.b" = "a" := by
      rw [outermost, splitOn_path]
      rfl
    rw [List.mem_singleton.1 hi, hhead] at hbound
    exact absurd hbound (by decide)

theorem importsName_outer (package : Path) : (outerModule package).ImportsName "a.b" "X" where
  unassigned := List.not_mem_nil
  undeclared := List.not_mem_nil
  among := ⟨[.modules "a.b" none], [], [], [], false, rfl, nofun, nofun⟩

theorem lookup_package (p : Program) (package : Path) :
    p.lookup 32 (packageModule package) "b" = none := by
  have hfree : (packageModule package).binding? "b" = none := rfl
  rw [Program.lookup_succ, hfree]
  exact ite_self _

theorem resolveAt_both : Program.resolveAt (units ["r1", "a"]) Program.stepLimit
    (outerModule ["r1", "a"]) "X" = some (.classDef ⟨"/r2/a/b.py", "X"⟩) := by cbv

theorem resolveAt_both_dotted : Program.resolveAt (units ["r1", "a"]) Program.stepLimit
    (outerModule ["r1", "a"]) "a.b.X" = none := by cbv

theorem offers_second : Program.Offers (units ["r2", "a"]) tree 32 ["r2", "a"] "b" innerKey := by
  have hpackage : packageModule ["r2", "a"] ∈ units ["r2", "a"] :=
    List.mem_cons_of_mem _ List.mem_cons_self
  have hinner : innerModule ∈ units ["r2", "a"] :=
    List.mem_cons_of_mem _ (List.mem_cons_of_mem _ List.mem_cons_self)
  have hplaces : ((units ["r2", "a"]).map Program.placeOf).Nodup := by
    have heq : (units ["r2", "a"]).map Program.placeOf
        = [["r1", "m"], ["r2", "a"], ["r2", "a", "b"]] := by cbv
    rw [heq]
    decide
  exact Program.offers_of_places traverse_second hpackage hinner hplaces rfl (by cbv)
    (lookup_package _ _)

theorem offersAll_second :
    Program.OffersAll (units ["r2", "a"]) tree [["r2"]] 32 "a.b" innerKey := by
  constructor
  · intro front name hfront hprefix key next hkey hnext
    rw [splitOn_path] at hprefix
    rcases hprefix with ⟨back, hback⟩
    have hfirst : findModule? tree [["r2"]] ["a"] = some ["r2", "a"] := by cbv
    have hsecond : findModule? tree [["r2"]] ["a", "b"] = some innerKey := by cbv
    -- The only package on the way is `a`.
    rcases front with _ | ⟨first, _ | ⟨_, _⟩⟩
    · exact absurd rfl hfront
    · obtain ⟨rfl, rfl, rfl⟩ : first = "a" ∧ name = "b" ∧ back = [] := by simpa using hback
      rw [hfirst] at hkey
      cases hkey
      rw [List.singleton_append, hsecond] at hnext
      cases hnext
      exact offers_second
    · simp at hback
  · intro m' hm' name hname himports next hnext
    have hplain : packageDirectory? tree innerKey = none := by cbv
    rw [namedBinding, hplain] at hnext
    cases hnext

end Sample.SplitPackage

section

open Sample.SplitPackage

/-- Below the second root alone, the directory `a` has the module `b`. -/
theorem one_root_spelled_alike :
    traverse tree [["r2"]] outerKey = .ok (units ["r2", "a"]) ∧
      outerModule ["r2", "a"] ∈ units ["r2", "a"] ∧
      findModule? tree [["r2"]] ("a.b".splitOn ".") = some innerKey ∧
      (outerModule ["r2", "a"]).ImportsModule "a.b" ∧
      Program.SpelledAlike (units ["r2", "a"]) tree [["r2"]] 32 (outerModule ["r2", "a"]) "a.b" := by
  have hfound : findModule? tree [["r2"]] ("a.b".splitOn ".") = some innerKey := by
    rw [splitOn_path]
    cbv
  have hmem : outerModule ["r2", "a"] ∈ units ["r2", "a"] := List.mem_cons_self
  exact ⟨traverse_second, hmem, hfound, importsModule_outer _,
    (Program.spelledAlike_iff traverse_second hmem hfound (importsModule_outer _)).2 offersAll_second⟩

/-- With both roots, the search finds `a.b` below the second one, and `a` below the first one, where it
has no `b`. So `X` is a class after one import, and `a.b.X` is nothing after the other. -/
theorem split_package_spelled_apart :
    ∃ p : Program, traverse tree [["r1"], ["r2"]] outerKey = .ok p ∧ ∃ m ∈ p,
      findModule? tree [["r1"], ["r2"]] ("a.b".splitOn ".") = some innerKey ∧
      m.ImportsModule "a.b" ∧ m.ImportsName "a.b" "X" ∧
      (∀ u ∈ p, findModule? tree [["r1"], ["r2"]] ["a"] = some u.key → p.lookup 32 u "b" = none) ∧
      p.resolveAt Program.stepLimit m "X" = some (.classDef ⟨"/r2/a/b.py", "X"⟩) ∧
      p.resolveAt Program.stepLimit m "a.b.X" = none := by
  have hfound : findModule? tree [["r1"], ["r2"]] ("a.b".splitOn ".") = some innerKey := by
    rw [splitOn_path]
    cbv
  have hfirst : findModule? tree [["r1"], ["r2"]] ["a"] = some ["r1", "a"] := by cbv
  refine ⟨units ["r1", "a"], traverse_both, outerModule ["r1", "a"], List.mem_cons_self, hfound,
    importsModule_outer _, importsName_outer _, fun u hu hkey => ?_, resolveAt_both,
    resolveAt_both_dotted⟩
  rw [hfirst, Option.some.injEq] at hkey
  simp only [units, List.mem_cons, List.not_mem_nil, or_false] at hu
  rcases hu with rfl | rfl | rfl
  · exact absurd hkey (by decide)
  · exact lookup_package _ _
  · exact absurd hkey (by decide)

end

end Resolution
end WireTypes
