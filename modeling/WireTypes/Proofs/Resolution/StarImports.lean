import Mathlib
import WireTypes.Proofs.Discovery.Links
import WireTypes.Proofs.Resolution.Agreement
import WireTypes.Proofs.Text.Segments

/-!
# StarImports — what a star import means, name by name

A star import and an import of the names that it brings, at one place among the imports of a module.

- `Program.Public`: the names that a star import brings;
- `Interchangeable`: what the two imports must have in common;
- `Replaces.readsAlike_iff`: the module reads its names alike exactly if they are interchangeable;
- `star_import_means_names_iff`: the same of a module that is put together from its imports;
- `later_star_is_hidden`: of two stars the earlier one counts, of two imports by name the later one.
-/

namespace WireTypes
namespace Resolution

open Discovery Python

/-! ## A star import and the names that it brings -/

/-- The public names of a module: its own that do not start with an underscore, and those of the
modules that it imports everything from. -/
inductive Program.Public (p : Program) : Path → String → Prop
  | own {key m name} : p.module? key = some m → (m.binding? name).isSome →
      name.startsWith "_" = false → Public p key name
  | star {key m via name} : p.module? key = some m → via ∈ m.stars → Public p via name →
      Public p key name

theorem Program.Public.startsWith_eq_false {p : Program} {key : Path} {name : String}
    (h : p.Public key name) : name.startsWith "_" = false := by
  induction h with
  | own _ _ plain => exact plain
  | star _ _ _ ih => exact ih

/-- Where an import stands in a module, and the names that a star brings there. -/
structure Site where
  tree : FileTree
  /-- What later imports, assignments and classes bind. -/
  later : List (String × Binding)
  /-- What earlier imports bind. -/
  earlier : List (String × Binding)
  starsBefore : List Path
  target : Path
  starsAfter : List Path
  names : List String

/-- The same module in two programs: once it imports everything from a target, once the names. -/
structure Replaces (site : Site) (p p' : Program) (m m' : SourceModule) : Prop where
  twins : Twins p p'
  same : bareModule m' = bareModule m
  others : ∀ key, key ≠ m.key → p'.module? key = p.module? key
  found : p.module? m.key = some m
  found' : p'.module? m.key = some m'
  starred : ∀ name, m.binding? name
    = (site.later.lookup name).or (site.earlier.lookup name)
  stars : m.stars = site.starsBefore ++ site.target :: site.starsAfter
  named : ∀ name, m'.binding? name
    = (site.later.lookup name).or
        (if name ∈ site.names then some (namedBinding site.tree site.target name)
          else site.earlier.lookup name)
  stars' : m'.stars = site.starsBefore ++ site.starsAfter
  plain : ∀ name ∈ site.names, name.startsWith "_" = false

/-- When a star import means the same as an import of its names, at a number of steps. Only names count
that nothing later binds. -/
structure Interchangeable (site : Site) (p : Program) (m : SourceModule) (steps : Nat) : Prop where
  /-- What an earlier import binds is what the name means in the target. -/
  earlier : ∀ name ∈ site.names, site.later.lookup name = none →
    ∀ b, site.earlier.lookup name = some b →
      Same (p.meaning steps m name (namedBinding site.tree site.target name))
        (p.meaning steps m name b)
  /-- The first star that has the name has it as the target does. -/
  first : ∀ name ∈ site.names, site.later.lookup name = none → site.earlier.lookup name = none →
    Same (p.meaning steps m name (namedBinding site.tree site.target name))
      (p.throughStars steps (site.starsBefore ++ site.target :: site.starsAfter) name)
  /-- Of other names, the target has none that counts. -/
  others : ∀ name, name ∉ site.names → site.later.lookup name = none →
    site.earlier.lookup name = none → name.startsWith "_" = false →
      Same (p.throughStars steps (site.starsBefore ++ site.starsAfter) name)
        (p.throughStars steps (site.starsBefore ++ site.target :: site.starsAfter) name)

namespace Replaces

variable {site : Site} {p p' : Program} {m m' : SourceModule} {steps : Nat}

section

variable (h : Replaces site p p' m m') (agree : ∀ before ≤ steps, Agree p p' before) {name : String}
include h

theorem lookup_of_later {b : Binding} (later : site.later.lookup name = some b) :
    p.lookup (steps + 1) m name = p.meaning steps m name b := by
  have bound : m.binding? name = some b := by rw [h.starred, later]; rfl
  rw [Program.lookup_succ, bound]

theorem lookup_of_earlier {b : Binding} (later : site.later.lookup name = none)
    (earlier : site.earlier.lookup name = some b) :
    p.lookup (steps + 1) m name = p.meaning steps m name b := by
  have bound : m.binding? name = some b := by rw [h.starred, later, earlier]; rfl
  rw [Program.lookup_succ, bound]

theorem lookup_of_star (later : site.later.lookup name = none)
    (earlier : site.earlier.lookup name = none) (plain : name.startsWith "_" = false) :
    p.lookup (steps + 1) m name
      = p.throughStars steps (site.starsBefore ++ site.target :: site.starsAfter) name := by
  have free : m.binding? name = none := by rw [h.starred, later, earlier]; rfl
  rw [Program.lookup_succ, free, h.stars, plain]
  rfl

include agree

theorem named_binding {b : Binding} (bound : m'.binding? name = some b) :
    Same (p'.lookup (steps + 1) m' name) (p.meaning steps m name b) := by
  rw [Program.lookup_succ, bound]
  exact Agree.meaning agree h.found h.found' h.same name b

theorem named_of_star (free : m'.binding? name = none) (plain : name.startsWith "_" = false) :
    Same (p'.lookup (steps + 1) m' name)
      (p.throughStars steps (site.starsBefore ++ site.starsAfter) name) := by
  rw [Program.lookup_succ, free, h.stars', plain]
  exact (agree steps (Nat.le_refl _)).throughStars _ name

end

/-- The changed module reads its names alike exactly if its star and its names are interchangeable. -/
theorem lookup_iff (h : Replaces site p p' m m') (agree : ∀ before ≤ steps, Agree p p' before) :
    (∀ name, Same (p'.lookup (steps + 1) m' name) (p.lookup (steps + 1) m name)) ↔
      Interchangeable site p m steps := by
  have listed {name : String} (member : name ∈ site.names) (later : site.later.lookup name = none) :
      m'.binding? name = some (namedBinding site.tree site.target name) := by
    rw [h.named, later, if_pos member]
    rfl
  have unlisted {name : String} (absent : name ∉ site.names)
      (later : site.later.lookup name = none) :
      m'.binding? name = site.earlier.lookup name := by
    rw [h.named, later, if_neg absent]
    rfl
  constructor
  · intro alike
    refine ⟨?_, ?_, ?_⟩
    · intro name member later b earlier
      have same := alike name
      rw [h.lookup_of_earlier later earlier] at same
      exact (h.named_binding agree (listed member later)).symm.trans same
    · intro name member later earlier
      have same := alike name
      rw [h.lookup_of_star later earlier (h.plain name member)] at same
      exact (h.named_binding agree (listed member later)).symm.trans same
    · intro name absent later earlier plain
      have same := alike name
      rw [h.lookup_of_star later earlier plain] at same
      have free : m'.binding? name = none := by rw [unlisted absent later, earlier]
      exact (h.named_of_star agree free plain).symm.trans same
  · intro inter name
    cases later : site.later.lookup name with
    | some b =>
        have bound : m'.binding? name = some b := by rw [h.named, later]; rfl
        rw [h.lookup_of_later later]
        exact h.named_binding agree bound
    | none =>
        by_cases member : name ∈ site.names
        · have read := h.named_binding agree (listed member later)
          cases earlier : site.earlier.lookup name with
          | some b =>
              rw [h.lookup_of_earlier later earlier]
              exact read.trans (inter.earlier name member later b earlier)
          | none =>
              rw [h.lookup_of_star later earlier (h.plain name member)]
              exact read.trans (inter.first name member later earlier)
        · cases earlier : site.earlier.lookup name with
          | some b =>
              have bound : m'.binding? name = some b := by rw [unlisted member later, earlier]
              rw [h.lookup_of_earlier later earlier]
              exact h.named_binding agree bound
          | none =>
              have free : m'.binding? name = none := by rw [unlisted member later, earlier]
              cases underscore : name.startsWith "_" with
              | false =>
                  rw [h.lookup_of_star later earlier underscore]
                  exact (h.named_of_star agree free underscore).trans
                    (inter.others name member later earlier underscore)
              | true =>
                  have free' : m.binding? name = none := by rw [h.starred, later, earlier]; rfl
                  rw [Program.lookup_succ, Program.lookup_succ, free, free', underscore]
                  exact .refl _

/-- Where star and names are interchangeable with fewer steps, all modules are read alike. -/
theorem agree_of_interchangeable (h : Replaces site p p' m m') {bound : Nat}
    (inter : ∀ steps < bound, Interchangeable site p m steps) :
    ∀ steps ≤ bound, Agree p p' steps := by
  intro steps
  -- On all smaller numbers of steps: an alias is read with several steps fewer.
  induction steps using Nat.strongRecOn with
  | ind steps ih =>
      intro within
      cases steps with
      | zero => exact Agree.zero h.twins
      | succ steps =>
          have agree : ∀ before ≤ steps, Agree p p' before := fun before le =>
            ih before (Nat.lt_succ_of_le le) (Nat.le_trans le (Nat.le_of_succ_le within))
          refine (agree steps (Nat.le_refl _)).succ h.twins ?_
          intro key u u' found found' name
          by_cases here : key = m.key
          · subst here
            obtain rfl : u = m := Option.some.inj (found.symm.trans h.found)
            obtain rfl : u' = m' := Option.some.inj (found'.symm.trans h.found')
            exact (h.lookup_iff agree).mpr (inter steps within) name
          · rw [h.others key here, found] at found'
            obtain rfl : u = u' := Option.some.inj found'
            exact Agree.lookup_of_unchanged agree found (by rw [h.others key here, found]) name

end Replaces

/-- A module reads names and dotted names alike in two programs. -/
def ReadsAlike (p p' : Program) (m m' : SourceModule) (steps : Nat) : Prop :=
  (∀ name, Same (p'.lookup steps m' name) (p.lookup steps m name)) ∧
    ∀ dotted, Same (p'.resolveAt steps m' dotted) (p.resolveAt steps m dotted)

namespace Replaces

variable {site : Site} {p p' : Program} {m m' : SourceModule}

theorem readsAlike_iff (h : Replaces site p p' m m') (bound : Nat) :
    (∀ steps ≤ bound, ReadsAlike p p' m m' steps) ↔
      ∀ steps < bound, Interchangeable site p m steps := by
  constructor
  · intro alike steps
    -- What is known for fewer steps makes all modules agree, so that one step more can be compared.
    induction steps using Nat.strongRecOn with
    | ind steps ih =>
        intro within
        have agree : ∀ before ≤ steps, Agree p p' before :=
          h.agree_of_interchangeable fun before less => ih before less (Nat.lt_trans less within)
        exact (h.lookup_iff agree).mp (alike (steps + 1) within).1
  · intro inter steps within
    have agree : Agree p p' steps := h.agree_of_interchangeable inter steps within
    exact ⟨agree.lookup m.key m m' h.found h.found',
      agree.resolveAt m.key m m' h.found h.found'⟩

end Replaces

/-! ## Modules put together from their imports -/

/-- A module of this content whose imports add up to these links. -/
def linkedModule (t : FileTree) (inScope : Path → Bool) (key : Path) (content : Python.Module)
    (links : Links) : SourceModule where
  key := key
  dotted := dottedName t key
  packageDirectory := packageDirectory? t key
  content := content
  bindings := ownBindings content ++ links.bindings
  stars := links.stars
  inScope := inScope key

/-- A module of this content at its place in a tree. -/
def linked (t : FileTree) (roots : List Path) (inScope : Path → Bool) (key : Path)
    (content : Python.Module) : Except LoadError SourceModule :=
  (linksOf t roots key content.imports).map (linkedModule t inScope key content)

/-- A module that is loaded is the linked module of what its file holds. -/
theorem load_eq_linked (t : FileTree) (roots : List Path) (inScope : Path → Bool) (key : Path) :
    (SourceModule.load t roots inScope key).map Prod.fst
      = (readContent t key).bind (linked t roots inScope key) := by
  rw [SourceModule.load]
  cases readContent t key with
  | error e => rfl
  | ok content =>
      change ((linksOf t roots key content.imports).bind _).map Prod.fst
        = linked t roots inScope key content
      rw [linked]
      cases linksOf t roots key content.imports with
      | error e => rfl
      | ok links => rfl

section

variable {t : FileTree} {roots : List Path} {inScope : Path → Bool} {key target : Path}
  {content : Python.Module} {before after : List Python.Import} {level : Nat} {name : Option String}
  {names : List String} {earlier later : Links} {front back : Program} {m : SourceModule}

/-- The place between the imports before a statement and those behind it. -/
def siteOf (t : FileTree) (content : Python.Module) (earlier later : Links) (target : Path)
    (names : List String) : Site where
  tree := t
  later := ownBindings content ++ later.bindings
  earlier := earlier.bindings
  starsBefore := earlier.stars
  target := target
  starsAfter := later.stars
  names := names

theorem linked_names (leads : targetOf? t roots key level name = some target)
    (hbefore : linksOf t roots key before = .ok earlier)
    (hafter : linksOf t roots key after = .ok later) (imported : List ImportedName) (star : Bool) :
    linked t roots inScope key
        { content with imports := before ++ .names level name imported star :: after }
      = .ok (linkedModule t inScope key
          { content with imports := before ++ .names level name imported star :: after }
          (earlier.append ((Links.empty.importNames t target imported star).append later))) := by
  have own : link t roots key Links.empty (.names level name imported star)
      = .ok (Links.empty.importNames t target imported star) := link_names leads _ _ _
  rw [linked, linksOf_cons hbefore own hafter]
  rfl

/-- The two imports change nothing but what their module binds. -/
theorem replaces_linked {m m' : SourceModule} {imports imports' : List Python.Import}
    (hm : m = linkedModule t inScope key { content with imports := imports }
      (earlier.append ((Links.empty.importNames t target [] true).append later)))
    (hm' : m' = linkedModule t inScope key { content with imports := imports' }
      (earlier.append ((Links.empty.importNames t target (plainNames names) false).append later)))
    (unmet : ∀ u ∈ front, u.key ≠ key) (plain : ∀ n ∈ names, n.startsWith "_" = false) :
    Replaces (siteOf t content earlier later target names) (front ++ m :: back)
      (front ++ m' :: back) m m' := by
  have at_ : m.key = key := congrArg SourceModule.key hm
  have at' : m'.key = key := congrArg SourceModule.key hm'
  have same : bareModule m' = bareModule m := by rw [hm, hm']; rfl
  have passed : front.find? (fun u => decide (u.key = key)) = none := by
    apply List.find?_eq_none.mpr
    intro u member
    simpa using unmet u member
  have here (v : SourceModule) (own : v.key = key) :
      Program.module? (front ++ v :: back) key = some v := by
    simp [Program.module?, List.find?_append, passed, own]
  have elsewhere (v : SourceModule) (own : v.key = key) (other : Path) (apart : other ≠ key) :
      Program.module? (front ++ v :: back) other = Program.module? (front ++ back) other := by
    have differs : v.key ≠ other := fun equal => apart (equal.symm.trans own)
    simp [Program.module?, List.find?_append, differs]
  constructor
  case twins => simp [Twins, same]
  case same => exact same
  case others =>
    intro other apart
    rw [at_] at apart
    rw [elsewhere m at_ other apart, elsewhere m' at' other apart]
  case found => exact at_ ▸ here m at_
  case found' => exact at_ ▸ here m' at'
  case starred =>
    intro n
    have bindings : m.bindings = (ownBindings content ++ later.bindings) ++ earlier.bindings := by
      rw [hm]
      simp [linkedModule, Links.append, Links.bindings_importNames_star, ownBindings]
    rw [SourceModule.binding?, bindings, List.lookup_append]
    rfl
  case stars =>
    rw [hm]
    simp [linkedModule, Links.append, Links.stars_importNames, siteOf]
  case named =>
    intro n
    have bindings : m'.bindings = (ownBindings content ++ later.bindings)
        ++ ((Links.empty.importNames t target (plainNames names) false).bindings
          ++ earlier.bindings) := by
      rw [hm']
      simp [linkedModule, Links.append, ownBindings]
    have own : ((Links.empty.importNames t target (plainNames names) false).bindings
        ++ earlier.bindings).lookup n
          = if n ∈ names then some (namedBinding t target n) else earlier.bindings.lookup n := by
      rw [List.lookup_append, Links.lookup_importNames]
      split <;> rfl
    rw [SourceModule.binding?, bindings, List.lookup_append, own]
    rfl
  case stars' =>
    rw [hm']
    simp [linkedModule, Links.append, Links.stars_importNames, siteOf]
  case plain => exact plain

/-- A star import can be replaced by an import of the public names of its target, at its place among the
imports, exactly if the two are interchangeable. -/
theorem star_import_means_names_iff
    (leads : targetOf? t roots key level name = some target)
    (hbefore : linksOf t roots key before = .ok earlier)
    (hafter : linksOf t roots key after = .ok later)
    (loads : linked t roots inScope key
      { content with imports := before ++ .names level name [] true :: after } = .ok m)
    (unmet : ∀ u ∈ front, u.key ≠ key)
    (brings : ∀ n, n ∈ names ↔ Program.Public (front ++ m :: back) target n) :
    ∃ m', linked t roots inScope key
        { content with imports := before ++ .names level name (plainNames names) false :: after }
          = .ok m' ∧
      (∀ bound, (∀ steps ≤ bound,
          ReadsAlike (front ++ m :: back) (front ++ m' :: back) m m' steps) ↔
        ∀ steps < bound, Interchangeable (siteOf t content earlier later target names)
          (front ++ m :: back) m steps) ∧
      ((∀ steps < Program.stepLimit, Interchangeable (siteOf t content earlier later target names)
          (front ++ m :: back) m steps) →
        ∀ dotted, (Program.resolve (front ++ m' :: back) m' dotted).bare
          = (Program.resolve (front ++ m :: back) m dotted).bare) := by
  have hm := Except.ok.inj (loads.symm.trans (linked_names leads hbefore hafter [] true))
  obtain ⟨m', loads', hm'⟩ : ∃ m', linked t roots inScope key
      { content with imports := before ++ .names level name (plainNames names) false :: after }
        = .ok m' ∧ m' = linkedModule _ _ _ _ _ :=
    ⟨_, linked_names leads hbefore hafter (plainNames names) false, rfl⟩
  have plain : ∀ n ∈ names, n.startsWith "_" = false :=
    fun n member => ((brings n).mp member).startsWith_eq_false
  have replaces : Replaces (siteOf t content earlier later target names) (front ++ m :: back)
      (front ++ m' :: back) m m' := replaces_linked hm hm' unmet plain
  have exactly := replaces.readsAlike_iff
  refine ⟨m', loads', exactly, fun inter dotted => ?_⟩
  have alike := (exactly Program.stepLimit).mpr inter Program.stepLimit (Nat.le_refl _)
  exact (alike.2 dotted).getD dotted

end

/-! ## Imports that do not meet -/

theorem Program.throughStars_append_cons (p : Program) (steps : Nat) (before after : List Path)
    (key : Path) (name : String) :
    p.throughStars steps (before ++ key :: after) name
      = (p.throughStars steps before name).or
          ((p.member steps key name).or (p.throughStars steps after name)) := by
  rw [throughStars, List.findSome?_append, List.findSome?_cons]
  cases p.member steps key name <;> simp [throughStars]

theorem Program.throughStars_eq_none {p : Program} {steps : Nat} {stars : List Path} {name : String}
    (h : ∀ key ∈ stars, p.member steps key name = none) : p.throughStars steps stars name = none :=
  List.findSome?_eq_none_iff.mpr h

/-- A star and its names are interchangeable where no other import has one of the names, the target has
them as names of its own, and it has nothing else. -/
theorem interchangeable_of_apart {site : Site} {p : Program} {m : SourceModule} {steps : Nat}
    (earlier : ∀ name ∈ site.names, site.earlier.lookup name = none)
    (stars : ∀ name ∈ site.names, ∀ key ∈ site.starsBefore ++ site.starsAfter,
      p.member steps key name = none)
    (own : ∀ name ∈ site.names,
      namedBinding site.tree site.target name = .imported site.target name)
    (others : ∀ name, name ∉ site.names → name.startsWith "_" = false →
      p.member steps site.target name = none) :
    Interchangeable site p m steps := by
  constructor
  case earlier =>
    intro name member _ b bound
    rw [earlier name member] at bound
    cases bound
  case first =>
    intro name member _ _
    have before : p.throughStars steps site.starsBefore name = none :=
      Program.throughStars_eq_none fun key among =>
        stars name member key (List.mem_append_left _ among)
    have after : p.throughStars steps site.starsAfter name = none :=
      Program.throughStars_eq_none fun key among =>
        stars name member key (List.mem_append_right _ among)
    rw [own name member, Program.throughStars_append_cons, before, after, Option.none_or,
      Option.or_none]
    exact .refl _
  case others =>
    intro name absent _ _ plain
    have both : p.throughStars steps (site.starsBefore ++ site.starsAfter) name
        = (p.throughStars steps site.starsBefore name).or
            (p.throughStars steps site.starsAfter name) := by
      simp [Program.throughStars, List.findSome?_append]
    rw [Program.throughStars_append_cons, others name absent plain, Option.none_or, both]
    exact .refl _

/-! ## Two stars with the same name -/

namespace Sample

/-- Two modules with a class of one name, and a module for both. -/
def tree : FileTree where
  entries := [
    (["a.py"], .file "class X: pass\n".toUTF8),
    (["b.py"], .file "class X: pass\n".toUTF8),
    (["m.py"], .file "from a import *\nfrom b import *\n".toUTF8)]
  workingDirectory := []

def shared : ClassDecl where
  name := "X"
  bases := []
  keywords := []
  docstring := none
  attributes := []
  assignments := []
  config := none
  computed := []

def isEntry (key : Path) : Bool := key == ["m.py"]

/-- A module with the class, at this place. -/
def namesake (key : Path) : SourceModule :=
  linkedModule tree isEntry key ⟨[], [shared], []⟩ Links.empty

def starOf (name : String) : Import := .names 0 (some name) [] true

def importing (imports : List Import) : Python.Module :=
  { Python.Module.empty with imports := imports }

/-- Both modules by a star. -/
def starred : SourceModule :=
  linkedModule tree isEntry ["m.py"] (importing [starOf "a", starOf "b"])
    ⟨[], [["a.py"], ["b.py"]], [(["a.py"], .imported), (["b.py"], .imported)]⟩

/-- The second module by a star. -/
def alone : SourceModule :=
  linkedModule tree isEntry ["m.py"] (importing [starOf "b"])
    ⟨[], [["b.py"]], [(["b.py"], .imported)]⟩

/-- The first module by a star, and the name of the second one. -/
def named : SourceModule :=
  linkedModule tree isEntry ["m.py"]
    (importing [starOf "a", .names 0 (some "b") (plainNames ["X"]) false])
    ⟨[("X", .imported ["b.py"] "X")], [["a.py"]], [(["a.py"], .imported), (["b.py"], .imported)]⟩

theorem leads_first : targetOf? tree [[]] ["m.py"] 0 (some "a") = some ["a.py"] := by cbv

theorem leads_second : targetOf? tree [[]] ["m.py"] 0 (some "b") = some ["b.py"] := by cbv

theorem namedBinding_second : namedBinding tree ["b.py"] "X" = .imported ["b.py"] "X" := by cbv

theorem linksOf_nil : linksOf tree [[]] ["m.py"] [] = .ok Links.empty := rfl

theorem linked_starred : linked tree [[]] isEntry ["m.py"]
    (importing ([starOf "a"] ++ starOf "b" :: [])) = .ok starred := by
  have before : linksOf tree [[]] ["m.py"] [starOf "a"] = _ :=
    linksOf_cons linksOf_nil (link_names leads_first _ _ _) linksOf_nil
  exact linked_names leads_second before linksOf_nil [] true

theorem linked_alone : linked tree [[]] isEntry ["m.py"]
    (importing ([] ++ starOf "b" :: [])) = .ok alone :=
  linked_names leads_second linksOf_nil linksOf_nil [] true

theorem linked_named : linked tree [[]] isEntry ["m.py"]
    (importing ([starOf "a"] ++ .names 0 (some "b") (plainNames ["X"]) false :: []))
      = .ok named := by
  have before : linksOf tree [[]] ["m.py"] [starOf "a"] = _ :=
    linksOf_cons linksOf_nil (link_names leads_first _ _ _) linksOf_nil
  have own : Links.empty.importNames tree ["b.py"] (plainNames ["X"]) false
      = ⟨[("X", .imported ["b.py"] "X")], [], [(["b.py"], .imported)]⟩ := by cbv
  refine (linked_names leads_second before linksOf_nil (plainNames ["X"]) false).trans ?_
  rw [own]
  rfl

theorem binding?_namesake (key : Path) (name : String) :
    (namesake key).binding? name = if name = "X" then some .classDef else none := by
  by_cases same : name = "X"
  · rw [if_pos same, same]
    rfl
  · have differs : (name == "X") = false := by simpa using same
    rw [if_neg same]
    simp [SourceModule.binding?, namesake, linkedModule, ownBindings, Links.empty, shared,
      List.lookup_cons, differs]

theorem public_namesake {p : Program} {key : Path} (found : p.module? key = some (namesake key))
    (name : String) : p.Public key name ↔ name = "X" := by
  constructor
  · intro h
    cases h with
    | own found' bound _ =>
        obtain rfl := Option.some.inj (found.symm.trans found')
        rw [binding?_namesake] at bound
        by_cases same : name = "X"
        · exact same
        · rw [if_neg same] at bound
          cases bound
    | star found' via _ =>
        obtain rfl := Option.some.inj (found.symm.trans found')
        cases via
  · rintro rfl
    exact .own found (by rw [binding?_namesake]; rfl) (by cbv)

theorem member_namesake {p : Program} {key : Path} (found : p.module? key = some (namesake key))
    (steps : Nat) : p.member (steps + 1) key "X" = some (.classDef ⟨key.display, "X"⟩) := by
  rw [Program.member_eq, found, Option.bind_some, Program.lookup_succ, binding?_namesake, if_pos rfl]
  rfl

/-- The second module has no other name, at any number of steps. -/
theorem member_second_eq_none {p : Program}
    (found : p.module? ["b.py"] = some (namesake ["b.py"])) {name : String} (differs : name ≠ "X")
    (steps : Nat) : p.member steps ["b.py"] name = none := by
  have directory : (namesake ["b.py"]).packageDirectory = none := by cbv
  have noSubmodule : p.submodule? (namesake ["b.py"]) name = none := by
    rw [Program.submodule?, directory]
    rfl
  have noName : p.lookup steps (namesake ["b.py"]) name = none := by
    cases steps with
    | zero => rw [Program.lookup]
    | succ steps =>
        rw [Program.lookup_succ, binding?_namesake, if_neg differs]
        exact ite_self _
  rw [Program.member_eq, found, Option.bind_some, noName, noSubmodule]
  rfl

theorem resolve_shared (p : Program) (m : SourceModule) :
    p.resolve m "X" = (p.lookup Program.stepLimit m "X").getD (.external "X") := by
  have segments : "X".splitOn "." = ["X"] := by
    rw [Text.splitOn_dot]
    rfl
  have read : p.resolveAt Program.stepLimit m "X" = p.lookup Program.stepLimit m "X" := by
    rw [Program.stepLimit, Program.resolveAt_succ, segments]
    simp
  rw [Program.resolve, read]

/-- A module beside the two that it imports from. -/
def programOf (m : SourceModule) : Program := [m, namesake ["a.py"], namesake ["b.py"]]

theorem resolve_starred : (programOf starred).resolve starred "X" = .classDef ⟨"/a.py", "X"⟩ := by
  have free : starred.binding? "X" = none := rfl
  have plain : "X".startsWith "_" = false := by cbv
  have first : (programOf starred).member 32 ["a.py"] "X" = some (.classDef ⟨"/a.py", "X"⟩) :=
    member_namesake rfl 31
  have stars : (programOf starred).throughStars 32 starred.stars "X"
      = some (.classDef ⟨"/a.py", "X"⟩) := by
    change List.findSome? (fun star => (programOf starred).member 32 star "X")
      [["a.py"], ["b.py"]] = _
    rw [List.findSome?_cons, first]
  rw [resolve_shared, Program.stepLimit, Program.lookup_succ, free, plain, stars]
  rfl

theorem resolve_named : (programOf named).resolve named "X" = .classDef ⟨"/b.py", "X"⟩ := by
  have bound : named.binding? "X" = some (.imported ["b.py"] "X") := rfl
  have second : (programOf named).member 32 ["b.py"] "X" = some (.classDef ⟨"/b.py", "X"⟩) :=
    member_namesake rfl 31
  have read : (programOf named).lookup Program.stepLimit named "X"
      = (programOf named).member 32 ["b.py"] "X" := by
    rw [Program.stepLimit, Program.lookup_succ, bound]
    rfl
  rw [resolve_shared, read, second]
  rfl

end Sample

/-- With the name of the second module for its star, the shared name means another class: a later star is
hidden by an earlier one, while a later import by name counts. -/
theorem later_star_is_hidden :
    linked Sample.tree [[]] Sample.isEntry ["m.py"]
        (Sample.importing ([Sample.starOf "a"] ++ Sample.starOf "b" :: [])) = .ok Sample.starred ∧
      linked Sample.tree [[]] Sample.isEntry ["m.py"] (Sample.importing
        ([Sample.starOf "a"] ++ .names 0 (some "b") (plainNames ["X"]) false :: []))
          = .ok Sample.named ∧
      (∀ n, n ∈ ["X"] ↔ (Sample.programOf Sample.starred).Public ["b.py"] n) ∧
      (Sample.programOf Sample.starred).resolve Sample.starred "X" = .classDef ⟨"/a.py", "X"⟩ ∧
      (Sample.programOf Sample.named).resolve Sample.named "X" = .classDef ⟨"/b.py", "X"⟩ := by
  refine ⟨Sample.linked_starred, Sample.linked_named, fun n => ?_, Sample.resolve_starred,
    Sample.resolve_named⟩
  rw [Sample.public_namesake rfl, List.mem_singleton]

/-- A star that stands alone can be replaced by the name that it brings. -/
theorem lone_star_means_names :
    targetOf? Sample.tree [[]] ["m.py"] 0 (some "b") = some ["b.py"] ∧
      linksOf Sample.tree [[]] ["m.py"] [] = .ok Links.empty ∧
      linked Sample.tree [[]] Sample.isEntry ["m.py"]
        (Sample.importing ([] ++ Sample.starOf "b" :: [])) = .ok Sample.alone ∧
      (∀ u ∈ [Sample.namesake ["b.py"]], u.key ≠ ["m.py"]) ∧
      (∀ n, n ∈ ["X"] ↔
        Program.Public ([Sample.namesake ["b.py"]] ++ Sample.alone :: []) ["b.py"] n) ∧
      ∃ m', linked Sample.tree [[]] Sample.isEntry ["m.py"] (Sample.importing
          ([] ++ .names 0 (some "b") (plainNames ["X"]) false :: [])) = .ok m' ∧
        ∀ dotted, (Program.resolve ([Sample.namesake ["b.py"]] ++ m' :: []) m' dotted).bare
          = (Program.resolve ([Sample.namesake ["b.py"]] ++ Sample.alone :: []) Sample.alone
              dotted).bare := by
  have unmet : ∀ u ∈ [Sample.namesake ["b.py"]], u.key ≠ ["m.py"] := by
    intro u member
    obtain rfl := List.mem_singleton.mp member
    decide
  have brings : ∀ n, n ∈ ["X"] ↔
      Program.Public ([Sample.namesake ["b.py"]] ++ Sample.alone :: []) ["b.py"] n := by
    intro n
    rw [Sample.public_namesake rfl, List.mem_singleton]
  obtain ⟨m', loads', -, alike⟩ :=
    star_import_means_names_iff Sample.leads_second Sample.linksOf_nil Sample.linksOf_nil
      Sample.linked_alone unmet brings
  refine ⟨Sample.leads_second, Sample.linksOf_nil, Sample.linked_alone, unmet, brings, m', loads',
    alike fun steps _ => ?_⟩
  apply interchangeable_of_apart
  case earlier =>
    intro name _
    rfl
  case stars =>
    intro name _ key among
    cases among
  case own =>
    intro name member
    obtain rfl := List.mem_singleton.mp member
    exact Sample.namedBinding_second
  case others =>
    intro name absent _
    exact Sample.member_second_eq_none rfl (fun same => absent (List.mem_singleton.mpr same)) steps

end Resolution
end WireTypes
