import WireTypes.Proofs.Discovery.Traversal
import WireTypes.Proofs.Resolution.StarImports

/-!
# Bindings — which names of a module are its classes

An import binds names to modules, to names of other modules and to external names. Only the classes of a
module are bound as its classes, and each of them is, since they are bound last.

- `Links.Foreign`: no import binds a class of the module itself;
- `SourceModule.Declares`: the names that are bound as classes are those of the classes;
- `declares_linkedModule`: this holds of a module that is put together from its imports;
- `traverse_linked`, `traverse_declares`: so it holds of every module that a traversal gives.
-/

namespace WireTypes
namespace Discovery

/-! ## Imports -/

namespace Links

/-- No name is bound as a class of the module. -/
def Foreign (l : Links) : Prop := ∀ b ∈ l.bindings, b.2.isClass = false

variable {l : Links} {t : FileTree} {roots : List Path}

theorem Foreign.empty : empty.Foreign := by
  intro b hb
  cases hb

theorem Foreign.bind (h : l.Foreign) (name : String) {b : Binding} (hb : b.isClass = false) :
    (l.bind name b).Foreign := by
  intro x hx
  rcases List.mem_cons.1 hx with rfl | hx
  · exact hb
  · exact h x hx

theorem Foreign.needs (h : l.Foreign) (target : Path) : (l.needs target).Foreign := h

theorem Foreign.needsAll (h : l.Foreign) (targets : List Path) : (l.needsAll targets).Foreign := by
  induction targets generalizing l with
  | nil => exact h
  | cons target rest ih => exact ih (h.needs target)

theorem isClass_moduleOr (target : Option Path) (name : String) :
    (moduleOr target name).isClass = false := by
  cases target <;> rfl

theorem Foreign.foldl {α : Type} {f : Links → α → Links}
    (hf : ∀ l a, Foreign l → Foreign (f l a)) (h : l.Foreign) (as : List α) :
    (as.foldl f l).Foreign := by
  induction as generalizing l with
  | nil => exact h
  | cons a rest ih => exact ih (hf l a h)

theorem Foreign.importModule (h : l.Foreign) (name : String) (rename : Option String) :
    (l.importModule t roots name rename).Foreign := by
  cases rename with
  | none => exact (h.needsAll _).bind _ (isClass_moduleOr _ _)
  | some new => exact (h.needsAll _).bind _ (isClass_moduleOr _ _)

theorem Foreign.importName (h : l.Foreign) (target : Path) (n : Python.ImportedName) :
    (importName t target l n).Foreign := by
  unfold Links.importName
  split
  · exact (h.needs _).bind _ rfl
  · exact h.bind _ rfl

theorem Foreign.importNames (h : l.Foreign) (target : Path) (names : List Python.ImportedName)
    (star : Bool) : (l.importNames t target names star).Foreign := by
  have hnames : (names.foldl (Links.importName t target) (l.needs target)).Foreign :=
    Foreign.foldl (fun _ n hl => hl.importName target n) (h.needs target) names
  cases star with
  | false => exact hnames
  | true => exact hnames

theorem Foreign.importExternal (h : l.Foreign) (target : String)
    (names : List Python.ImportedName) : (l.importExternal target names).Foreign :=
  Foreign.foldl (fun _ n hl => hl.bind n.binding rfl) h names

end Links

section

variable {t : FileTree} {roots : List Path} {key : Path} {l l' : Links}

theorem link_foreign {i : Python.Import} (h : l.Foreign) (hlink : link t roots key l i = .ok l') :
    l'.Foreign := by
  cases i with
  | modules name rename =>
      cases hlink
      exact h.importModule name rename
  | names level name names star =>
      cases level with
      | zero =>
          simp only [link] at hlink
          split at hlink
          · cases hlink
            exact h.importNames _ names star
          · cases hlink
            exact h.importExternal _ names
      | succ level =>
          simp only [link] at hlink
          split at hlink
          · cases hlink
            exact h.importNames _ names star
          · cases hlink

theorem foldlM_link_foreign {imports : List Python.Import} (h : l.Foreign)
    (hlinks : imports.foldlM (link t roots key) l = .ok l') : l'.Foreign := by
  induction imports generalizing l with
  | nil =>
      cases hlinks
      exact h
  | cons i rest ih =>
      rw [List.foldlM_cons] at hlinks
      cases hlink : link t roots key l i with
      | error e =>
          rw [hlink] at hlinks
          cases hlinks
      | ok next =>
          rw [hlink] at hlinks
          exact ih (link_foreign h hlink) hlinks

end

/-! ## Classes -/

/-- The names that are bound as classes are those of the classes. -/
def SourceModule.Declares (m : SourceModule) : Prop :=
  ∀ name, m.binding? name = some .classDef ↔ name ∈ m.content.classes.map Python.ClassDecl.name

section

variable {content : Python.Module} {name : String}

theorem mem_of_lookup_eq_some {α β : Type} [BEq α] [LawfulBEq α] {entries : List (α × β)} {a : α} {b : β}
    (h : entries.lookup a = some b) : (a, b) ∈ entries := by
  rcases List.lookup_eq_some_iff.1 h with ⟨front, back, hsplit, _⟩
  exact hsplit ▸ List.mem_append_right front List.mem_cons_self

/-- A class is bound last, so that its name stands for it whatever else binds the name. -/
theorem lookup_ownBindings_of_class (h : name ∈ content.classes.map Python.ClassDecl.name)
    (imported : List (String × Binding)) :
    (ownBindings content ++ imported).lookup name = some .classDef := by
  let classes := (content.classes.map fun d => (d.name, Binding.classDef)).reverse
  have hown : ownBindings content
      = classes ++ (content.aliases.map fun a => (a.1, Binding.alias a.2)).reverse := by
    simp [ownBindings, classes]
  have hbound : ∃ b, classes.lookup name = some b := by
    cases hlookup : classes.lookup name with
    | some b => exact ⟨b, rfl⟩
    | none =>
        rcases List.mem_map.1 h with ⟨d, hd, rfl⟩
        have hmem : (d.name, Binding.classDef) ∈ classes :=
          List.mem_reverse.2 (List.mem_map.2 ⟨d, hd, rfl⟩)
        simpa using List.lookup_eq_none_iff.1 hlookup _ hmem
  rcases hbound with ⟨b, hb⟩
  have hclass : b = .classDef := by
    rcases List.mem_map.1 (List.mem_reverse.1 (mem_of_lookup_eq_some hb)) with ⟨d, _, hd⟩
    exact (congrArg Prod.snd hd).symm
  simp [hown, List.lookup_append, hb, hclass]

theorem declares_linkedModule {t : FileTree} {inScope : Path → Bool} {key : Path} {links : Links}
    (h : links.Foreign) : (Resolution.linkedModule t inScope key content links).Declares := by
  intro name
  constructor
  · intro hbinding
    have hmem : (name, Binding.classDef) ∈ ownBindings content ++ links.bindings :=
      mem_of_lookup_eq_some hbinding
    rcases List.mem_append.1 hmem with hown | himported
    · rcases List.mem_append.1 (List.mem_reverse.1 hown) with halias | hclass
      · rcases List.mem_map.1 halias with ⟨a, _, ha⟩
        cases congrArg Prod.snd ha
      · rcases List.mem_map.1 hclass with ⟨d, hd, hname⟩
        exact List.mem_map.2 ⟨d, hd, congrArg Prod.fst hname⟩
    · cases h _ himported
  · intro hclass
    exact lookup_ownBindings_of_class hclass links.bindings

end

/-! ## Modules of a traversal -/

section

variable {t : FileTree} {roots : List Path} {inScope : Path → Bool} {key entry : Path}
  {content : Python.Module} {links : Links} {m : SourceModule} {edges : List (Path × Edge)}
  {units : List SourceModule}

theorem readContent_of_read {text : String} (hfile : t.isDirectory key = false)
    (htext : t.readText? key = some text) (hread : Python.Module.read text = .ok content) :
    readContent t key = .ok content := by
  simp only [readContent, hfile, htext, hread]
  rfl

/-- A module of this content with these links loads, and leads to what they need. -/
theorem load_of_links (hcontent : readContent t key = .ok content)
    (hlinks : linksOf t roots key content.imports = .ok links) :
    SourceModule.load t roots inScope key
      = .ok (Resolution.linkedModule t inScope key content links, links.edges) := by
  have hfold : content.imports.foldlM (link t roots key) Links.empty = .ok links := hlinks
  simp only [SourceModule.load, hcontent, bind, Except.bind, hfold]
  rfl

theorem visit_of_links (hcontent : readContent t key = .ok content)
    (hlinks : linksOf t roots key content.imports = .ok links) :
    (traversal t roots entry).visit key = .ok (Resolution.linkedModule t
      (fun k => k == entry || (packageTree t entry).contains k) key content links, links.edges) := by
  rw [traversal_visit, load_of_links hcontent hlinks]

/-- An entry without modules in its package is all that is queued first. -/
theorem frontier_of_alone (h : packageTree t entry = []) :
    (traversal t roots entry).frontier = Frontier.start t.paths entry := by
  show (Frontier.start t.paths entry).followAll ((packageTree t entry).map fun p => (p, .child)) = _
  rw [h]
  rfl

/-- What loads is put together from what its file holds. -/
theorem load_linked (h : SourceModule.load t roots inScope key = .ok (m, edges)) :
    ∃ content links, readContent t key = .ok content ∧
      linksOf t roots key content.imports = .ok links ∧
      m = Resolution.linkedModule t inScope key content links := by
  have hload : (SourceModule.load t roots inScope key).map Prod.fst = .ok m := by
    rw [h]
    rfl
  rw [Resolution.load_eq_linked] at hload
  cases hcontent : readContent t key with
  | error e =>
      rw [hcontent] at hload
      cases hload
  | ok content =>
      rw [hcontent] at hload
      cases hlinks : linksOf t roots key content.imports with
      | error e =>
          simp only [Except.bind, Resolution.linked, hlinks] at hload
          cases hload
      | ok links =>
          simp only [Except.bind, Resolution.linked, hlinks] at hload
          cases hload
          exact ⟨content, links, rfl, hlinks, rfl⟩

theorem traverse_linked (h : traverse t roots entry = .ok units) :
    ∀ m ∈ units, ∃ inScope content links, readContent t m.key = .ok content ∧
      linksOf t roots m.key content.imports = .ok links ∧
      m = Resolution.linkedModule t inScope m.key content links := by
  intro m hm
  rw [traverse_eq] at h
  rcases Exploration.explore_ok h with ⟨done, rfl, _, _⟩
  -- The module is the result of a visit.
  rcases List.mem_filterMap.1 hm with ⟨key, _, hresult⟩
  cases hvisit : (traversal t roots entry).visit key with
  | error e =>
      rw [hvisit] at hresult
      cases hresult
  | ok r =>
      rcases r with ⟨m', edges⟩
      rw [hvisit] at hresult
      obtain rfl : m' = m := Option.some.inj hresult
      have hload := (traversal_visit t roots entry key).symm.trans hvisit
      rcases load_linked hload with ⟨content, links, hcontent, hlinks, hm'⟩
      obtain rfl : m'.key = key := (load_ok hload).1
      exact ⟨_, content, links, hcontent, hlinks, hm'⟩

theorem traverse_declares (h : traverse t roots entry = .ok units) : ∀ m ∈ units, m.Declares := by
  intro m hm
  rcases traverse_linked h m hm with ⟨inScope, content, links, _, hlinks, hm'⟩
  rw [hm']
  exact declares_linkedModule (foldlM_link_foreign Links.Foreign.empty hlinks)

end

end Discovery
end WireTypes
