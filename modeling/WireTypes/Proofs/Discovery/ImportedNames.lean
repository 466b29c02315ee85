import WireTypes.Proofs.Discovery.DottedNames
import WireTypes.Proofs.Resolution.Bindings

/-!
# Imported names — what the imports of a module bind

A name that an import binds keeps this meaning as long as nothing behind the import gives it another one.

- `lookup_linksOf`: the last import that binds a name decides;
- `ImportsModule.binding?`: after `import a.b.c`, the name `a` is the outermost package;
- `ImportsName.binding?`: after `from a.b.c import x`, the name `x` is what the module has by it;
- `findModule?_of_append`: the packages around a module that is found are found too.
-/

namespace WireTypes

/-- The name that an import of a module binds without an alias. -/
def outermost (path : String) : String := (path.splitOn ".").headD path

/-- The names that an import binds. -/
def Python.Import.boundNames : Python.Import → List String
  | .modules path rename => [rename.getD (outermost path)]
  | .names _ _ imported _ => imported.map Python.ImportedName.binding

namespace Discovery

open Python

variable {t : FileTree} {roots : List Path} {key : Path}

/-! ## One import -/

namespace Links

variable {l : Links}

theorem bindings_needsAll (targets : List Path) : (l.needsAll targets).bindings = l.bindings := by
  induction targets generalizing l with
  | nil => rfl
  | cons target rest ih => exact ih

theorem bindings_importModule (path : String) (rename : Option String) :
    ∃ b, (l.importModule t roots path rename).bindings
      = (rename.getD (outermost path), b) :: l.bindings := by
  cases rename with
  | none => exact ⟨_, congrArg _ (bindings_needsAll _)⟩
  | some new => exact ⟨_, congrArg _ (bindings_needsAll _)⟩

theorem bindings_importModule_none (path : String) :
    (l.importModule t roots path none).bindings
      = (outermost path, moduleOr (findModule? t roots [outermost path]) (outermost path))
        :: l.bindings := congrArg _ (bindings_needsAll _)

/-- The bindings that a fold adds have the names of its elements. -/
theorem foldl_bindings {α : Type} {f : Links → α → Links} {name : α → String}
    (hf : ∀ (l : Links) (a : α), ∃ b, (f l a).bindings = (name a, b) :: l.bindings) (as : List α) :
    ∀ b ∈ (as.foldl f l).bindings, b ∈ l.bindings ∨ b.1 ∈ as.map name := by
  induction as generalizing l with
  | nil => exact fun b hb => Or.inl hb
  | cons a rest ih =>
      intro b hb
      rcases ih b hb with hb | hb
      · rcases hf l a with ⟨c, hc⟩
        rw [hc] at hb
        rcases List.mem_cons.1 hb with rfl | hb
        · exact Or.inr List.mem_cons_self
        · exact Or.inl hb
      · exact Or.inr (List.mem_cons_of_mem _ hb)

theorem exists_bindings_importName (target : Path) (l : Links) (n : ImportedName) :
    ∃ b, (importName t target l n).bindings = (n.binding, b) :: l.bindings := by
  unfold importName
  split
  · exact ⟨_, rfl⟩
  · exact ⟨_, rfl⟩

theorem bindings_importNames (target : Path) (names : List ImportedName) (star : Bool) :
    (l.importNames t target names star).bindings
      = (names.foldl (importName t target) (l.needs target)).bindings := by
  cases star <;> rfl

/-- Names that are imported later leave a binding of another name as it is. -/
theorem lookup_foldl_importName {target : Path} {names : List ImportedName} {name : String}
    (h : ∀ n ∈ names, n.binding ≠ name) :
    (names.foldl (importName t target) l).bindings.lookup name = l.bindings.lookup name := by
  induction names generalizing l with
  | nil => rfl
  | cons n rest ih =>
      rcases List.forall_mem_cons.1 h with ⟨hn, hrest⟩
      rcases exists_bindings_importName (t := t) target l n with ⟨b, hb⟩
      rw [List.foldl_cons, ih hrest, hb, List.lookup_cons, beq_false_of_ne (Ne.symm hn)]

end Links

/-- An import binds nothing but the names that it says. -/
theorem mem_boundNames_of_link {i : Import} {own : Links}
    (h : link t roots key Links.empty i = .ok own) : ∀ b ∈ own.bindings, b.1 ∈ i.boundNames := by
  have hnames : ∀ {target : Path} {names : List ImportedName} {star : Bool},
      ∀ b ∈ (Links.empty.importNames t target names star).bindings,
        b.1 ∈ names.map ImportedName.binding := by
    intro target names star b hb
    rw [Links.bindings_importNames] at hb
    rcases Links.foldl_bindings (Links.exists_bindings_importName target) names b hb with hb | hb
    · cases hb
    · exact hb
  cases i with
  | modules path rename =>
      cases h
      intro b hb
      obtain ⟨c, hc⟩ : ∃ c, (Links.empty.importModule t roots path rename).bindings
          = (rename.getD (outermost path), c) :: [] := Links.bindings_importModule path rename
      rw [hc] at hb
      rw [List.mem_singleton.1 hb]
      exact List.mem_singleton_self _
  | names level module names star =>
      cases level with
      | zero =>
          simp only [link] at h
          split at h
          · cases h
            exact hnames
          · cases h
            intro b hb
            rcases Links.foldl_bindings (fun l n => ⟨_, rfl⟩) names b hb with hb | hb
            · cases hb
            · exact hb
      | succ level =>
          simp only [link] at h
          split at h
          · cases h
            exact hnames
          · cases h

/-! ## Several imports -/

theorem linksOf_append (before after : List Import) :
    linksOf t roots key (before ++ after)
      = (linksOf t roots key before).bind fun l => (linksOf t roots key after).map l.append := by
  rw [linksOf, List.foldlM_append]
  refine congrArg (Except.bind _) (funext fun l => ?_)
  have hrest : after.foldlM (link t roots key) (l.append Links.empty)
      = (linksOf t roots key after).map l.append := foldlM_link_append l Links.empty after
  rwa [Links.append_empty] at hrest

theorem linksOf_singleton (i : Import) :
    linksOf t roots key [i] = link t roots key Links.empty i := by
  rw [linksOf, List.foldlM_cons]
  cases link t roots key Links.empty i <;> rfl

theorem linksOf_append_eq_ok {before after : List Import} {links : Links}
    (h : linksOf t roots key (before ++ after) = .ok links) :
    ∃ earlier later, linksOf t roots key before = .ok earlier ∧
      linksOf t roots key after = .ok later ∧ links = earlier.append later := by
  rw [linksOf_append] at h
  cases hbefore : linksOf t roots key before with
  | error e =>
      rw [hbefore] at h
      cases h
  | ok earlier =>
      cases hafter : linksOf t roots key after with
      | error e =>
          rw [hbefore, hafter] at h
          cases h
      | ok later =>
          rw [hbefore, hafter] at h
          cases h
          exact ⟨earlier, later, rfl, rfl, rfl⟩

theorem linksOf_cons_eq_ok {i : Import} {rest : List Import} {links : Links}
    (h : linksOf t roots key (i :: rest) = .ok links) :
    ∃ own later, link t roots key Links.empty i = .ok own ∧ linksOf t roots key rest = .ok later ∧
      links = own.append later := by
  have hsplit : linksOf t roots key ([i] ++ rest) = .ok links := h
  rcases linksOf_append_eq_ok hsplit with ⟨own, later, hown, hlater, heq⟩
  rw [linksOf_singleton] at hown
  exact ⟨own, later, hown, hlater, heq⟩

/-- Every binding comes from one of the imports. -/
theorem exists_import_of_binding {imports : List Import} {links : Links}
    (h : linksOf t roots key imports = .ok links) : ∀ b ∈ links.bindings, ∃ i ∈ imports, ∃ own,
      link t roots key Links.empty i = .ok own ∧ b ∈ own.bindings := by
  induction imports generalizing links with
  | nil =>
      cases h
      intro b hb
      cases hb
  | cons i rest ih =>
      rcases linksOf_cons_eq_ok h with ⟨own, later, hown, hlater, rfl⟩
      intro b hb
      rcases List.mem_append.1 hb with hb | hb
      · rcases ih hlater b hb with ⟨j, hj, hfrom⟩
        exact ⟨j, List.mem_cons_of_mem _ hj, hfrom⟩
      · exact ⟨i, List.mem_cons_self, own, hown, hb⟩

/-- An import decides about a name that later imports bind to nothing else. -/
theorem lookup_linksOf {before after : List Import} {i : Import} {own links : Links} {name : String}
    {b : Binding} (h : linksOf t roots key (before ++ i :: after) = .ok links)
    (hown : link t roots key Links.empty i = .ok own) (hb : own.bindings.lookup name = some b)
    (hlater : ∀ j ∈ after, ∀ other, link t roots key Links.empty j = .ok other →
      ∀ c, (name, c) ∈ other.bindings → c = b) :
    links.bindings.lookup name = some b := by
  rcases linksOf_append_eq_ok h with ⟨earlier, rest, _, hrest, rfl⟩
  rcases linksOf_cons_eq_ok hrest with ⟨first, later, hfirst, hafter, rfl⟩
  rw [hown] at hfirst
  cases hfirst
  have hbindings : (earlier.append (own.append later)).bindings
      = later.bindings ++ (own.bindings ++ earlier.bindings) := List.append_assoc _ _ _
  rw [hbindings, List.lookup_append, List.lookup_append, hb]
  cases hlookup : later.bindings.lookup name with
  | none => rfl
  | some c =>
      rcases exists_import_of_binding hafter _ (mem_of_lookup_eq_some hlookup) with
        ⟨j, hj, other, hother, hmem⟩
      rw [hlater j hj other hother c hmem]
      rfl

/-! ## Modules of a traversal -/

/-- A name that the module defines neither by an assignment nor as a class. -/
structure SourceModule.LeavesImported (m : SourceModule) (name : String) : Prop where
  unassigned : name ∉ m.content.aliases.map Prod.fst
  undeclared : name ∉ m.content.classes.map ClassDecl.name

/-- The module has `import path`, and nothing behind it gives the outermost package another meaning. -/
structure SourceModule.ImportsModule (m : SourceModule) (path : String) : Prop
    extends m.LeavesImported (outermost path) where
  among : ∃ before after, m.content.imports = before ++ .modules path none :: after ∧
    ∀ i ∈ after, outermost path ∈ i.boundNames → ∃ other, i = .modules other none

/-- The module has `from path import name`, and nothing behind it gives the name another meaning. -/
structure SourceModule.ImportsName (m : SourceModule) (path name : String) : Prop
    extends m.LeavesImported name where
  among : ∃ before after front back star,
    m.content.imports
      = before ++ .names 0 (some path) (front ++ ⟨name, none⟩ :: back) star :: after ∧
    (∀ n ∈ back, n.binding ≠ name) ∧ ∀ i ∈ after, name ∉ i.boundNames

section

variable {entry : Path} {units : List SourceModule} {m : SourceModule} {path name : String}

/-- What neither an assignment nor a class defines is what the imports bind. -/
theorem binding?_of_imported (h : traverse t roots entry = .ok units) (hm : m ∈ units)
    (himported : m.LeavesImported name) :
    ∃ links, linksOf t roots m.key m.content.imports = .ok links ∧
      m.binding? name = links.bindings.lookup name := by
  rcases traverse_linked h m hm with ⟨inScope, content, links, _, hlinks, hlinked⟩
  have hcontent : m.content = content := congrArg SourceModule.content hlinked
  have hbindings : m.bindings = ownBindings content ++ links.bindings :=
    congrArg SourceModule.bindings hlinked
  rw [← hcontent] at hlinks hbindings
  refine ⟨links, hlinks, ?_⟩
  have hown : (ownBindings m.content).lookup name = none := by
    refine List.lookup_eq_none_iff.2 fun b hb => bne_iff_ne.2 ?_
    rintro rfl
    rcases List.mem_append.1 (List.mem_reverse.1 hb) with halias | hclass
    · rcases List.mem_map.1 halias with ⟨a, ha, rfl⟩
      exact himported.unassigned (List.mem_map.2 ⟨a, ha, rfl⟩)
    · rcases List.mem_map.1 hclass with ⟨d, hd, rfl⟩
      exact himported.undeclared (List.mem_map.2 ⟨d, hd, rfl⟩)
  rw [SourceModule.binding?, hbindings, List.lookup_append, hown, Option.none_or]

/-- An import of a module binds the outermost package. -/
theorem SourceModule.ImportsModule.binding? (himports : m.ImportsModule path)
    (h : traverse t roots entry = .ok units) (hm : m ∈ units) :
    m.binding? (outermost path)
      = some (Links.moduleOr (findModule? t roots [outermost path]) (outermost path)) := by
  rcases binding?_of_imported h hm himports.toLeavesImported with ⟨links, hlinks, hbinding⟩
  rcases himports.among with ⟨before, after, hamong, hafter⟩
  rw [hamong] at hlinks
  rw [hbinding]
  refine lookup_linksOf hlinks rfl ?_ fun j hj other hother c hc => ?_
  · rw [Links.bindings_importModule_none, List.lookup_cons_self]
  -- Another import of a module binds the name of the package to the same module.
  · have hbound := mem_boundNames_of_link hother _ hc
    rcases hafter j hj hbound with ⟨path', rfl⟩
    cases hother
    rw [Links.bindings_importModule_none] at hc
    have hname : outermost path = outermost path' := List.mem_singleton.1 hbound
    rw [hname]
    exact congrArg Prod.snd (List.mem_singleton.1 hc)

/-- An import of a name from a module binds it to what the module has by this name. -/
theorem SourceModule.ImportsName.binding? {target : Path} (himports : m.ImportsName path name)
    (h : traverse t roots entry = .ok units) (hm : m ∈ units)
    (hfound : findModule? t roots (path.splitOn ".") = some target) :
    m.binding? name = some (namedBinding t target name) := by
  rcases binding?_of_imported h hm himports.toLeavesImported with ⟨links, hlinks, hbinding⟩
  rcases himports.among with ⟨before, after, front, back, star, hamong, hback, hafter⟩
  rw [hamong] at hlinks
  rw [hbinding]
  have hleads : targetOf? t roots m.key 0 (some path) = some target := hfound
  refine lookup_linksOf hlinks (link_names hleads _ _ _) ?_ fun j hj other hother c hc => ?_
  · rw [Links.bindings_importNames, List.foldl_append, List.foldl_cons,
      Links.lookup_foldl_importName hback, Links.bindings_importName, List.lookup_cons_self]
  · exact absurd (mem_boundNames_of_link hother _ hc) (hafter j hj)

end

end Discovery

/-! ## The packages around a module -/

namespace FileTree

variable {t : FileTree}

/-- The way to a place leads through its directory. -/
theorem walk_of_concat {links : Nat} {place : Path} {steps : List String} {name : String} {q : Path}
    (h : t.walk links place (steps ++ [name]) = some q) :
    ∃ directory, t.walk links place steps = some directory ∧
      (t.entry? directory).any Entry.isDirectory = true := by
  fun_induction FileTree.walk t links place steps with
  | case1 links place =>
      rw [List.nil_append, FileTree.walk] at h
      split at h
      · cases h
      · next hdirectory => exact ⟨place, rfl, by simpa using hdirectory⟩
  | case2 links place step rest hnot =>
      rw [List.cons_append, FileTree.walk, if_pos hnot] at h
      cases h
  | case3 links place step rest hdirectory hstays ih =>
      rw [List.cons_append, FileTree.walk, if_neg hdirectory, if_pos hstays] at h
      exact ih h
  | case4 links place rest hdirectory hstays ih =>
      rw [List.cons_append, FileTree.walk, if_neg hdirectory, if_neg hstays, if_pos rfl] at h
      exact ih h
  | case5 links place step rest hdirectory hstays hup hentry =>
      rw [List.cons_append, FileTree.walk, if_neg hdirectory, if_neg hstays, if_neg hup, hentry] at h
      cases h
  | case6 place step rest hdirectory hstays hup target hentry =>
      rw [List.cons_append, FileTree.walk, if_neg hdirectory, if_neg hstays, if_neg hup, hentry] at h
      cases h
  -- The steps of a link come before those that are left.
  | case7 place step rest hdirectory hstays hup target hentry links start more hsteps ih =>
      rw [List.cons_append, FileTree.walk, if_neg hdirectory, if_neg hstays, if_neg hup, hentry] at h
      simp only [hsteps] at h
      rw [← List.append_assoc] at h
      exact ih h
  | case8 links place step rest hdirectory hstays hup e hlink hentry ih =>
      rw [List.cons_append, FileTree.walk, if_neg hdirectory, if_neg hstays, if_neg hup, hentry] at h
      cases e with
      | link target => exact absurd rfl (hlink target)
      | file content => exact ih h
      | directory => exact ih h

theorem isDirectory_of_concat {p : Path} {name : String} {q : Path}
    (h : t.canonical? (p ++ [name]) = some q) : t.isDirectory p = true := by
  rcases walk_of_concat h with ⟨directory, hwalk, hdirectory⟩
  have hplace : t.canonical? p = some directory := hwalk
  rw [isDirectory, resolve?, hplace]
  exact hdirectory

theorem canonical?_of_isFile {p : Path} (h : t.isFile p = true) : ∃ q, t.canonical? p = some q := by
  cases hplace : t.canonical? p with
  | some q => exact ⟨q, rfl⟩
  | none => simp [isFile, resolve?, hplace] at h

theorem canonical?_of_isDirectory {p : Path} (h : t.isDirectory p = true) :
    ∃ q, t.canonical? p = some q := by
  cases hplace : t.canonical? p with
  | some q => exact ⟨q, rfl⟩
  | none => simp [isDirectory, resolve?, hplace] at h

end FileTree

namespace Discovery

variable {t : FileTree} {roots : List Path}

/-- Around a module is a directory, which is a module too. -/
theorem moduleAt?_of_concat {directory : Path} {front : List String} {name : String} {key : Path}
    (h : moduleAt? t directory (front ++ [name]) = some key) :
    ∃ around, moduleAt? t directory front = some around := by
  have hplace : directory ++ (front ++ [name]) = directory ++ front ++ [name] :=
    (List.append_assoc _ _ _).symm
  have hdirectory : t.isDirectory (directory ++ front) = true := by
    unfold moduleAt? at h
    dsimp only at h
    split at h
    · rw [packageFileIn] at h
      rcases FileTree.canonical?_of_isDirectory (FileTree.isDirectory_of_concat h) with ⟨q, hq⟩
      rw [hplace] at hq
      exact FileTree.isDirectory_of_concat hq
    · split at h
      · next file hfile =>
          rw [Option.filter_eq_some_iff, fileFor?, List.getLast?_concat, hplace] at hfile
          cases hfile.1
          simp only [Path.withFileName, List.dropLast_concat] at h
          exact FileTree.isDirectory_of_concat h
      · split at h
        · rw [hplace] at h
          exact FileTree.isDirectory_of_concat h
        · cases h
  unfold moduleAt?
  dsimp only
  split
  · next hpackage => exact FileTree.canonical?_of_isFile hpackage
  · split
    · next file hfile => exact FileTree.canonical?_of_isFile (Option.filter_eq_some_iff.1 hfile).2
    · exact FileTree.canonical?_of_isDirectory hdirectory

/-- The packages around a module that is found are found. -/
theorem findModule?_of_append {front back : List String} {key : Path}
    (h : findModule? t roots (front ++ back) = some key) (hfront : front ≠ []) :
    ∃ around, findModule? t roots front = some around := by
  induction back using List.reverseRecOn generalizing key with
  | nil => exact ⟨key, by rwa [List.append_nil] at h⟩
  | append_singleton back name ih =>
      have hne : front ++ back ≠ [] := fun hnil => hfront (List.append_eq_nil_iff.1 hnil).1
      rw [← List.append_assoc, findModule?, if_neg (by simp)] at h
      rcases List.exists_of_findSome?_eq_some h with ⟨root, hroot, hmodule⟩
      rcases moduleAt?_of_concat hmodule with ⟨around, haround⟩
      have hsome : (roots.findSome? fun root => moduleAt? t root (front ++ back)).isSome := by
        rw [List.findSome?_isSome_iff]
        exact ⟨root, hroot, by rw [haround]; rfl⟩
      rcases Option.isSome_iff_exists.1 hsome with ⟨found, hfound⟩
      have hinner : findModule? t roots (front ++ back) = some found := by
        rwa [findModule?, if_neg (by simpa using hne)]
      exact ih hinner

end Discovery

end WireTypes
