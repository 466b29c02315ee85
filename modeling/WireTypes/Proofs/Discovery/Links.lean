import WireTypes.Discovery.SourceModule

/-!
# Links — what each import adds

Every import adds its links to those of the imports before it, whatever these are: the links of a list
of imports are put together from those of its parts.

- `Links.append` puts the links of later imports behind those of earlier ones;
- `linksOf_cons`: the links around one import of a list;
- `lookup_importNames`: what an import of names binds.
-/

namespace WireTypes
namespace Discovery

namespace Links

/-- The links of earlier imports and of later ones. Later bindings come first. -/
def append (l more : Links) : Links :=
  ⟨more.bindings ++ l.bindings, l.stars ++ more.stars, l.edges ++ more.edges⟩

variable {l more : Links} {t : FileTree} {roots : List Path}

@[simp] theorem append_empty (l : Links) : l.append empty = l := by
  simp [append, empty]

theorem append_assoc (l₁ l₂ l₃ : Links) :
    (l₁.append l₂).append l₃ = l₁.append (l₂.append l₃) := by
  simp [append]

theorem bind_append (name : String) (b : Binding) :
    (l.append more).bind name b = l.append (more.bind name b) := rfl

theorem needs_append (target : Path) : (l.append more).needs target = l.append (more.needs target) := by
  simp [append, needs]

theorem needsAll_append (targets : List Path) :
    (l.append more).needsAll targets = l.append (more.needsAll targets) := by
  induction targets generalizing more with
  | nil => rfl
  | cons target rest ih =>
      calc (l.append more).needsAll (target :: rest)
          = ((l.append more).needs target).needsAll rest := rfl
        _ = (l.append (more.needs target)).needsAll rest := by rw [needs_append]
        _ = l.append (more.needsAll (target :: rest)) := ih

theorem importModule_append (name : String) (rename : Option String) :
    (l.append more).importModule t roots name rename
      = l.append (more.importModule t roots name rename) := by
  cases rename <;> simp only [importModule, needsAll_append, bind_append]

theorem importName_append (target : Path) (n : Python.ImportedName) :
    importName t target (l.append more) n = l.append (importName t target more n) := by
  unfold importName
  split
  · rw [needs_append, bind_append]
  · rw [bind_append]

theorem foldl_append {α : Type} {f : Links → α → Links}
    (h : ∀ (l more : Links) (a : α), f (l.append more) a = l.append (f more a)) (as : List α) :
    as.foldl f (l.append more) = l.append (as.foldl f more) := by
  induction as generalizing more with
  | nil => rfl
  | cons a rest ih => rw [List.foldl_cons, List.foldl_cons, h, ih]

theorem importNames_append (target : Path) (names : List Python.ImportedName) (star : Bool) :
    (l.append more).importNames t target names star
      = l.append (more.importNames t target names star) := by
  have fold : names.foldl (importName t target) ((l.append more).needs target)
      = l.append (names.foldl (importName t target) (more.needs target)) := by
    rw [needs_append, foldl_append fun _ _ n => importName_append target n]
  cases star with
  | false => simpa [importNames] using fold
  | true =>
      simp only [importNames, fold]
      simp [append]

theorem importExternal_append (target : String) (names : List Python.ImportedName) :
    (l.append more).importExternal target names = l.append (more.importExternal target names) :=
  foldl_append (fun _ _ _ => rfl) names

end Links

variable {t : FileTree} {roots : List Path} {key : Path}

/-- An import adds the same links whatever stands before it, and fails whatever stands before it. -/
theorem link_append (l more : Links) (i : Python.Import) :
    link t roots key (l.append more) i = (link t roots key more i).map l.append := by
  cases i with
  | modules name rename => exact congrArg Except.ok (Links.importModule_append name rename)
  | names level name names star =>
      cases level with
      | zero =>
          simp only [link]
          split
          · exact congrArg Except.ok (Links.importNames_append _ _ _)
          · exact congrArg Except.ok (Links.importExternal_append _ _)
      | succ level =>
          simp only [link]
          split
          · exact congrArg Except.ok (Links.importNames_append _ _ _)
          · rfl

/-- The links of a list of imports. -/
def linksOf (t : FileTree) (roots : List Path) (key : Path) (imports : List Python.Import) :
    Except LoadError Links :=
  imports.foldlM (link t roots key) Links.empty

theorem foldlM_link_append (l more : Links) (imports : List Python.Import) :
    imports.foldlM (link t roots key) (l.append more)
      = (imports.foldlM (link t roots key) more).map l.append := by
  induction imports generalizing more with
  | nil => rfl
  | cons i rest ih =>
      rw [List.foldlM_cons, List.foldlM_cons, link_append]
      cases link t roots key more i with
      | error e => rfl
      | ok next => exact ih next

/-- The links of a list of imports are those before an import, its own and those behind it. -/
theorem linksOf_cons {earlier own later : Links} {before after : List Python.Import}
    {i : Python.Import} (hbefore : linksOf t roots key before = .ok earlier)
    (hown : link t roots key Links.empty i = .ok own)
    (hafter : linksOf t roots key after = .ok later) :
    linksOf t roots key (before ++ i :: after) = .ok (earlier.append (own.append later)) := by
  have last : after.foldlM (link t roots key) (earlier.append own)
      = .ok (earlier.append (own.append later)) := by
    have rest : after.foldlM (link t roots key) Links.empty = .ok later := hafter
    calc after.foldlM (link t roots key) (earlier.append own)
        = after.foldlM (link t roots key) ((earlier.append own).append Links.empty) := by
          rw [Links.append_empty]
      _ = .ok ((earlier.append own).append later) := by
          rw [foldlM_link_append, rest]
          rfl
      _ = .ok (earlier.append (own.append later)) := by rw [Links.append_assoc]
  have first : link t roots key earlier i = .ok (earlier.append own) := by
    calc link t roots key earlier i
        = link t roots key (earlier.append Links.empty) i := by rw [Links.append_empty]
      _ = .ok (earlier.append own) := by
          rw [link_append, hown]
          rfl
  have start : before.foldlM (link t roots key) Links.empty = .ok earlier := hbefore
  rw [linksOf, List.foldlM_append, start]
  change (i :: after).foldlM (link t roots key) earlier = _
  rw [List.foldlM_cons, first]
  exact last

/-! ## Imports of names -/

/-- The module of the tree that `from ... import` leads to. -/
def targetOf? (t : FileTree) (roots : List Path) (key : Path) (level : Nat) (name : Option String) :
    Option Path :=
  match level with
  | 0 => findModule? t roots (segmentsOf name)
  | level + 1 =>
      (relativeBase? t key (level + 1)).bind fun base => moduleAt? t base (segmentsOf name)

theorem link_names {target : Path} {level : Nat} {name : Option String}
    (leads : targetOf? t roots key level name = some target) (l : Links)
    (names : List Python.ImportedName) (star : Bool) :
    link t roots key l (.names level name names star) = .ok (l.importNames t target names star) := by
  cases level with
  | zero =>
      have found : findModule? t roots (segmentsOf name) = some target := leads
      simp only [link, found]
  | succ level =>
      have found : ((relativeBase? t key (level + 1)).bind fun base =>
          moduleAt? t base (segmentsOf name)) = some target := leads
      simp only [link, found]

/-- What a name is bound to that is imported from a module: its submodule, else its own name. -/
def namedBinding (t : FileTree) (target : Path) (name : String) : Binding :=
  match (packageDirectory? t target).bind fun directory => moduleAt? t directory [name] with
  | some submodule => .module submodule
  | none => .imported target name

/-- Imported names under their own names. -/
def plainNames (names : List String) : List Python.ImportedName :=
  names.map fun name => ⟨name, none⟩

namespace Links

theorem bindings_importName (target : Path) (l : Links) (name : String) :
    (importName t target l ⟨name, none⟩).bindings
      = (name, namedBinding t target name) :: l.bindings := by
  rw [importName, namedBinding]
  cases (packageDirectory? t target).bind fun directory => moduleAt? t directory [name] <;> rfl

theorem stars_importName (target : Path) (l : Links) (n : Python.ImportedName) :
    (importName t target l n).stars = l.stars := by
  unfold importName
  split <;> rfl

theorem stars_importNames (target : Path) (names : List Python.ImportedName) (star : Bool) :
    (empty.importNames t target names star).stars = if star then [target] else [] := by
  have fold (l : Links) : (names.foldl (importName t target) l).stars = l.stars := by
    induction names generalizing l with
    | nil => rfl
    | cons n rest ih => rw [List.foldl_cons, ih, stars_importName]
  have none : (names.foldl (importName t target) (empty.needs target)).stars = [] := fold _
  cases star with
  | false => exact none
  | true => simp [importNames, none]

/-- An import of names binds each of them to what it stands for in its module. -/
theorem lookup_importNames (target : Path) (names : List String) (name : String) :
    (empty.importNames t target (plainNames names) false).bindings.lookup name
      = if name ∈ names then some (namedBinding t target name) else none := by
  have fold (l : Links) :
      ((plainNames names).foldl (importName t target) l).bindings.lookup name
        = if name ∈ names then some (namedBinding t target name) else l.bindings.lookup name := by
    induction names generalizing l with
    | nil => rfl
    | cons first rest ih =>
        have step : (plainNames (first :: rest)).foldl (importName t target) l
            = (plainNames rest).foldl (importName t target) (importName t target l ⟨first, none⟩) :=
          rfl
        rw [step, ih, bindings_importName]
        by_cases later : name ∈ rest
        · simp [later]
        · by_cases same : name = first
          · simp [same]
          · have differs : (name == first) = false := by simpa using same
            simp [later, same, List.lookup_cons, differs]
  exact fold (empty.needs target)

theorem bindings_importNames_star (target : Path) :
    (empty.importNames t target [] true).bindings = [] := rfl

end Links

end Discovery
end WireTypes
