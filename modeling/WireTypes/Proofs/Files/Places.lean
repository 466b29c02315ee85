import WireTypes.Discovery.Layout

/-!
# Places — what is found is reached without links

A place without links is found step by step from the root, and every step is looked up in the tree.

- `FileTree.Direct`: the places that are reached in this way, which are paths of the tree;
- `FileTree.canonical?_direct`, `Direct.canonical?`: a path leads to such a place, and such a place leads
  to itself;
- `moduleAt?_direct`, `findModule?_direct`, `submodules_direct`: a module that is found or listed is one.
-/

namespace WireTypes

namespace FileTree

variable {t : FileTree}

theorem mem_paths_of_entry? {p : Path} {e : Entry} (h : t.entry? p = some e) : p ∈ t.paths := by
  unfold entry? at h
  by_cases hp : p = []
  · rw [hp]
    exact List.mem_cons_self
  · rw [if_neg hp] at h
    cases hfind : t.entries.find? (·.1 = p) with
    | none => simp [hfind] at h
    | some found =>
        have hname : found.1 = p := by simpa using List.find?_some hfind
        refine List.mem_cons_of_mem _ (List.mem_map.2 ⟨found, ?_, hname⟩)
        exact List.mem_of_find?_eq_some hfind

/-- The place is reached from the root through directories, by names that are no links and lead nowhere
else. -/
inductive Direct (t : FileTree) : Path → Prop
  | root : Direct t []
  | step {p : Path} {name : String} {e : Entry} :
      Direct t p → (t.entry? p).any Entry.isDirectory = true → staysHere name = false → name ≠ ".." →
      t.entry? (p ++ [name]) = some e → (∀ target, e ≠ .link target) → Direct t (p ++ [name])

namespace Direct

variable {p : Path}

theorem mem (h : t.Direct p) : p ∈ t.paths := by
  cases h with
  | root => exact List.mem_cons_self
  | step _ _ _ _ hentry _ => exact mem_paths_of_entry? hentry

theorem dropLast (h : t.Direct p) : t.Direct p.dropLast := by
  cases h with
  | root => exact .root
  | step hp _ _ _ _ _ => rwa [List.dropLast_concat]

theorem stepsFrom (h : t.Direct p) (text : String) : t.Direct (FileTree.stepsFrom p text).1 := by
  unfold FileTree.stepsFrom
  by_cases habsolute : Path.isAbsoluteText text
  · simp only [habsolute, if_true]
    exact .root
  · simp only [habsolute]
    exact h

theorem walk (links : Nat) (place : Path) (steps : List String) (h : t.Direct place)
    (hwalk : t.walk links place steps = some p) : t.Direct p := by
  fun_induction FileTree.walk t links place steps with
  | case1 => exact Option.some.inj hwalk ▸ h
  | case3 _ _ _ _ _ _ ih => exact ih h hwalk
  | case4 _ _ _ _ _ ih => exact ih h.dropLast hwalk
  -- A link leads on from the directory that holds it, or from the root.
  | case7 place _ _ _ _ _ target _ _ start more hsteps ih =>
      refine ih ?_ hwalk
      have hstart := h.stepsFrom target
      rwa [hsteps] at hstart
  | case8 links place step rest hdir hstays hup e hlink hentry ih =>
      exact ih (h.step (by simpa using hdir) (by simpa using hstays) hup hentry hlink) hwalk
  | _ => cases hwalk

/-- Walking there takes no link. -/
theorem walk_append (h : t.Direct p) (links : Nat) (rest : List String) :
    t.walk links [] (p ++ rest) = t.walk links p rest := by
  induction h generalizing rest with
  | root => rfl
  | @step p name e _ hdir hstays hup hentry hlink ih =>
      rw [List.append_assoc, ih, List.singleton_append, FileTree.walk]
      cases e with
      | link target => exact absurd rfl (hlink target)
      | file content => simp [hdir, hstays, hup, hentry]
      | directory => simp [hdir, hstays, hup, hentry]

end Direct

theorem canonical?_direct {p q : Path} (h : t.canonical? p = some q) : t.Direct q :=
  Direct.walk linkLimit [] p .root h

/-- A place without links is where it leads. -/
theorem Direct.canonical? {p : Path} (h : t.Direct p) : t.canonical? p = some p := by
  have hwalk := h.walk_append linkLimit []
  rwa [List.append_nil, FileTree.walk] at hwalk

end FileTree

namespace Discovery

variable {t : FileTree}

theorem moduleAt?_direct {directory : Path} {segments : List String} {key : Path}
    (h : moduleAt? t directory segments = some key) : t.Direct key := by
  unfold moduleAt? at h
  -- A package comes before a file of the same name, and both before a directory without a package file.
  by_cases hpackage : t.isFile (packageFileIn (directory ++ segments)) = true
  · simp only [hpackage, if_true] at h
    exact FileTree.canonical?_direct h
  · simp only [hpackage] at h
    cases hfile : (fileFor? directory segments).filter t.isFile with
    | some file =>
        rw [hfile] at h
        exact FileTree.canonical?_direct h
    | none =>
        rw [hfile] at h
        by_cases hdirectory : t.isDirectory (directory ++ segments) = true
        · simp only [hdirectory, if_true] at h
          exact FileTree.canonical?_direct h
        · simp [hdirectory] at h

theorem findModule?_direct {roots : List Path} {segments : List String} {key : Path}
    (h : findModule? t roots segments = some key) : t.Direct key := by
  unfold findModule? at h
  split at h
  · cases h
  · rcases List.exists_of_findSome?_eq_some h with ⟨root, _, hroot⟩
    exact moduleAt?_direct hroot

theorem childKey?_direct {directory : Path} {name : String} {entry : FileTree.Entry} {key : Path}
    (h : childKey? t directory name entry = some key) : t.Direct key := by
  simp only [childKey?] at h
  split at h
  · cases h
  -- A directory is listed by its package file, and a file by itself.
  · split at h
    · split at h
      · exact FileTree.canonical?_direct h
      · cases h
    · split at h
      · exact FileTree.canonical?_direct h
      · cases h

theorem submodules_direct {key place : Path} (h : place ∈ submodules t key) : t.Direct place := by
  unfold submodules at h
  split at h
  · rcases List.mem_filterMap.1 h with ⟨⟨name, entry⟩, _, hchild⟩
    exact childKey?_direct hchild
  · cases h

end Discovery

end WireTypes
