import WireTypes.Proofs.Files.Writing
import WireTypes.Proofs.Schema.Namespace
import WireTypes.Proofs.Text.Segments

/-!
# Scratch — a generator cleans up after itself

A command renders in a directory that was not there before, and the directory is removed however the command
ends.

- `freshDirectory_free`: nothing stands at a fresh directory or below it;
- `Programs.stepsOf_schemaFile`: a command can tell the directory from the argument that it is given;
- `Programs.Confines`: a command writes nothing outside the directory of the schema;
- `renderIn_same`: then the tree is the same after a run, whether or not the run gave a text;
- `Generator.Tidy`, `Programs.generator_tidy`: so such a command is a generator that leaves nothing behind.
-/

namespace WireTypes

/-! ## Paths as texts -/

namespace Path

theorem toList_display : ∀ {p : Path}, p ≠ [] →
    p.display.toList = ['/'].intercalate ([] :: p.map String.toList)
  | [], h => absurd rfl h
  | [name], _ => by simp [display, List.intercalate]
  | name :: next :: rest, _ => by
      have hrest := toList_display (List.cons_ne_nil next rest)
      simp only [display, List.intercalate, List.map_cons, String.toList_join] at hrest ⊢
      simp [hrest]

/-- A path without slashes in its names is read again from its text. -/
theorem stepsOf_display {p : Path} (hnames : ∀ name ∈ p, '/' ∉ name.toList) (hne : p ≠ []) :
    stepsOf p.display = "" :: p := by
  have hparts : ∀ part ∈ [] :: p.map String.toList, '/' ∉ part := by
    intro part hpart
    rcases List.mem_cons.1 hpart with rfl | hpart
    · exact List.not_mem_nil
    · rcases List.mem_map.1 hpart with ⟨name, hname, rfl⟩
      exact hnames name hname
  rw [stepsOf, Text.splitOn_slash, toList_display hne,
    List.splitOn_intercalate '/' hparts (List.cons_ne_nil _ _)]
  simp [Function.comp_def]

end Path

namespace FileTree

/-! ## Fresh directories -/

variable {t : FileTree} {p : Path} {e : Entry}

/-- The names that are tried. -/
def scratchName (n : Nat) : Path := temporaryDirectory ++ [Schema.numbered "typebridge-" n]

theorem scratchName_injective {m n : Nat} (h : scratchName m = scratchName n) : m = n :=
  Schema.numbered_injective (List.singleton_inj.1 (List.append_cancel_left h))

theorem scratchName_of_prefix {n : Nat} (h : scratchName n <+: p) : p.take 2 = scratchName n :=
  (List.prefix_iff_eq_take.1 h).symm

/-- There are more names than entries, so that one of them is free. -/
theorem exists_free (t : FileTree) :
    ∃ n ∈ List.range (t.entries.length + 1), ∀ e ∈ t.entries, ¬ scratchName n <+: e.1 := by
  by_contra hnone
  have htaken : ∀ p ∈ (List.range (t.entries.length + 1)).map scratchName,
      p ∈ t.entries.map fun e => e.1.take 2 := by
    intro p hp
    rcases List.mem_map.1 hp with ⟨n, hn, rfl⟩
    by_contra hfree
    refine hnone ⟨n, hn, fun e he hprefix => hfree ?_⟩
    exact List.mem_map.2 ⟨e, he, scratchName_of_prefix hprefix⟩
  have hdistinct : ((List.range (t.entries.length + 1)).map scratchName).Nodup :=
    List.Nodup.map (fun _ _ h => scratchName_injective h) List.nodup_range
  have hlength := (hdistinct.subperm htaken).length_le
  simp only [List.length_map, List.length_range] at hlength
  omega

theorem freshDirectory_eq (t : FileTree) : t.freshDirectory =
    (((List.range (t.entries.length + 1)).map scratchName).find?
      fun p => t.entries.all fun e => !p.isPrefixOf e.1).getD (scratchName t.entries.length) := rfl

/-- A fresh directory has one of the names that are tried, and this one is free. -/
theorem exists_scratchName (t : FileTree) :
    ∃ n, t.freshDirectory = scratchName n ∧ ∀ e ∈ t.entries, ¬ scratchName n <+: e.1 := by
  rw [freshDirectory_eq]
  cases hfound : ((List.range (t.entries.length + 1)).map scratchName).find?
      fun p => t.entries.all fun e => !p.isPrefixOf e.1 with
  | none =>
      rcases t.exists_free with ⟨n, hn, hfree⟩
      have htaken := List.find?_eq_none.1 hfound _ (List.mem_map_of_mem hn)
      refine absurd (List.all_eq_true.2 fun e he => ?_) htaken
      have hnot : (scratchName n).isPrefixOf e.1 = false :=
        Bool.eq_false_iff.2 fun h => hfree e he (List.isPrefixOf_iff_prefix.1 h)
      simp [hnot]
  | some p =>
      rcases List.mem_map.1 (List.mem_of_find?_eq_some hfound) with ⟨n, _, rfl⟩
      refine ⟨n, rfl, fun e he hprefix => ?_⟩
      have hall := List.find?_some hfound
      have hfree := List.all_eq_true.1 hall e he
      have hisPrefix : (scratchName n).isPrefixOf e.1 = true :=
        List.isPrefixOf_iff_prefix.2 hprefix
      simp [hisPrefix] at hfree

theorem freshDirectory_spec (t : FileTree) :
    t.freshDirectory ≠ [] ∧ ∀ e ∈ t.entries, ¬ t.freshDirectory <+: e.1 := by
  rcases t.exists_scratchName with ⟨n, hn, hfree⟩
  rw [hn]
  exact ⟨List.concat_ne_nil _ _, hfree⟩

/-- Nothing stands at a fresh directory or below it. -/
theorem freshDirectory_free (h : t.freshDirectory <+: p) : t.entry? p = none := by
  rcases t.freshDirectory_spec with ⟨hne, hfree⟩
  have hp : p ≠ [] := by
    rintro rfl
    exact hne (List.prefix_nil.1 h)
  have hnone : t.entries.find? (·.1 = p) = none := by
    apply List.find?_eq_none.2
    intro e he hplace
    have heq : e.1 = p := by simpa using hplace
    exact hfree e he (heq ▸ h)
  rw [entry_of_ne hp, hnone]
  rfl

/-- A directory that was free is removed without a trace, with all that was changed below it. -/
theorem remove_same {t' : FileTree} (h : ChangesOnly (t.freshDirectory <+: ·) t t') :
    t.Same (t'.remove t.freshDirectory) := by
  refine ⟨h.workingDirectory, fun p _ => ?_⟩
  rw [entry_remove t.freshDirectory_spec.1]
  by_cases hprefix : t.freshDirectory <+: p
  · rw [if_pos hprefix, freshDirectory_free hprefix]
  · rw [if_neg hprefix]
    exact h.entries p hprefix

end FileTree

open FileTree

/-! ## Runs -/

/-- The text that a command prints is given if the command ends well. -/
theorem GeneratorCommand.interpret_text (c : GeneratorCommand) (limit : Option Milliseconds)
    (t : FileTree) (text : String) (err : ByteArray) :
    c.interpret limit (.ok ⟨t, .ended (.exited 0), text.toUTF8, err⟩) = .ok text := by
  have hdecoded : String.fromUTF8? text.toUTF8 = some text := dif_pos text.isValidUTF8
  have hended : (ExitStatus.exited 0).isSuccess = true := rfl
  simp only [interpret, hended, if_true, hdecoded]

namespace Programs

variable {ps : Programs} {c : GeneratorCommand} {limit : Option Milliseconds}

/-- The text of the place of the schema leads there from the root. -/
theorem stepsOf_schemaFile (t : FileTree) :
    Path.stepsOf (schemaFileIn t.freshDirectory).display = "" :: schemaFileIn t.freshDirectory := by
  rcases t.exists_scratchName with ⟨n, hn, _⟩
  refine Path.stepsOf_display ?_ (List.concat_ne_nil _ _)
  have hnumber : '/' ∉ (Schema.numbered "typebridge-" n).toList := by
    rw [Schema.numbered_toList]
    intro hslash
    rcases List.mem_append.1 hslash with hfixed | hdigit
    · exact absurd hfixed (by decide)
    · exact absurd (Nat.isDigit_of_mem_toDigits (by decide) (by decide) hdigit) (by decide)
  intro name hname
  simp only [schemaFileIn, hn, scratchName, temporaryDirectory, List.mem_append,
    List.mem_singleton] at hname
  rcases hname with (rfl | rfl) | rfl
  · decide
  · exact hnumber
  · decide

/-- The command writes nothing outside the directory of the schema that it is given. -/
def Confines (ps : Programs) (c : GeneratorCommand) : Prop :=
  ∀ limit t d r, ps.runOn c limit t d = .ok r →
    ChangesOnly (t.freshDirectory <+: ·) (prepare t d) r.tree

theorem prepare_changesOnly (t : FileTree) (d : Schema.Document) :
    ChangesOnly (t.freshDirectory <+: ·) t (prepare t d) := by
  have hdirectory : ChangesOnly (t.freshDirectory <+: ·) t (t.put t.freshDirectory .directory) :=
    (put_changesOnly t.freshDirectory_spec.1).mono fun p hp => hp ▸ List.prefix_refl _
  refine hdirectory.trans ((put_changesOnly (List.concat_ne_nil _ _)).mono ?_)
  rintro p rfl
  exact List.prefix_append _ _

/-- However a run ends, the tree is the same afterwards. -/
theorem renderIn_same (h : ps.Confines c) (t : FileTree) (d : Schema.Document) :
    t.Same (ps.renderIn c limit t d).2 := by
  unfold renderIn
  cases hrun : ps.runOn c limit t d with
  | error failure => exact remove_same (prepare_changesOnly t d)
  | ok r => exact remove_same ((prepare_changesOnly t d).trans (h limit t d r hrun))

end Programs

/-! ## Generators -/

/-- Asking a generator changes nothing, and neither does rendering in the end. -/
structure Generator.Tidy (g : Generator (StateM FileTree)) : Prop where
  check : ∀ t, (g.check t).2 = t
  render : ∀ d (t : FileTree), t.Same (g.render d t).2

theorem Programs.generator_tidy {ps : Programs} {c : GeneratorCommand} (h : ps.Confines c)
    (limit : Option Milliseconds) : (ps.generator c limit).Tidy := by
  refine ⟨fun _ => rfl, fun d t => ?_⟩
  change t.Same (ps.render c limit d t).2
  unfold Programs.render
  cases ps.check c with
  | error e => exact ChangesOnly.refl t
  | ok _ =>
      by_cases hplace : t.isDirectory temporaryDirectory = true
      · simp only [hplace, if_true]
        exact Programs.renderIn_same h t d
      · simp only [hplace]
        exact ChangesOnly.refl t

end WireTypes
