import Mathlib
import WireTypes.Settings.Load

/-!
# Layers — the last one that sets a key decides

Settings are put on top of each other key by key, and what a run does is decided key by key as well.

- `Key`, `get`: settings as the values of their keys;
- `get_merge`, `ext_get`: all laws of layers are laws of options;
- `get_mergeAll_eq_some_iff`: the last layer that sets a key decides, in any list of layers;
- `plan_eq_ok_iff`: each key decides one option of a run, and has a standard value if it is unset;
- `load_eq_mergeAll`: the files of a run are such a list of layers.
-/

namespace WireTypes
namespace Settings

/-! ## Keys -/

inductive Key
  | module
  | output
  | exclude
  | generator
  | roots
  | nullable
  | draft
  | toCamel
  | unreachable
  | forbidExtra
  | aggregatorName
  | timeout
  deriving DecidableEq, Repr

/-- What a key holds. -/
abbrev Key.Value : Key → Type
  | .module | .output | .generator | .aggregatorName => String
  | .exclude | .roots => List String
  | .nullable => Schema.NullableStyle
  | .draft => Schema.Draft
  | .toCamel | .unreachable | .forbidExtra => Bool
  | .timeout => Nat

/-- The value of a key, if it is set. -/
def get (s : Settings) : (k : Key) → Option k.Value
  | .module => s.module
  | .output => s.output
  | .exclude => s.exclude
  | .generator => s.generator
  | .roots => s.roots
  | .nullable => s.nullable
  | .draft => s.draft
  | .toCamel => s.toCamel
  | .unreachable => s.unreachable
  | .forbidExtra => s.forbidExtra
  | .aggregatorName => s.aggregatorName
  | .timeout => s.timeout

/-- Settings are nothing but the values of their keys. -/
theorem ext_get {s s' : Settings} (h : ∀ k, s.get k = s'.get k) : s = s' := by
  cases s
  cases s'
  simp only [mk.injEq]
  exact ⟨h .module, h .output, h .exclude, h .generator, h .roots, h .nullable, h .draft, h .toCamel,
    h .unreachable, h .forbidExtra, h .aggregatorName, h .timeout⟩

@[simp]
theorem get_none (k : Key) : Settings.none.get k = Option.none := by cases k <;> rfl

@[simp]
theorem get_merge (lower upper : Settings) (k : Key) :
    (lower.merge upper).get k = (upper.get k).or (lower.get k) := by
  cases k <;> exact Option.orElse_eq_or

/-- The settings with one key. -/
def single : (k : Key) → k.Value → Settings
  | .module, v => { Settings.none with module := some v }
  | .output, v => { Settings.none with output := some v }
  | .exclude, v => { Settings.none with exclude := some v }
  | .generator, v => { Settings.none with generator := some v }
  | .roots, v => { Settings.none with roots := some v }
  | .nullable, v => { Settings.none with nullable := some v }
  | .draft, v => { Settings.none with draft := some v }
  | .toCamel, v => { Settings.none with toCamel := some v }
  | .unreachable, v => { Settings.none with unreachable := some v }
  | .forbidExtra, v => { Settings.none with forbidExtra := some v }
  | .aggregatorName, v => { Settings.none with aggregatorName := some v }
  | .timeout, v => { Settings.none with timeout := some v }

@[simp]
theorem get_single (k : Key) (v : k.Value) : (single k v).get k = some v := by cases k <;> rfl

theorem get_single_of_ne {k k' : Key} (v : k.Value) (h : k' ≠ k) :
    (single k v).get k' = Option.none := by
  cases k <;> cases k' <;> first | rfl | exact absurd rfl h

/-! ## Laws -/

theorem none_merge (s : Settings) : Settings.none.merge s = s := ext_get fun k => by simp

theorem merge_none (s : Settings) : s.merge Settings.none = s := ext_get fun k => by simp

theorem merge_assoc (s₁ s₂ s₃ : Settings) : (s₁.merge s₂).merge s₃ = s₁.merge (s₂.merge s₃) :=
  ext_get fun k => by simp [Option.or_assoc]

/-! ## Any number of layers -/

/-- Layers on top of each other, the lowest one first. -/
def mergeAll (layers : List Settings) : Settings := layers.foldl merge Settings.none

theorem mergeAll_concat (layers : List Settings) (top : Settings) :
    mergeAll (layers ++ [top]) = (mergeAll layers).merge top := by
  simp [mergeAll]

theorem get_mergeAll (layers : List Settings) (k : Key) :
    (mergeAll layers).get k = layers.reverse.findSome? (·.get k) := by
  induction layers using List.reverseRecOn with
  | nil => exact get_none k
  | append_singleton lower top ih =>
      rw [mergeAll_concat, get_merge, ih, List.reverse_concat, List.findSome?_cons]
      cases top.get k <;> rfl

/-- A layer gives a key its value, and no later one sets the key. -/
def Decides (layers : List Settings) (k : Key) (v : k.Value) : Prop :=
  ∃ before layer after, layers = before ++ layer :: after ∧ layer.get k = some v ∧
    ∀ later ∈ after, later.get k = Option.none

theorem get_mergeAll_eq_some_iff {layers : List Settings} {k : Key} {v : k.Value} :
    (mergeAll layers).get k = some v ↔ Decides layers k v := by
  rw [get_mergeAll, List.findSome?_eq_some_iff]
  constructor
  · rintro ⟨after, layer, before, hlayers, hlayer, hafter⟩
    refine ⟨before.reverse, layer, after.reverse, ?_, hlayer, ?_⟩
    · rw [← List.reverse_eq_iff.2 hlayers.symm]
      simp
    · exact fun later hlater => hafter later (List.mem_reverse.1 hlater)
  · rintro ⟨before, layer, after, rfl, hlayer, hafter⟩
    refine ⟨after.reverse, layer, before.reverse, by simp, hlayer, ?_⟩
    exact fun later hlater => hafter later (List.mem_reverse.1 hlater)

/-- No layer sets the key. -/
def Unset (layers : List Settings) (k : Key) : Prop := ∀ layer ∈ layers, layer.get k = Option.none

theorem get_mergeAll_eq_none_iff {layers : List Settings} {k : Key} :
    (mergeAll layers).get k = Option.none ↔ Unset layers k := by
  rw [get_mergeAll, List.findSome?_eq_none_iff]
  simp only [List.mem_reverse, Unset]

/-! ## Runs -/

/-- What a run does for a key that no layer sets. Without an entry module and an output there is no run,
and without a timeout there is no bound. -/
def Key.standard : (k : Key) → Option k.Value
  | .module | .output | .timeout => Option.none
  | .exclude | .roots => some []
  | .generator => some "json2ts"
  | .nullable => some .union
  | .draft => some .draft2020
  | .toCamel | .unreachable => some false
  | .forbidExtra => some true
  | .aggregatorName => some "_Aggregate_"

end Settings

open Settings

namespace Plan

/-- The option of a run that belongs to a key. -/
def option (p : Plan) : (k : Key) → Option k.Value
  | .module => some p.task.entry
  | .output => some p.output
  | .exclude => some p.task.excluded
  | .generator => some p.command
  | .roots => some p.task.roots
  | .nullable => some p.task.schema.nullable
  | .draft => some p.task.schema.draft
  | .toCamel => some p.task.schema.toCamel
  | .unreachable => some (p.task.schema.inclusion == .unreachable)
  | .forbidExtra => some p.task.schema.forbidUnlessAllowed
  | .aggregatorName => some p.task.schema.aggregatorName
  | .timeout => p.timeout

theorem inclusion_eq_of_beq {i j : Schema.Inclusion} (h : (i == .unreachable) = (j == .unreachable)) :
    i = j := by
  cases i <;> cases j <;> first | rfl | cases h

/-- A run is nothing but its options. -/
theorem ext_option {p q : Plan} (h : ∀ k, p.option k = q.option k) : p = q := by
  obtain ⟨⟨entry, roots, excluded, nullable, draft, toCamel, forbid, inclusion, name⟩, command, timeout,
    output⟩ := p
  obtain ⟨⟨entry', roots', excluded', nullable', draft', toCamel', forbid', inclusion', name'⟩, command',
    timeout', output'⟩ := q
  obtain rfl : entry = entry' := Option.some.inj (h .module)
  obtain rfl : roots = roots' := Option.some.inj (h .roots)
  obtain rfl : excluded = excluded' := Option.some.inj (h .exclude)
  obtain rfl : nullable = nullable' := Option.some.inj (h .nullable)
  obtain rfl : draft = draft' := Option.some.inj (h .draft)
  obtain rfl : toCamel = toCamel' := Option.some.inj (h .toCamel)
  obtain rfl : forbid = forbid' := Option.some.inj (h .forbidExtra)
  obtain rfl : inclusion = inclusion' := inclusion_eq_of_beq (Option.some.inj (h .unreachable))
  obtain rfl : name = name' := Option.some.inj (h .aggregatorName)
  obtain rfl : command = command' := Option.some.inj (h .generator)
  obtain rfl : timeout = timeout' := h .timeout
  obtain rfl : output = output' := Option.some.inj (h .output)
  rfl

end Plan

namespace Settings

variable {s : Settings}

/-- With an entry module and an output, there is a run, and each of its options is that of its key. -/
theorem exists_plan {entry output : String} (hmodule : s.module = some entry)
    (houtput : s.output = some output) :
    ∃ p, s.plan = .ok p ∧ ∀ k, p.option k = (s.get k).or k.standard := by
  refine ⟨_, by rw [plan, hmodule, houtput], fun k => ?_⟩
  cases k with
  | module => simp [Plan.option, get, hmodule]
  | output => simp [Plan.option, get, houtput]
  | unreachable =>
      rcases hflag : s.unreachable with _ | _ | _ <;>
        simp [Plan.option, get, schemaOptions, hflag, Key.standard]
  | timeout => simp [Plan.option, get, Key.standard]
  | exclude | generator | roots => simp [Plan.option, get, Key.standard, Option.or_some, defaultCommand]
  | nullable | draft | toCamel | forbidExtra | aggregatorName =>
      simp [Plan.option, get, schemaOptions, Key.standard, Option.or_some, Schema.Options.standard,
        Schema.defaultAggregatorName]

theorem plan_eq_error_module_iff : s.plan = .error .module ↔ s.get .module = Option.none := by
  cases hmodule : s.module <;> cases houtput : s.output <;> simp [plan, get, hmodule, houtput]

theorem plan_eq_error_output_iff :
    s.plan = .error .output ↔ s.get .module ≠ Option.none ∧ s.get .output = Option.none := by
  cases hmodule : s.module <;> cases houtput : s.output <;> simp [plan, get, hmodule, houtput]

theorem plan_eq_ok_iff {p : Plan} :
    s.plan = .ok p ↔ s.get .module ≠ Option.none ∧ s.get .output ≠ Option.none ∧
      ∀ k, p.option k = (s.get k).or k.standard := by
  cases hmodule : s.module with
  | none => simp [plan, get, hmodule]
  | some entry =>
      cases houtput : s.output with
      | none => simp [plan, get, hmodule, houtput]
      | some output =>
          obtain ⟨q, hq, hoption⟩ := exists_plan hmodule houtput
          rw [hq]
          refine ⟨?_, fun ⟨_, _, h⟩ => ?_⟩
          · rintro ⟨rfl⟩
            exact ⟨by simp [get, hmodule], by simp [get, houtput], hoption⟩
          · rw [Plan.ext_option fun k => (hoption k).trans (h k).symm]

/-- The option of a run for which some layers ask. -/
def Asks (layers : List Settings) (k : Key) (option : Option k.Value) : Prop :=
  (∃ v, Decides layers k v ∧ option = some v) ∨ Unset layers k ∧ option = k.standard

theorem asks_iff {layers : List Settings} {k : Key} {option : Option k.Value} :
    Asks layers k option ↔ option = ((mergeAll layers).get k).or k.standard := by
  simp only [Asks, ← get_mergeAll_eq_some_iff, ← get_mergeAll_eq_none_iff]
  cases (mergeAll layers).get k <;> simp

section

variable {layers : List Settings}

/-- Layers make up a run if one of them sets the entry module, and one the output. -/
theorem plan_mergeAll_eq_ok_iff {p : Plan} :
    (mergeAll layers).plan = .ok p ↔
      ¬ Unset layers .module ∧ ¬ Unset layers .output ∧ ∀ k, Asks layers k (p.option k) := by
  have hmodule : _ ↔ Unset layers .module := get_mergeAll_eq_none_iff
  have houtput : _ ↔ Unset layers .output := get_mergeAll_eq_none_iff
  rw [plan_eq_ok_iff, ne_eq, ne_eq, hmodule, houtput]
  simp only [asks_iff]

theorem plan_mergeAll_eq_error_iff {e : MissingSetting} :
    (mergeAll layers).plan = .error e ↔
      (e = .module ∧ Unset layers .module) ∨
        (e = .output ∧ ¬ Unset layers .module ∧ Unset layers .output) := by
  have hmodule : _ ↔ Unset layers .module := get_mergeAll_eq_none_iff
  have houtput : _ ↔ Unset layers .output := get_mergeAll_eq_none_iff
  cases e with
  | module => simp [plan_eq_error_module_iff, hmodule]
  | output =>
      rw [plan_eq_error_output_iff, ne_eq, hmodule, houtput]
      simp

end

/-! ## Files -/

/-- The layers of those files that exist. -/
def layersOf (t : FileTree) (files : List Path) : Except FileError (List Settings) :=
  (files.filter t.isFile).mapM fun p => ofContent p.display (t.readText? p)

/-- The layers of the files of a run: those of the user and of the project if they exist, and the one that
is named explicitly. -/
def fileLayers (t : FileTree) (configDirectory : Option Path) (explicit : Option String) :
    Except FileError (List Settings) := do
  let found ← layersOf t
    ((configDirectory.map (· ++ userFile)).toList ++ [t.workingDirectory ++ projectFile])
  match explicit with
  | .none => return found
  | some path => return found ++ [← ofContent path ((t.find? path).bind t.readText?)]

theorem foldlM_addFile (t : FileTree) (files : List Path) (s : Settings) :
    files.foldlM (addFile t) s = (layersOf t files).map (·.foldl merge s) := by
  induction files generalizing s with
  | nil => rfl
  | cons p rest ih =>
      rw [List.foldlM_cons, addFile, layersOf]
      cases hfile : t.isFile p with
      | false =>
          rw [List.filter_cons_of_neg (by simp [hfile])]
          exact ih s
      | true =>
          rw [List.filter_cons_of_pos hfile, List.mapM_cons]
          cases ofContent p.display (t.readText? p) with
          | error e => rfl
          | ok layer =>
              refine (ih (s.merge layer)).trans ?_
              rw [layersOf]
              cases (rest.filter t.isFile).mapM fun p => ofContent p.display (t.readText? p) <;> rfl

/-- Files are read as layers, and these are put on top of each other. -/
theorem load_eq_mergeAll (t : FileTree) (configDirectory : Option Path) (explicit : Option String) :
    load t configDirectory explicit = (fileLayers t configDirectory explicit).map mergeAll := by
  unfold load fileLayers
  simp only [foldlM_addFile]
  cases layersOf t
    ((configDirectory.map (· ++ userFile)).toList ++ [t.workingDirectory ++ projectFile]) with
  | error e => rfl
  | ok found =>
      cases explicit with
      | none => rfl
      | some path =>
          change (ofContent path ((t.find? path).bind t.readText?) >>= fun layer =>
              pure ((mergeAll found).merge layer)) =
            (ofContent path ((t.find? path).bind t.readText?) >>= fun layer =>
              pure (found ++ [layer])).map mergeAll
          cases ofContent path ((t.find? path).bind t.readText?) with
          | error e => rfl
          | ok layer => exact congrArg Except.ok (mergeAll_concat found layer).symm

end Settings
end WireTypes
