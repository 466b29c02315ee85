import Mathlib
import WireTypes.CommandLine.Run
import WireTypes.Proofs.Settings.Layers

/-!
# The topmost layer — what a command line sets, and what it leaves alone

A command line is read option by option, and a value may stand apart from its option. What the options set
can be said without the states of the reading: it depends on the values of each option and on nothing else.

- `givenBy`: the options of a command line with their values;
- `layerOf`, `argumentsOf`: the layer that such options set, and all that they ask for;
- `Reads`: what a state of the reading has read;
- `parse_eq_argumentsOf`: a command line that is accepted asks for what its options ask for;
- `last_layer_decides`: how the layers of a run, the command line on top, make up its options.
-/

namespace WireTypes
namespace CommandLine

open Settings (Key Decides Unset Asks mergeAll fileLayers)

/-! ## Options and their values -/

/-- An option, with its value if it has one. -/
abbrev Given := Flag × Option String

/-- A part of a command line. -/
inductive Token
  /-- An option, perhaps with its value attached. -/
  | option (given : Given)
  /-- A word that is no option. -/
  | plain (word : String)

/-- The value that is attached to a letter, perhaps after an equals sign. -/
def attachedValue : List Char → Option String
  | [] => none
  | '=' :: value => some (String.ofList value)
  | value => some (String.ofList value)

/-- The options in the letters after one dash. -/
def shortTokens : List Char → List Token
  | [] => []
  | c :: rest =>
      match Flag.short? c with
      | none => []
      | some flag =>
          if flag.takesValue then [.option (flag, attachedValue rest)]
          else .option (flag, none) :: shortTokens rest

/-- The option after two dashes. -/
def longTokens (name : String) (value : Option String) : List Token :=
  ((Flag.long? name).map fun flag => Token.option (flag, value)).toList

def wordTokens (word : String) : List Token :=
  match word.toList with
  | '-' :: '-' :: cs => longTokens (Reading.splitLong cs).1 (Reading.splitLong cs).2
  | ['-'] => [.plain word]
  | '-' :: cs => shortTokens cs
  | _ => [.plain word]

section

variable {word : String} {c : Char} {cs : List Char} {flag : Flag}

theorem attachedValue_of_ne (hnil : cs ≠ []) (hequals : ∀ value, cs ≠ '=' :: value) :
    attachedValue cs = some (String.ofList cs) := by
  unfold attachedValue
  split
  · exact absurd rfl hnil
  · exact absurd rfl (hequals _)
  · rfl

theorem shortTokens_value (hc : Flag.short? c = some flag) (hflag : flag.takesValue = true) :
    shortTokens (c :: cs) = [.option (flag, attachedValue cs)] := by
  simp only [shortTokens, hc, hflag, if_true]

theorem shortTokens_switch (hc : Flag.short? c = some flag) (hflag : flag.takesValue = false) :
    shortTokens (c :: cs) = .option (flag, none) :: shortTokens cs := by
  simp [shortTokens, hc, hflag]

theorem wordTokens_long (h : word.toList = '-' :: '-' :: cs) :
    wordTokens word = longTokens (Reading.splitLong cs).1 (Reading.splitLong cs).2 := by
  rw [wordTokens, h]
  rfl

theorem wordTokens_dash (h : word.toList = ['-']) : wordTokens word = [.plain word] := by
  rw [wordTokens, h]
  rfl

theorem wordTokens_short (h : word.toList = '-' :: cs) (hdash : cs ≠ [])
    (hlong : ∀ rest, cs ≠ '-' :: rest) : wordTokens word = shortTokens cs := by
  rw [wordTokens, h]
  split
  · next heq => exact absurd (List.cons.inj heq).2 (hlong _)
  · next heq => exact absurd (List.cons.inj heq).2 hdash
  · next heq => rw [(List.cons.inj heq).2]
  · next hplain => exact absurd rfl (hplain cs)

theorem wordTokens_plain (h : ∀ cs, word.toList ≠ '-' :: cs) : wordTokens word = [.plain word] := by
  rw [wordTokens]
  split
  · next heq => exact absurd heq (h _)
  · rfl
  · next heq => exact absurd heq (h _)
  · rfl

end

/-- A word that is no option is the value of the option before it. -/
def extend (given : List Given) : Token → List Given
  | .option g => given ++ [g]
  | .plain word =>
      match given.getLast? with
      | some (flag, none) => given.dropLast ++ [(flag, some word)]
      | _ => given

/-- The options of a command line, in order. -/
def givenBy (words : List String) : List Given := (words.flatMap wordTokens).foldl extend []

/-! ## The layer of some options -/

/-- All values that an option is given. -/
def valuesOf (flag : Flag) (given : List Given) : List String :=
  given.filterMap fun g => if g.1 = flag then g.2 else none

def lastOf (flag : Flag) (given : List Given) : Option String := (valuesOf flag given).getLast?

/-- A list that is not set if it is empty. -/
def nonEmpty (values : List String) : Option (List String) := if values = [] then none else some values

/-- A switch that is off sets nothing. -/
def switch (flag : Flag) (given : List Given) : Option Bool :=
  if flag ∈ given.map Prod.fst then some true else none

/-- The settings that some options stand for. -/
def layerOf (given : List Given) : Settings :=
  { module := lastOf .module given
    output := lastOf .output given
    exclude := nonEmpty (valuesOf .exclude given)
    generator := lastOf .generator given
    roots := nonEmpty (valuesOf .root given)
    nullable := (lastOf .nullable given).bind Settings.nullableStyle?
    draft := (lastOf .draft given).bind Settings.draftNamed?
    toCamel := switch .toCamel given
    unreachable := switch .unreachable given
    forbidExtra := none
    aggregatorName := none
    timeout := (lastOf .timeout given).bind Arguments.number? }

/-- What some options ask for. -/
def argumentsOf (given : List Given) : Arguments :=
  ⟨layerOf given, lastOf .config given, (switch .verbose given).isSome⟩

/-- The option that sets a key. -/
def flagOf : Key → Option Flag
  | .module => some .module
  | .output => some .output
  | .exclude => some .exclude
  | .generator => some .generator
  | .roots => some .root
  | .nullable => some .nullable
  | .draft => some .draft
  | .toCamel => some .toCamel
  | .unreachable => some .unreachable
  | .forbidExtra | .aggregatorName => none
  | .timeout => some .timeout

theorem flagOf_injective {k k' : Key} {flag : Flag} (h : flagOf k = some flag)
    (h' : flagOf k' = some flag) : k = k' := by
  cases k <;> cases h <;> cases k' <;> first | rfl | cases h'

/-- The other options set no key. -/
theorem flagOf_ne {flag : Flag} (h : flag ∈ [.config, .verbose, .help, .version]) (k : Key) :
    flagOf k ≠ some flag := by
  rintro hk
  cases k <;> cases hk <;> simp at h

section

variable {given : List Given} {flag : Flag}

theorem valuesOf_eq_nil (h : flag ∉ given.map Prod.fst) : valuesOf flag given = [] := by
  rw [valuesOf, List.filterMap_eq_nil_iff]
  rintro ⟨other, value⟩ hg
  have hne : other ≠ flag := by
    rintro rfl
    exact h (List.mem_map_of_mem (f := Prod.fst) hg)
  exact if_neg hne

theorem lastOf_eq_none (h : flag ∉ given.map Prod.fst) : lastOf flag given = none := by
  rw [lastOf, valuesOf_eq_nil h]
  rfl

/-- An option that is not given leaves its key unset, be it a switch, a list or a single value. -/
theorem get_layerOf_eq_none {k : Key} (h : ∀ flag ∈ flagOf k, flag ∉ given.map Prod.fst) :
    (layerOf given).get k = none := by
  cases k with
  | forbidExtra | aggregatorName => rfl
  | exclude | roots => simp only [Settings.get, layerOf, valuesOf_eq_nil (h _ rfl), nonEmpty, if_true]
  | toCamel | unreachable => exact if_neg (h _ rfl)
  | module | output | generator | nullable | draft | timeout =>
      simp only [Settings.get, layerOf, lastOf_eq_none (h _ rfl), Option.bind_none]

/-! ### One more option -/

theorem valuesOf_concat (value : Option String) :
    valuesOf flag (given ++ [(flag, value)]) = valuesOf flag given ++ value.toList := by
  cases value <;> simp [valuesOf]

theorem valuesOf_concat_of_ne {g : Given} (h : g.1 ≠ flag) :
    valuesOf flag (given ++ [g]) = valuesOf flag given := by
  simp [valuesOf, h]

theorem lastOf_concat (word : String) : lastOf flag (given ++ [(flag, some word)]) = some word := by
  rw [lastOf, valuesOf_concat]
  exact List.getLast?_concat

theorem lastOf_concat_of_ne {g : Given} (h : g.1 ≠ flag) :
    lastOf flag (given ++ [g]) = lastOf flag given := by
  rw [lastOf, valuesOf_concat_of_ne h, lastOf]

theorem nonEmpty_concat (word : String) :
    nonEmpty (valuesOf flag (given ++ [(flag, some word)])) =
      Arguments.append (nonEmpty (valuesOf flag given)) word := by
  rw [valuesOf_concat]
  cases valuesOf flag given <;> simp [nonEmpty, Arguments.append]

theorem switch_concat (value : Option String) : switch flag (given ++ [(flag, value)]) = some true :=
  if_pos (by simp)

theorem switch_concat_of_ne {g : Given} (h : g.1 ≠ flag) :
    switch flag (given ++ [g]) = switch flag given := by
  have hmem : flag ∈ (given ++ [g]).map Prod.fst ↔ flag ∈ given.map Prod.fst := by
    simp [Ne.symm h]
  simp only [switch, hmem]

theorem get_layerOf_concat_of_ne {g : Given} {k : Key} (h : flagOf k ≠ some g.1) :
    (layerOf (given ++ [g])).get k = (layerOf given).get k := by
  have hne (flag : Flag) (hk : flagOf k = some flag) : g.1 ≠ flag := by
    rintro rfl
    exact h hk
  cases k with
  | forbidExtra | aggregatorName => rfl
  | exclude | roots => simp only [Settings.get, layerOf, valuesOf_concat_of_ne (hne _ rfl)]
  | toCamel | unreachable => exact switch_concat_of_ne (hne _ rfl)
  | module | output | generator | nullable | draft | timeout =>
      simp only [Settings.get, layerOf, lastOf_concat_of_ne (hne _ rfl)]

/-- One more option is one more layer with the key of this option. -/
theorem argumentsOf_concat {g : Given} {k : Key} {v : k.Value} (hk : flagOf k = some g.1)
    (hv : (layerOf (given ++ [g])).get k = some v) :
    argumentsOf (given ++ [g]) = (argumentsOf given).withLayer (Settings.single k v) := by
  have hlayer : layerOf (given ++ [g]) = (layerOf given).merge (Settings.single k v) := by
    refine Settings.ext_get fun k' => ?_
    rw [Settings.get_merge]
    by_cases hkey : k' = k
    · subst hkey
      rw [hv, Settings.get_single, Option.some_or]
    · rw [Settings.get_single_of_ne v hkey, Option.none_or]
      exact get_layerOf_concat_of_ne fun hk' => hkey (flagOf_injective hk' hk)
  have hother (flag : Flag) (h : flag ∈ [.config, .verbose, .help, .version]) : g.1 ≠ flag := by
    rintro rfl
    exact flagOf_ne h k hk
  rw [argumentsOf, hlayer, lastOf_concat_of_ne (hother .config (by simp)),
    switch_concat_of_ne (hother .verbose (by simp))]
  rfl

/-- The other options leave the settings alone. -/
theorem layerOf_concat_of_ne {g : Given} (h : ∀ k, flagOf k ≠ some g.1) :
    layerOf (given ++ [g]) = layerOf given :=
  Settings.ext_get fun k => get_layerOf_concat_of_ne (h k)

end

/-! ## Reading an option -/

theorem exists_of_bind {α β : Type} {x : Except Stop α} {f : α → Except Stop β} {b : β}
    (h : x >>= f = .ok b) : ∃ a, x = .ok a ∧ f a = .ok b := by
  cases x with
  | error e => cases h
  | ok a => exact ⟨a, rfl, h⟩

section

variable {given : List Given} {flag : Flag} {b : Arguments} {word : String}

/-- A value that fits is taken in. -/
theorem exists_of_fits {α : Type} {value : Option α} {f : α → Arguments} {e : Stop}
    (h : (match value.map f with | some b => Except.ok b | none => .error e) = .ok b) :
    ∃ v, value = some v ∧ f v = b := by
  cases value with
  | none => cases h
  | some v => exact ⟨v, rfl, Except.ok.inj h⟩

theorem path?_eq {path : String} (h : Arguments.path? word = some path) : word = path := by
  unfold Arguments.path? at h
  split at h
  · cases h
  · exact Option.some.inj h

theorem setValue_concat (hflag : flag.takesValue = true)
    (h : (argumentsOf given).setValue flag word = .ok b) :
    b = argumentsOf (given ++ [(flag, some word)]) := by
  cases flag with
  | toCamel | unreachable | verbose | help | version => cases hflag
  | module =>
      cases h
      exact (argumentsOf_concat (k := .module) rfl (lastOf_concat word)).symm
  | generator =>
      cases h
      exact (argumentsOf_concat (k := .generator) rfl (lastOf_concat word)).symm
  | exclude =>
      cases h
      exact (argumentsOf_concat (k := .exclude) rfl (nonEmpty_concat word)).symm
  | output =>
      obtain ⟨path, hpath, rfl⟩ := exists_of_fits h
      cases path?_eq hpath
      exact (argumentsOf_concat (k := .output) rfl (lastOf_concat word)).symm
  | root =>
      obtain ⟨path, hpath, rfl⟩ := exists_of_fits h
      cases path?_eq hpath
      exact (argumentsOf_concat (k := .roots) rfl (nonEmpty_concat word)).symm
  | nullable =>
      obtain ⟨style, hstyle, rfl⟩ := exists_of_fits h
      refine (argumentsOf_concat (k := .nullable) rfl ?_).symm
      exact (congrArg (·.bind Settings.nullableStyle?) (lastOf_concat word)).trans hstyle
  | draft =>
      obtain ⟨draft, hdraft, rfl⟩ := exists_of_fits h
      refine (argumentsOf_concat (k := .draft) rfl ?_).symm
      exact (congrArg (·.bind Settings.draftNamed?) (lastOf_concat word)).trans hdraft
  | timeout =>
      simp only [Arguments.setValue] at h
      split at h
      · next seconds hseconds =>
          cases h
          refine (argumentsOf_concat (k := .timeout) rfl ?_).symm
          exact (congrArg (·.bind Arguments.number?) (lastOf_concat word)).trans hseconds
      · cases h
  | config =>
      obtain ⟨path, hpath, rfl⟩ := exists_of_fits h
      cases path?_eq hpath
      have hne : Flag.config ≠ .verbose := by decide
      rw [argumentsOf, argumentsOf, lastOf_concat, switch_concat_of_ne hne,
        layerOf_concat_of_ne (flagOf_ne (by simp))]

theorem setSwitch_concat (hflag : flag.takesValue = false)
    (h : (argumentsOf given).setSwitch flag = .ok b) : b = argumentsOf (given ++ [(flag, none)]) := by
  unfold Arguments.setSwitch at h
  split at h
  · cases h
  · cases flag with
    | module | output | exclude | generator | root | nullable | draft | timeout | config => cases hflag
    | help | version => cases h
    | toCamel =>
        cases h
        exact (argumentsOf_concat (k := .toCamel) rfl (switch_concat none)).symm
    | unreachable =>
        cases h
        exact (argumentsOf_concat (k := .unreachable) rfl (switch_concat none)).symm
    | verbose =>
        cases h
        rw [argumentsOf, argumentsOf, switch_concat, lastOf_concat_of_ne (by decide),
          layerOf_concat_of_ne (flagOf_ne (by simp))]
        rfl

theorem setOption_concat {value : Option String} (hflag : flag.takesValue = true)
    (h : (argumentsOf given).setOption flag value = .ok b) :
    b = argumentsOf (given ++ [(flag, value)]) := by
  cases value with
  | none => cases h
  | some word =>
      simp only [Arguments.setOption] at h
      split at h
      · cases h
      · exact setValue_concat hflag h

end

/-! ## Reading a command line -/

/-- The options that are taken in are the settings so far, and the last one may still wait for its value. -/
def Reads (r : Reading) (given : List Given) : Prop :=
  ∃ settled, r.args = argumentsOf settled ∧ given = settled ++ r.pending.toList ∧
    ∀ g ∈ r.pending, g.1.takesValue = true

section

variable {r r' : Reading} {given : List Given} {flag : Flag}

theorem Reads.settle {a : Arguments} (hr : Reads r given) (h : r.settle = .ok a) :
    a = argumentsOf given := by
  obtain ⟨args, pending⟩ := r
  obtain ⟨settled, rfl, rfl, hpending⟩ := hr
  cases pending with
  | none =>
      cases h
      exact congrArg argumentsOf (List.append_nil settled).symm
  | some g => exact setOption_concat (hpending g rfl) h

theorem Reads.open (hr : Reads r given) (h : r.open? flag = .ok r') :
    Reads r' (given ++ [(flag, none)]) := by
  obtain ⟨args, hargs, h⟩ := exists_of_bind h
  obtain rfl := hr.settle hargs
  cases hflag : flag.takesValue with
  | true =>
      rw [if_pos hflag] at h
      cases h
      refine ⟨given, rfl, rfl, ?_⟩
      rintro _ ⟨⟩
      exact hflag
  | false =>
      rw [if_neg (by simp [hflag])] at h
      obtain ⟨next, hnext, h⟩ := exists_of_bind h
      cases h
      exact ⟨_, setSwitch_concat hflag hnext, (List.append_nil _).symm, by simp⟩

theorem Reads.attach {word : String} (hr : Reads r given) (hflag : flag.takesValue = true)
    (h : r.attach flag word = .ok r') : Reads r' (given ++ [(flag, some word)]) := by
  obtain ⟨args, hargs, h⟩ := exists_of_bind h
  obtain rfl := hr.settle hargs
  obtain ⟨next, hnext, h⟩ := exists_of_bind h
  cases h
  exact ⟨_, setOption_concat hflag hnext, (List.append_nil _).symm, by simp⟩

theorem Reads.plain {word : String} (hr : Reads r given) (h : r.plain word = .ok r') :
    Reads r' (extend given (.plain word)) := by
  obtain ⟨args, pending⟩ := r
  obtain ⟨settled, rfl, rfl, hpending⟩ := hr
  rcases pending with _ | ⟨flag, _ | value⟩
  · cases h
  · cases h
    refine ⟨settled, rfl, ?_, ?_⟩
    · simp [extend]
    · rintro _ ⟨⟩
      exact hpending (flag, none) rfl
  · cases h

theorem Reads.long {name : String} {value : Option String} (hr : Reads r given)
    (h : r.long name value = .ok r') : Reads r' ((longTokens name value).foldl extend given) := by
  unfold Reading.long at h
  unfold longTokens
  cases hname : Flag.long? name with
  | none => simp [hname] at h
  | some flag =>
      simp only [hname] at h
      cases value with
      | none => exact hr.open h
      | some word =>
          dsimp only at h
          split at h
          · next hflag => exact hr.attach hflag h
          · cases h

theorem Reads.short {cs : List Char} (hr : Reads r given) (h : r.short cs = .ok r') :
    Reads r' ((shortTokens cs).foldl extend given) := by
  induction cs generalizing r given with
  | nil =>
      cases h
      exact hr
  | cons c rest ih =>
      unfold Reading.short at h
      cases hc : Flag.short? c with
      | none => simp [hc] at h
      | some flag =>
          simp only [hc] at h
          cases hflag : flag.takesValue with
          | false =>
              rw [if_neg (by simp [hflag])] at h
              obtain ⟨next, hnext, h⟩ := exists_of_bind h
              rw [shortTokens_switch hc hflag]
              exact ih (hr.open hnext) h
          | true =>
              rw [if_pos hflag] at h
              rw [shortTokens_value hc hflag]
              split at h
              · exact hr.open h
              · exact hr.attach hflag h
              · next hnil hequals =>
                  rw [attachedValue_of_ne hnil hequals]
                  exact hr.attach hflag h

theorem Reads.words {words : List String} (hr : Reads r given) (h : r.words words = .ok r') :
    Reads r' ((words.flatMap wordTokens).foldl extend given) := by
  induction words generalizing r given with
  | nil =>
      cases h
      exact hr
  | cons word rest ih =>
      rw [List.flatMap_cons, List.foldl_append]
      unfold Reading.words at h
      split at h
      · next _ _ hword =>
          cases h
          rw [wordTokens_long hword]
          exact hr
      · cases h
      · next rest _ _ cs hword _ _ =>
          obtain ⟨next, hnext, h⟩ := exists_of_bind h
          rw [wordTokens_long hword]
          exact ih (hr.long hnext) h
      · next rest _ _ hword =>
          obtain ⟨next, hnext, h⟩ := exists_of_bind h
          rw [wordTokens_dash hword]
          exact ih (hr.plain hnext) h
      · next rest _ _ cs hlong hdash hword _ _ =>
          obtain ⟨next, hnext, h⟩ := exists_of_bind h
          rw [wordTokens_short hword hdash hlong]
          exact ih (hr.short hnext) h
      · next rest _ _ _ _ hplain _ _ =>
          obtain ⟨next, hnext, h⟩ := exists_of_bind h
          rw [wordTokens_plain hplain]
          exact ih (hr.plain hnext) h

end

/-- A command line that is accepted asks for what its options ask for. -/
theorem parse_eq_argumentsOf {words : List String} {a : Arguments}
    (h : Arguments.parse words = .ok a) : a = argumentsOf (givenBy words) := by
  obtain ⟨r, hr, hsettle⟩ := exists_of_bind h
  have hstart : Reads Reading.start [] := ⟨[], rfl, rfl, by simp [Reading.start]⟩
  exact (hstart.words hr).settle hsettle

/-! ## Layers of a run -/

/-- Switches that are off and options that are absent leave alone what is below the command line. -/
theorem get_merge_argumentsOf {given : List Given} {k : Key}
    (h : ∀ flag ∈ flagOf k, flag ∉ given.map Prod.fst) (lower : Settings) :
    (lower.merge (argumentsOf given).layer).get k = lower.get k := by
  rw [Settings.get_merge]
  exact congrArg (Option.or · (lower.get k)) (get_layerOf_eq_none h)

/-- The layers of a run are those of its files, with the command line on top. -/
theorem settingsFor_eq (t : FileTree) (configDirectory : Option Path) (a : Arguments) :
    settingsFor t configDirectory a =
      ((fileLayers t configDirectory a.config).mapError RunError.settings).bind fun layers =>
        (mergeAll (layers ++ [a.layer])).plan.mapError RunError.missing := by
  rw [settingsFor, Settings.load_eq_mergeAll]
  cases fileLayers t configDirectory a.config with
  | error e => rfl
  | ok layers =>
      exact congrArg (fun s => s.plan.mapError RunError.missing)
        (Settings.mergeAll_concat layers a.layer).symm

/-- The last layer that sets a key decides, for any layers and each key on its own; so layers can be
grouped in any way, and a layer that sets nothing changes nothing. A command line is the layer of its options,
and leaves the keys of all others alone. Each key decides one option of a run, and only without an entry
module or an output there is none. -/
theorem last_layer_decides :
    (∀ layers k v, (mergeAll layers).get k = some v ↔ Decides layers k v) ∧
    (∀ layers k, (mergeAll layers).get k = none ↔ Unset layers k) ∧
    (∀ s₁ s₂ s₃ : Settings, (s₁.merge s₂).merge s₃ = s₁.merge (s₂.merge s₃)) ∧
    (∀ s : Settings, Settings.none.merge s = s ∧ s.merge Settings.none = s) ∧
    (∀ words a, Arguments.parse words = .ok a → a = argumentsOf (givenBy words)) ∧
    (∀ given k, (∀ flag ∈ flagOf k, flag ∉ given.map Prod.fst) →
      ∀ lower : Settings, (lower.merge (argumentsOf given).layer).get k = lower.get k) ∧
    (∀ layers p, (mergeAll layers).plan = .ok p ↔
      ¬ Unset layers .module ∧ ¬ Unset layers .output ∧ ∀ k, Asks layers k (p.option k)) ∧
    (∀ layers e, (mergeAll layers).plan = .error e ↔
      (e = .module ∧ Unset layers .module) ∨
        (e = .output ∧ ¬ Unset layers .module ∧ Unset layers .output)) ∧
    ∀ t configDirectory a, settingsFor t configDirectory a =
      ((fileLayers t configDirectory a.config).mapError RunError.settings).bind fun layers =>
        (mergeAll (layers ++ [a.layer])).plan.mapError RunError.missing := by
  refine ⟨?_, ?_, Settings.merge_assoc, ?_, ?_, ?_, ?_, ?_, settingsFor_eq⟩
  · exact fun _ _ _ => Settings.get_mergeAll_eq_some_iff
  · exact fun _ _ => Settings.get_mergeAll_eq_none_iff
  · exact fun s => ⟨Settings.none_merge s, Settings.merge_none s⟩
  · exact fun _ _ => parse_eq_argumentsOf
  · exact fun _ _ => get_merge_argumentsOf
  · exact fun _ _ => Settings.plan_mergeAll_eq_ok_iff
  · exact fun _ _ => Settings.plan_mergeAll_eq_error_iff

/-- Options of other keys leave the roots of a file alone, and a list takes the place of the one below. -/
theorem options_over_file :
    ∃ a, Arguments.parse ["--exclude", "A", "--to-camel", "--exclude=B"] = .ok a ∧
      (({ Settings.none with roots := some ["src"] } : Settings).merge a.layer).get .roots =
        some ["src"] ∧
      (mergeAll [{ Settings.none with exclude := some ["C"] }, a.layer]).get .exclude =
        some ["A", "B"] := by
  obtain ⟨hdecides, _, _, _, hparse, hkeeps, _⟩ := last_layer_decides
  have hsome : ∃ a, Arguments.parse ["--exclude", "A", "--to-camel", "--exclude=B"] = .ok a :=
    ⟨argumentsOf [(.exclude, some "A"), (.toCamel, none), (.exclude, some "B")], by decide +kernel⟩
  obtain ⟨a, ha⟩ := hsome
  refine ⟨a, ha, ?_, (hdecides _ .exclude _).2 ⟨[_], a.layer, [], rfl, ?_, by simp⟩⟩
  · rw [hparse _ a ha]
    refine hkeeps _ .roots ?_ _
    rintro _ ⟨⟩
    decide +kernel
  · rw [hparse _ a ha]
    decide +kernel

end CommandLine
end WireTypes
