import WireTypes.CommandLine.Run
import WireTypes.Proofs.Generator.Scratch
import WireTypes.Proofs.Resolution.QualifiedNames
import WireTypes.Proofs.Resolution.ResolutionOrder

/-!
# Atomicity — a run writes its whole output or nothing

A run has many ways to fail, and the output is written as its last step. What a run asks the generator, and
when it looks for definitions, is written down by a generator that keeps a record.

- `Call`, `Generator.recorded`: a generator that keeps a record of what it is asked;
- `Generates`: the ways in which a generation goes, with the calls of each;
- `generateFrom_generates`: there are no others, and the record changes nothing else;
- `Whole`: what holds of a run, whatever it comes to;
- `runPlan_whole`: so it is with every generator that leaves nothing behind;
- `run_is_whole`: and with every command that writes nothing outside the directory of the schema.
-/

namespace WireTypes

open FileTree

/-! ## Schemas -/

section

variable {t : FileTree} {task : Task}

/-- The models that are retained, with the catalog that they are from. -/
def Retains (t : FileTree) (task : Task) (catalog : Catalog) (retained : List Model) : Prop :=
  locate t task.roots task.entry = .ok catalog ∧
    select catalog.allModels task.excluded = .ok retained

/-- A schema comes from the models that are retained, and there is none if there are none. -/
theorem schemaOf_eq_ok_iff {d? : Option Schema.Document} :
    schemaOf t task = .ok d? ↔ ∃ catalog retained, Retains t task catalog retained ∧
      if retained = [] then d? = none
      else ∃ d, Schema.synthesize retained catalog task.schema = .ok d ∧ d? = some d := by
  unfold schemaOf Retains
  cases locate t task.roots task.entry with
  | error e => simp [bind, Except.bind, Except.mapError]
  | ok catalog =>
      cases hselect : select catalog.allModels task.excluded with
      | error e => simp [bind, Except.bind, Except.mapError, hselect]
      | ok retained =>
          cases retained with
          | nil => simp [bind, Except.bind, Except.mapError, pure, Except.pure, hselect, eq_comm]
          | cons m rest =>
              cases hdoc : Schema.synthesize (m :: rest) catalog task.schema <;>
                simp [bind, Except.bind, Except.mapError, pure, Except.pure, hselect, hdoc, eq_comm]

end

/-! ## Calls -/

/-- What a generation asks for. -/
inductive Call
  | check
  /-- The definitions of the entry module. -/
  | discovery
  | render (d : Schema.Document)

/-- Acts on a tree, and keeps a record of calls. -/
abbrev Recording := StateM (FileTree × List Call)

def recording {α : Type} (call : Call) (act : StateM FileTree α) : Recording α :=
  fun (t, calls) => ((act t).1, (act t).2, calls ++ [call])

/-- The generator that writes down what it is asked. -/
def Generator.recorded (g : Generator (StateM FileTree)) : Generator Recording where
  check := recording .check g.check
  render d := recording (.render d) (g.render d)

/-- A generation with a record of all that it asks for. -/
def generateRecorded (g : Generator (StateM FileTree)) (task : Task) :
    Recording (Except GenerationError Declarations.Output) :=
  generateFrom g.recorded (recording .discovery (CommandLine.discover task))

/-- The ways in which a generation goes: its calls, its result and the tree that it leaves. -/
inductive Generates (g : Generator (StateM FileTree)) (task : Task) (t : FileTree) :
    List Call → Except GenerationError Declarations.Output → FileTree → Prop
  | unavailable {e t'} : g.check t = (.error e, t') →
      Generates g task t [.check] (.error (.generator e)) t'
  | undiscovered {e t'} : g.check t = (.ok (), t') → schemaOf t' task = .error e →
      Generates g task t [.check, .discovery] (.error e) t'
  | empty {t'} : g.check t = (.ok (), t') → schemaOf t' task = .ok none →
      Generates g task t [.check, .discovery] (.ok Declarations.Output.empty) t'
  | unrendered {d e t' t''} : g.check t = (.ok (), t') → schemaOf t' task = .ok (some d) →
      g.render d t' = (.error e, t'') →
      Generates g task t [.check, .discovery, .render d] (.error (.generator e)) t''
  | rendered {d raw t' t''} : g.check t = (.ok (), t') → schemaOf t' task = .ok (some d) →
      g.render d t' = (.ok raw, t'') →
      Generates g task t [.check, .discovery, .render d] (finishDocument d raw) t''

section

variable {σ : Type} {g : Generator (StateM σ)} {d : Schema.Document}
  {discover : StateM σ (Except GenerationError (Option Schema.Document))} {s s' s'' s''' : σ}

theorem generateFrom_of_unavailable {e : GeneratorError} (h : g.check s = (.error e, s')) :
    generateFrom g discover s = (.error (.generator e), s') := by
  simp only [generateFrom, bind, StateT.bind, h]
  rfl

theorem generateFrom_of_undiscovered {e : GenerationError} (h : g.check s = (.ok (), s'))
    (hdiscover : discover s' = (.error e, s'')) : generateFrom g discover s = (.error e, s'') := by
  simp only [generateFrom, bind, StateT.bind, h, hdiscover]
  rfl

theorem generateFrom_of_empty (h : g.check s = (.ok (), s'))
    (hdiscover : discover s' = (.ok none, s'')) :
    generateFrom g discover s = (.ok Declarations.Output.empty, s'') := by
  simp only [generateFrom, bind, StateT.bind, h, hdiscover]
  rfl

theorem generateFrom_of_unrendered {e : GeneratorError} (h : g.check s = (.ok (), s'))
    (hdiscover : discover s' = (.ok (some d), s'')) (hrender : g.render d s'' = (.error e, s''')) :
    generateFrom g discover s = (.error (.generator e), s''') := by
  simp only [generateFrom, bind, StateT.bind, h, hdiscover, hrender]
  rfl

theorem generateFrom_of_rendered {raw : String} (h : g.check s = (.ok (), s'))
    (hdiscover : discover s' = (.ok (some d), s'')) (hrender : g.render d s'' = (.ok raw, s''')) :
    generateFrom g discover s = (finishDocument d raw, s''') := by
  simp only [generateFrom, bind, StateT.bind, h, hdiscover, hrender]
  rfl

end

theorem discover_eq (task : Task) (t : FileTree) :
    CommandLine.discover task t = (schemaOf t task, t) := rfl

theorem recording_eq {α : Type} {call : Call} {act : StateM FileTree α} {a : α} {t t' : FileTree}
    (h : act t = (a, t')) (calls : List Call) :
    recording call act (t, calls) = (a, t', calls ++ [call]) := by
  simp only [recording, h]

/-- A generation goes in one of the ways, and just so when a record is kept. -/
theorem generateFrom_generates (g : Generator (StateM FileTree)) (task : Task) (t : FileTree) :
    ∃ calls result t', Generates g task t calls result t' ∧
      generateFrom g (CommandLine.discover task) t = (result, t') ∧
      generateRecorded g task (t, []) = (result, t', calls) := by
  cases hcheck : g.check t with
  | mk checked t' =>
      have hchecked : g.recorded.check (t, []) = _ := recording_eq hcheck []
      cases checked with
      | error e =>
          exact ⟨_, _, _, .unavailable hcheck, generateFrom_of_unavailable hcheck,
            generateFrom_of_unavailable hchecked⟩
      | ok _ =>
          have hdiscover := discover_eq task t'
          cases hschema : schemaOf t' task with
          | error e =>
              rw [hschema] at hdiscover
              exact ⟨_, _, _, .undiscovered hcheck hschema,
                generateFrom_of_undiscovered hcheck hdiscover,
                generateFrom_of_undiscovered hchecked (recording_eq hdiscover _)⟩
          | ok d? =>
              rw [hschema] at hdiscover
              cases d? with
              | none =>
                  exact ⟨_, _, _, .empty hcheck hschema, generateFrom_of_empty hcheck hdiscover,
                    generateFrom_of_empty hchecked (recording_eq hdiscover _)⟩
              | some d =>
                  cases hrender : g.render d t' with
                  | mk rendered t'' =>
                      cases rendered with
                      | error e =>
                          exact ⟨_, _, _, .unrendered hcheck hschema hrender,
                            generateFrom_of_unrendered hcheck hdiscover hrender,
                            generateFrom_of_unrendered hchecked (recording_eq hdiscover _)
                              (recording_eq hrender _)⟩
                      | ok raw =>
                          exact ⟨_, _, _, .rendered hcheck hschema hrender,
                            generateFrom_of_rendered hcheck hdiscover hrender,
                            generateFrom_of_rendered hchecked (recording_eq hdiscover _)
                              (recording_eq hrender _)⟩

/-! ## Runs -/

section

variable (g : Generator (StateM FileTree)) (task : Task) (t : FileTree)

/-- What a generation comes to in the end: the banner alone if no model is retained, and otherwise what was
rendered, without the aggregator. -/
def Finishes (o : Declarations.Output) : Prop :=
  (g.check t).1 = .ok () ∧ ∃ catalog retained, Retains t task catalog retained ∧
    if retained = [] then o.text = Declarations.banner
    else ∃ d raw, Schema.synthesize retained catalog task.schema = .ok d ∧
      (g.render d t).1 = .ok raw ∧ finishDocument d raw = .ok o

/-- The generator is asked first whether it is there, and only then are definitions looked for. It renders
once at most, and just if there is a document of models that are retained. -/
structure Ordered (calls : List Call) : Prop where
  order : calls = [.check] ∨ calls = [.check, .discovery] ∨
    ∃ d, calls = [.check, .discovery, .render d]
  discovers : .discovery ∈ calls ↔ (g.check t).1 = .ok ()
  renders : ∀ d, .render d ∈ calls ↔ (g.check t).1 = .ok () ∧
    ∃ catalog retained, Retains t task catalog retained ∧ retained ≠ [] ∧
      Schema.synthesize retained catalog task.schema = .ok d

end

/-- What holds of a run, whatever it comes to: before the output is written nothing is changed, and in the end
it is changed by nothing but the whole text. -/
structure Whole (g : Generator (StateM FileTree)) (plan : Plan) (t : FileTree)
    (result : Except CommandLine.RunError String) (t' : FileTree) : Prop where
  unchanged : ∀ e, result = .error e → (∀ path, e ≠ .unwritable path) → t.Same t'
  written : ∀ path, result = .ok path → path = plan.output ∧
    ∃ o place, Finishes g plan.task t o ∧ t'.find? path = some place ∧
      t'.entry? place = some (.file o.text.toUTF8) ∧ ChangesOnly (· = place) t t'
  -- The same generation, with a record.
  recorded : ∃ generated t'' calls,
    generateFrom g (CommandLine.discover plan.task) t = (generated, t'') ∧
      generateRecorded g plan.task (t, []) = (generated, t'', calls) ∧ Ordered g plan.task t calls

section

variable {g : Generator (StateM FileTree)} {task : Task} {t t' : FileTree} {calls : List Call}
  {generated : Except GenerationError Declarations.Output}

theorem schemaOf_eq_none_iff :
    schemaOf t task = .ok none ↔ ∃ catalog, Retains t task catalog [] := by
  rw [schemaOf_eq_ok_iff]
  constructor
  · rintro ⟨catalog, retained, hretains, hnone⟩
    by_cases hempty : retained = []
    · exact ⟨catalog, hempty ▸ hretains⟩
    · simp [hempty] at hnone
  · rintro ⟨catalog, hretains⟩
    exact ⟨catalog, [], hretains, by simp⟩

theorem schemaOf_eq_some_iff {d : Schema.Document} :
    schemaOf t task = .ok (some d) ↔ ∃ catalog retained, Retains t task catalog retained ∧
      retained ≠ [] ∧ Schema.synthesize retained catalog task.schema = .ok d := by
  rw [schemaOf_eq_ok_iff]
  constructor
  · rintro ⟨catalog, retained, hretains, hsome⟩
    by_cases hempty : retained = []
    · simp [hempty] at hsome
    · rcases (if_neg hempty).mp hsome with ⟨d', hd', heq⟩
      cases heq
      exact ⟨catalog, retained, hretains, hempty, hd'⟩
  · rintro ⟨catalog, retained, hretains, hsome, hd⟩
    exact ⟨catalog, retained, hretains, by simp [hsome, hd]⟩

theorem Generator.Tidy.checked (htidy : g.Tidy) {checked : Except GeneratorError Unit}
    (h : g.check t = (checked, t')) : t' = t ∧ (g.check t).1 = checked :=
  ⟨(congrArg Prod.snd h).symm.trans (htidy.check t), congrArg Prod.fst h⟩

theorem Generator.Tidy.rendered (htidy : g.Tidy) {d : Schema.Document}
    {rendered : Except GeneratorError String} (h : g.render d t = (rendered, t')) :
    t.Same t' ∧ (g.render d t).1 = rendered := by
  have hsame := htidy.render d t
  rw [h] at hsame
  exact ⟨hsame, congrArg Prod.fst h⟩

namespace Generates

/-- A generation leaves the tree as it was, however it goes. -/
theorem same (h : Generates g task t calls generated t') (htidy : g.Tidy) : t.Same t' := by
  cases h with
  | unavailable hcheck | undiscovered hcheck _ | empty hcheck _ =>
      obtain rfl := (htidy.checked hcheck).1
      exact ChangesOnly.refl _
  | unrendered hcheck _ hrender | rendered hcheck _ hrender =>
      obtain rfl := (htidy.checked hcheck).1
      exact (htidy.rendered hrender).1

theorem finishes {o : Declarations.Output} (h : Generates g task t calls generated t')
    (htidy : g.Tidy) (ho : generated = .ok o) : Finishes g task t o := by
  cases h with
  | unavailable _ | undiscovered _ _ | unrendered _ _ _ => cases ho
  | empty hcheck hschema =>
      cases ho
      rcases htidy.checked hcheck with ⟨rfl, hchecked⟩
      rcases schemaOf_eq_none_iff.1 hschema with ⟨catalog, hretains⟩
      have htext : Declarations.Output.empty.text = Declarations.banner := String.append_empty
      exact ⟨hchecked, catalog, [], hretains, by rw [if_pos rfl, htext]⟩
  | rendered hcheck hschema hrender =>
      rcases htidy.checked hcheck with ⟨rfl, hchecked⟩
      rcases schemaOf_eq_some_iff.1 hschema with ⟨catalog, retained, hretains, hsome, hd⟩
      refine ⟨hchecked, catalog, retained, hretains, ?_⟩
      rw [if_neg hsome]
      exact ⟨_, _, hd, (htidy.rendered hrender).2, ho⟩

theorem ordered (h : Generates g task t calls generated t') (htidy : g.Tidy) :
    Ordered g task t calls := by
  have hunique : ∀ {d? : Option Schema.Document}, schemaOf t task = .ok d? → ∀ d,
      d? = some d ↔ ∃ catalog retained, Retains t task catalog retained ∧ retained ≠ [] ∧
        Schema.synthesize retained catalog task.schema = .ok d := by
    intro d? hschema d
    rw [← schemaOf_eq_some_iff, hschema, Except.ok.injEq]
  cases h with
  | unavailable hcheck =>
      have hchecked := (htidy.checked hcheck).2
      exact ⟨Or.inl rfl, by simp [hchecked], fun d => by simp [hchecked]⟩
  | undiscovered hcheck hschema =>
      rcases htidy.checked hcheck with ⟨rfl, hchecked⟩
      refine ⟨Or.inr (Or.inl rfl), by simp [hchecked], fun d => ?_⟩
      rw [← schemaOf_eq_some_iff, hschema]
      simp
  | empty hcheck hschema =>
      rcases htidy.checked hcheck with ⟨rfl, hchecked⟩
      refine ⟨Or.inr (Or.inl rfl), by simp [hchecked], fun d => ?_⟩
      rw [← hunique hschema]
      simp
  | unrendered hcheck hschema _ | rendered hcheck hschema _ =>
      rcases htidy.checked hcheck with ⟨rfl, hchecked⟩
      refine ⟨Or.inr (Or.inr ⟨_, rfl⟩), by simp [hchecked], fun d => ?_⟩
      rw [← hunique hschema]
      simp [hchecked, eq_comm]

end Generates

end

section

variable {g : Generator (StateM FileTree)} {plan : Plan} {t t' : FileTree}

theorem runPlan_of_error {e : GenerationError}
    (h : generateFrom g (CommandLine.discover plan.task) t = (.error e, t')) :
    CommandLine.runPlan g plan t = (.error (.generation e), t') := by
  simp only [CommandLine.runPlan, bind, StateT.bind, h]
  rfl

theorem runPlan_of_ok {o : Declarations.Output}
    (h : generateFrom g (CommandLine.discover plan.task) t = (.ok o, t')) :
    CommandLine.runPlan g plan t = CommandLine.writeOutput plan.output o t' := by
  simp only [CommandLine.runPlan, bind, StateT.bind, h]

/-- The output is written as the last step: a run either changes nothing, or the output is all that it
changes. -/
theorem runPlan_whole (htidy : g.Tidy) (plan : Plan) (t : FileTree) :
    Whole g plan t (CommandLine.runPlan g plan t).1 (CommandLine.runPlan g plan t).2 := by
  rcases generateFrom_generates g plan.task t with
    ⟨calls, generated, t', hgenerates, hgenerate, hrecorded⟩
  have hsame := hgenerates.same htidy
  have hcalls := hgenerates.ordered htidy
  cases hgenerated : generated with
  | error e =>
      rw [hgenerated] at hgenerate
      rw [runPlan_of_error hgenerate]
      refine ⟨fun _ _ _ => hsame, ?_, _, _, _, hgenerate, hgenerated ▸ hrecorded, hcalls⟩
      intro path hpath
      cases hpath
  | ok o =>
      rw [hgenerated] at hgenerate
      rw [runPlan_of_ok hgenerate]
      have hfinishes := hgenerates.finishes htidy hgenerated
      unfold CommandLine.writeOutput
      cases hwrite : t'.write? plan.output o.text.toUTF8 with
      | none =>
          refine ⟨?_, ?_, _, _, _, hgenerate, hgenerated ▸ hrecorded, hcalls⟩
          · intro e he hother
            cases he
            exact absurd rfl (hother plan.output)
          · intro path hpath
            cases hpath
      | some written =>
          refine ⟨?_, ?_, _, _, _, hgenerate, hgenerated ▸ hrecorded, hcalls⟩
          · intro e he
            cases he
          · intro path hpath
            cases hpath
            rcases write?_spec hwrite with ⟨place, hfind, hentry, hchanges⟩
            have honly := (hsame.mono fun _ hno => hno.elim).trans hchanges
            exact ⟨rfl, o, place, hfinishes, hfind, hentry, honly⟩

end

section

variable {ps : Programs} {configDirectory : Option Path} {a : CommandLine.Arguments} {t : FileTree}

theorem runWith_of_no_plan {e : CommandLine.RunError}
    (h : CommandLine.settingsFor t configDirectory a = .error e) :
    CommandLine.runWith ps configDirectory a t = (.error e, t) := by
  simp only [CommandLine.runWith, bind, StateT.bind, get, getThe, MonadStateOf.get, StateT.get, pure, h]
  rfl

theorem runWith_of_plan {plan : Plan}
    (h : CommandLine.settingsFor t configDirectory a = .ok plan) :
    CommandLine.runWith ps configDirectory a t
      = CommandLine.runPlan (CommandLine.generatorOf ps plan) plan t := by
  simp only [CommandLine.runWith, bind, StateT.bind, get, getThe, MonadStateOf.get, StateT.get, pure, h]

end

/-- No run leaves a part of its output behind, or anything else. Without settings it changes nothing, and
otherwise it is whole, with a generator that leaves nothing behind: this is so of every command that writes
nothing outside the directory of the schema that it is given. -/
theorem run_is_whole :
    (∀ g : Generator (StateM FileTree), g.Tidy → ∀ plan t,
      Whole g plan t (CommandLine.runPlan g plan t).1 (CommandLine.runPlan g plan t).2) ∧
    ∀ (ps : Programs) (configDirectory : Option Path) (a : CommandLine.Arguments) (t : FileTree),
      (∀ e, CommandLine.settingsFor t configDirectory a = .error e →
        CommandLine.runWith ps configDirectory a t = (.error e, t)) ∧
      ∀ plan, CommandLine.settingsFor t configDirectory a = .ok plan →
        ps.Confines (GeneratorCommand.ofText plan.command) →
          Whole (CommandLine.generatorOf ps plan) plan t
            (CommandLine.runWith ps configDirectory a t).1
            (CommandLine.runWith ps configDirectory a t).2 := by
  refine ⟨fun g htidy plan t => runPlan_whole htidy plan t, fun ps configDirectory a t => ⟨?_, ?_⟩⟩
  · exact fun e he => runWith_of_no_plan he
  · intro plan hplan hconfines
    rw [runWith_of_plan hplan]
    exact runPlan_whole (Programs.generator_tidy hconfines _) plan t

/-! ## A command that writes beside the schema -/

namespace Sample.Beside

open Discovery Resolution

/-- A module with one model, and an earlier output. -/
def tree : FileTree where
  entries := [
    (["m.py"], .file "from pydantic import BaseModel as M\nclass X(M): pass\n".toUTF8),
    (["o"], .file ByteArray.empty), (["tmp"], .directory)]
  workingDirectory := []

/-- `-m m -o o --json2ts-cmd render`. -/
def arguments : CommandLine.Arguments where
  layer := { Settings.none with module := some "m", output := some "o", generator := some "render" }
  config := none
  verbose := false

def plan : Plan where
  task := ⟨"m", [], [], .standard⟩
  command := "render"
  timeout := none
  output := "o"

-- The paths of settings files are read character by character.
set_option maxRecDepth 100000 in
theorem load_tree : Settings.load tree none none = .ok Settings.none := by cbv

theorem settingsFor_arguments : CommandLine.settingsFor tree none arguments = .ok plan := by
  simp only [CommandLine.settingsFor, arguments, load_tree]
  rfl

/-! ### The schema -/

def key : Path := ["m.py"]

def source : SourceModule where
  key := key
  dotted := "m"
  packageDirectory := none
  content := TwoRoots.baseContent
  bindings := [("X", .classDef), ("M", .external "pydantic.BaseModel")]
  stars := []
  inScope := true

theorem traverse_key : traverse tree [[]] key = .ok [source] := by
  have hcontent : readContent tree key = .ok TwoRoots.baseContent :=
    readContent_of_read (by cbv) (by cbv) TwoRoots.read_base
  have habsent : findModule? tree [[]] ["pydantic"] = none := by cbv
  have hscope : packageTree tree key = [] := by cbv
  have hmodule : linkedModule tree (fun k => k == key || [].contains k) key TwoRoots.baseContent
      TwoRoots.baseLinks = source := by cbv
  have hvisit : (traversal tree [[]] key).visit key = .ok (source, []) := by
    rw [visit_of_links hcontent (TwoRoots.linksOf_base habsent), hscope, hmodule]
    rfl
  have hstart : Frontier.start tree.paths key = ⟨[[], ["o"], ["tmp"]], [], [(key, .entry)]⟩ := by cbv
  rw [traverse_eq, frontier_of_alone hscope, hstart, Frontier.explore_of_ok (by rfl) hvisit,
    Frontier.explore_of_nil (by rfl)]
  rfl

-- So are the names of modules.
set_option maxRecDepth 100000 in
theorem modulesOf_entry : modulesOf tree [] "m" = .ok [source] := by
  have hroots : searchRoots tree [] = [[]] := by cbv
  have hkey : entryKey? tree [[]] "m" = some key := by cbv
  have hall : rootsFor tree [[]] key = [[]] := by cbv
  simp only [modulesOf, hroots, hkey, hall, traverse_key]

def modelId : DefinitionId := ⟨"/m.py", "X"⟩

def model : Model := ⟨modelId, "X", "m.X", none, [], none⟩

def program : ClassifiedProgram := ⟨[source], [(modelId, .model)]⟩

theorem classified_source : Program.classified [source] = program := by cbv

theorem modelOf_modelId :
    program.modelOf modelId [] .empty = (some model, ⟨[], [(modelId, model)]⟩) := by
  have hresolve : program.resolve source "M" = .external "pydantic.BaseModel" := by cbv
  have hbases : ∀ base ∈ (TwoRoots.derived "M").bases, ∀ known,
      program.modelBase? source [] base known = (none, known) := by
    intro base hbase known
    obtain rfl : base = .name "M" := List.mem_singleton.1 hbase
    simp only [ClassifiedProgram.modelBase?, hresolve]
    rfl
  exact ClassifiedProgram.modelOf_of_class rfl rfl hbases rfl rfl

def catalog : Catalog := ⟨[model], [], []⟩

theorem locate_entry : locate tree [] "m" = .ok catalog := by
  have hscope : program.modules.scopeIds = [modelId] := by cbv
  have hkind : program.kind modelId = .model := rfl
  have hadded : [modelId].foldl (Collection.addInScope program) Collection.empty =
      ⟨catalog, [modelId], ⟨[], [(modelId, model)]⟩⟩ := by
    simp only [List.foldl_cons, List.foldl_nil, Collection.addInScope, hkind, StateT.run,
      Collection.empty, modelOf_modelId]
    rfl
  -- The model refers to nothing.
  have hrefs : catalog.models.flatMap Model.refs = [] := rfl
  have hcatalog : program.catalog = catalog := by
    rw [ClassifiedProgram.catalog, hscope, hadded]
    simp only [hrefs]
    rw [Collection.close]
  have hlocated : program.located? = some catalog := by
    rw [ClassifiedProgram.located?, hcatalog]
    rfl
  simp only [locate, modulesOf_entry, classified_source, hlocated]

theorem retains_model : Retains tree plan.task catalog [model] := ⟨locate_entry, by cbv⟩

def document : Schema.Document where
  draft := .draft2020
  root := [
    ("title", .str "_Aggregate_"), ("type", .str "object"),
    ("properties", .obj [("X", Schema.refTo .draft2020 "X")]), ("required", Json.strings ["X"]),
    ("additionalProperties", .bool false)]
  definitions := [
    ("X", .obj [
      ("title", .str "X"), ("type", .str "object"), ("properties", .obj []),
      ("additionalProperties", .bool false)])]
  inclusion := .aggregator
  aggregator := "_Aggregate_"

theorem synthesize_model : Schema.synthesize [model] catalog .standard = .ok document := by cbv

theorem schemaOf_plan : schemaOf tree plan.task = .ok (some document) :=
  schemaOf_eq_some_iff.2 ⟨catalog, [model], retains_model, List.cons_ne_nil _ _, synthesize_model⟩

/-! ### The command -/

def declarations : String :=
  "export interface _Aggregate_ \x7b\n  X: X;\n\x7d\nexport interface X \x7b\x7d\n"

def output : Declarations.Output := ⟨"export interface X \x7b\x7d\n"⟩

theorem finishDocument_declarations : finishDocument document declarations = .ok output := by
  have hremoved : Declarations.remove? "_Aggregate_" declarations.toList
      = some output.declarations.toList := by decide
  have haggregator : document.aggregator = "_Aggregate_" := rfl
  rw [finishDocument, haggregator, Declarations.finish, hremoved]
  simp only [String.ofList_toList]
  rfl

/-- A file beside the schema, whose place is an argument. -/
def fileBeside (args : List String) : Path :=
  ((Path.stepsOf (args.getD 1 "")).drop 1).dropLast ++ ["types.ts"]

/-- The one program writes declarations into a file, and prints them. -/
def programs : Programs where
  isInstalled program := program == "render"
  run t _ args _ :=
    .ok ⟨t.put (fileBeside args) (.file declarations.toUTF8), .ended (.exited 0),
      declarations.toUTF8, ByteArray.empty⟩

theorem fileBeside_render (t : FileTree) (d : Schema.Document) :
    fileBeside ([] ++ GeneratorCommand.renderArgs (Programs.schemaFileIn t.freshDirectory).display d)
      = t.freshDirectory ++ ["types.ts"] := by
  show ((Path.stepsOf (Programs.schemaFileIn t.freshDirectory).display).drop 1).dropLast ++ _ = _
  rw [Programs.stepsOf_schemaFile, List.drop_one, List.tail_cons, Programs.schemaFileIn,
    List.dropLast_concat]

theorem runOn_render (limit : Option Milliseconds) (t : FileTree) (d : Schema.Document) :
    programs.runOn ⟨"render", []⟩ limit t d =
      .ok ⟨(Programs.prepare t d).put (t.freshDirectory ++ ["types.ts"]) (.file declarations.toUTF8),
        .ended (.exited 0), declarations.toUTF8, ByteArray.empty⟩ := by
  simp only [Programs.runOn, programs, fileBeside_render]

/-- What is written stands in the directory of the schema. -/
theorem confines_render : programs.Confines ⟨"render", []⟩ := by
  intro limit t d r hrun
  rw [runOn_render] at hrun
  obtain rfl := Except.ok.inj hrun
  refine (put_changesOnly (List.concat_ne_nil _ _)).mono ?_
  rintro p rfl
  exact List.prefix_append _ _

theorem ofText_command : GeneratorCommand.ofText plan.command = ⟨"render", []⟩ := by cbv

theorem check_plan (t : FileTree) : (CommandLine.generatorOf programs plan).check t = (.ok (), t) := by
  simp only [CommandLine.generatorOf, Programs.generator, Programs.check, Programs.isAvailable,
    ofText_command]
  rfl

theorem render_plan :
    (CommandLine.generatorOf programs plan).render document tree = (.ok declarations, tree) := by
  have hplace : tree.isDirectory temporaryDirectory = true := by cbv
  have hfresh : tree.freshDirectory = ["tmp", "typebridge-0"] := by cbv
  have havailable : programs.check ⟨"render", []⟩ = .ok () := rfl
  simp only [CommandLine.generatorOf, Programs.generator, Programs.render, ofText_command, havailable,
    hplace, if_true, Programs.renderIn, runOn_render, GeneratorCommand.interpret_text]
  rw [Programs.prepare, Programs.schemaFileIn, hfresh]
  rfl

theorem generate_plan : generateFrom (CommandLine.generatorOf programs plan)
    (CommandLine.discover plan.task) tree = (.ok output, tree) := by
  have hdiscover := discover_eq plan.task tree
  rw [schemaOf_plan] at hdiscover
  rw [generateFrom_of_rendered (check_plan tree) hdiscover render_plan, finishDocument_declarations]

theorem write_output (content : ByteArray) :
    tree.write? "o" content = some (tree.put ["o"] (.file content)) := by
  have hsteps : stepsFrom tree.workingDirectory "o" = ([], ["o"]) := by cbv
  have hplace : tree.writablePlace? linkLimit [] ["o"] = some ["o"] := by cbv
  have hnamed : "o".isEmpty = false := by cbv
  simp only [write?, hsteps, hplace, hnamed]
  rfl

/-- What was rendered, without the aggregator, is all that a generation can come to. -/
theorem output_of_finishes {o : Declarations.Output}
    (h : Finishes (CommandLine.generatorOf programs plan) plan.task tree o) : o = output := by
  rcases h with ⟨_, catalog', retained, ⟨hlocate, hselect⟩, htext⟩
  obtain rfl : catalog = catalog' := Except.ok.inj (retains_model.1.symm.trans hlocate)
  obtain rfl : [model] = retained := Except.ok.inj (retains_model.2.symm.trans hselect)
  rw [if_neg (List.cons_ne_nil _ _)] at htext
  rcases htext with ⟨d, raw, hd, hraw, hfinish⟩
  obtain rfl : document = d := Except.ok.inj (synthesize_model.symm.trans hd)
  rw [render_plan] at hraw
  obtain rfl : declarations = raw := Except.ok.inj hraw
  exact Except.ok.inj (hfinish.symm.trans finishDocument_declarations)

end Sample.Beside

/-- The command is asked for the declarations of the model, and leaves a file in the directory of the schema.
The output has the declarations without the aggregator, and that file is gone. -/
theorem scratch_run_writes_output :
    CommandLine.settingsFor Sample.Beside.tree none Sample.Beside.arguments = .ok Sample.Beside.plan ∧
      Sample.Beside.programs.Confines (GeneratorCommand.ofText Sample.Beside.plan.command) ∧
      (CommandLine.generatorOf Sample.Beside.programs Sample.Beside.plan).Tidy ∧
      (CommandLine.runWith Sample.Beside.programs none Sample.Beside.arguments
        Sample.Beside.tree).1 = .ok "o" ∧
      (∃ place, FileTree.entry? (CommandLine.runWith Sample.Beside.programs none
          Sample.Beside.arguments Sample.Beside.tree).2 place
            = some (.file Sample.Beside.output.text.toUTF8) ∧
        ChangesOnly (· = place) Sample.Beside.tree (CommandLine.runWith Sample.Beside.programs none
          Sample.Beside.arguments Sample.Beside.tree).2) ∧
      ∃ calls, Ordered (CommandLine.generatorOf Sample.Beside.programs Sample.Beside.plan)
          Sample.Beside.plan.task Sample.Beside.tree calls ∧
        .render Sample.Beside.document ∈ calls := by
  have hconfines : Sample.Beside.programs.Confines
      (GeneratorCommand.ofText Sample.Beside.plan.command) := by
    rw [Sample.Beside.ofText_command]
    exact Sample.Beside.confines_render
  have htidy : (CommandLine.generatorOf Sample.Beside.programs Sample.Beside.plan).Tidy :=
    Programs.generator_tidy hconfines _
  have hresult : (CommandLine.runWith Sample.Beside.programs none Sample.Beside.arguments
      Sample.Beside.tree).1 = .ok "o" := by
    rw [runWith_of_plan Sample.Beside.settingsFor_arguments, runPlan_of_ok Sample.Beside.generate_plan]
    simp only [CommandLine.writeOutput, Sample.Beside.plan, Sample.Beside.write_output]
  have hwhole := (run_is_whole.2 Sample.Beside.programs none Sample.Beside.arguments
    Sample.Beside.tree).2 _ Sample.Beside.settingsFor_arguments hconfines
  have hplan := run_is_whole.1 _ htidy Sample.Beside.plan Sample.Beside.tree
  rcases hwhole.written _ hresult with ⟨_, o, place, hfinishes, _, hentry, honly⟩
  rcases hplan.recorded with ⟨_, _, calls, _, _, hordered⟩
  obtain rfl := Sample.Beside.output_of_finishes hfinishes
  have hrendered := (hordered.renders Sample.Beside.document).2
    ⟨by rw [Sample.Beside.check_plan], _, _, Sample.Beside.retains_model, List.cons_ne_nil _ _,
      Sample.Beside.synthesize_model⟩
  exact ⟨Sample.Beside.settingsFor_arguments, hconfines, htidy, hresult, ⟨place, hentry, honly⟩, calls,
    hordered, hrendered⟩

end WireTypes
