import WireTypes.Proofs.Schema.Congruence

/-!
# Success — which catalogs have a document

A synthesis claims names, and writes models inside each other. It succeeds as long as every name has one
owner and no model comes back to itself; the depth up to which models are written inside each other is
never reached.

- `Completes I x`: from states with the invariant `I` every run of `x` succeeds and keeps it;
- `objectSchema_of_depth`: a greater depth changes nothing, with or without a cycle of models;
- `objectSchema_completes`: a model is written if its parts ask for nothing that cannot be had;
- `belongs_of_run`: what a document defines are its models and the enumerations that it refers to;
- `synthesize_ok_iff`: a synthesis succeeds exactly if its models and its catalog are `Synthesizable`.
-/

namespace WireTypes
namespace Schema

open Synthesis

/-! ## Depth -/

/-- The models that are being written: models of the catalog, each once. -/
structure Nested (c : Context) (stack : List DefinitionId) : Prop where
  distinct : stack.Nodup
  known : ∀ id ∈ stack, id ∈ c.catalog.allModels.map (·.id)

namespace Nested

variable {c : Context} {stack : List DefinitionId}

theorem nil : Nested c [] := ⟨List.nodup_nil, fun _ h => absurd h List.not_mem_nil⟩

theorem cons (h : Nested c stack) {id : DefinitionId} {m : Model}
    (hmodel : c.catalog.model? id = some m) (hnew : id ∉ stack) : Nested c (m.id :: stack) := by
  refine ⟨List.nodup_cons.2 ⟨id_of_model? hmodel ▸ hnew, h.distinct⟩, ?_⟩
  intro x hx
  rcases List.mem_cons.1 hx with rfl | hx
  · exact List.mem_map_of_mem (model?_mem hmodel)
  · exact h.known x hx

/-- There are no more of them than the catalog has models. -/
theorem length_le (h : Nested c stack) : stack.length ≤ c.catalog.allModels.length := by
  have hsubperm := h.distinct.subperm h.known
  simpa using hsubperm.length_le

end Nested

theorem objectSchema_succ {c : Context} (depth : Nat) : ∀ (titled : Bool) (stack : List DefinitionId)
    (m : Model), Nested c stack → c.catalog.allModels.length < depth + stack.length →
      objectSchema c titled stack m (depth + 1) = objectSchema c titled stack m depth := by
  -- The depth that is left and the models that are being written are more than there are models.
  induction depth with
  | zero =>
      intro titled stack m hnested hroom
      have hlength := hnested.length_le
      omega
  | succ depth ih =>
      intro titled stack m hnested hroom
      have hagree : Agree c stack
          (fun inner => objectSchema c false (inner.id :: stack) inner (depth + 1))
          fun inner => objectSchema c false (inner.id :: stack) inner depth := by
        intro id inner hmodel hnew
        refine ih false (inner.id :: stack) inner (hnested.cons hmodel hnew) ?_
        simp only [List.length_cons]
        omega
      have hproperties := properties_congr (.refl c) hagree m.name m.fields
      rw [objectSchema, hproperties]
      rfl

/-- The depth is never reached: a greater one changes nothing. -/
theorem objectSchema_of_depth {c : Context} {m : Model} {depth : Nat}
    (h : c.catalog.allModels.length < depth) : objectSchema c true [] m depth = modelSchema c m := by
  have hle : c.catalog.allModels.length + 1 ≤ depth := h
  induction depth, hle using Nat.le_induction with
  | base => rfl
  | succ depth hle ih =>
      have hsucc := objectSchema_succ depth true [] m .nil (Nat.lt_of_succ_le hle)
      exact hsucc.trans (ih hle)

/-! ## Runs that succeed -/

/-- Every run from a state with the invariant succeeds and keeps the invariant. -/
def Completes {α : Type} (I : State → Prop) (x : Build α) : Prop :=
  ∀ s, I s → ∃ a t, x.run s = .ok (a, t) ∧ I t

namespace Completes

variable {α β : Type} {I : State → Prop}

theorem pure (a : α) : Completes I (Pure.pure a : Build α) := fun s hs => ⟨a, s, rfl, hs⟩

theorem bind {x : Build α} {f : α → Build β} (hx : Completes I x) (hf : ∀ a, Completes I (f a)) :
    Completes I (x >>= f) := by
  intro s hs
  rcases hx s hs with ⟨a, t, hrun, ht⟩
  rcases hf a t ht with ⟨b, u, hrest, hu⟩
  refine ⟨b, u, ?_, hu⟩
  rw [StateT.run_bind, hrun]
  exact hrest

end Completes

/-! ## Names with one owner -/

section

variable (models : List Model) (catalog : Catalog)

/-- The definitions that a document defines under a name. -/
def Claims (name : String) (id : DefinitionId) : Prop :=
  (∃ m ∈ models, m.name = name ∧ m.id = id) ∨
    ∃ e, EmitsEnum models catalog e ∧ e.name = name ∧ e.id = id

/-- Nothing but definitions of the document claimed a name, and nothing but enumerations of the document
was met. -/
structure Belongs (s : State) : Prop where
  owners : ∀ name id, s.owners.lookup name = some id → Claims models catalog name id
  enums : ∀ d ∈ s.enums, ∃ e, EmitsEnum models catalog e ∧ d = (e.name, enumSchema e)

end

section

variable {models : List Model} {catalog : Catalog} {o : Options}

theorem Synthesizable.claims_unique (h : Synthesizable models catalog) {name : String}
    {id id' : DefinitionId} (hid : Claims models catalog name id)
    (hid' : Claims models catalog name id') : id = id' := by
  rcases hid with ⟨m, hm, rfl, rfl⟩ | ⟨e, he, rfl, rfl⟩ <;>
    rcases hid' with ⟨m', hm', hname, rfl⟩ | ⟨e', he', hname, rfl⟩
  · exact h.names m hm m' hm' hname.symm
  · exact absurd hname (h.enumsApart e' he' m hm)
  · exact absurd hname.symm (h.enumsApart e he m' hm')
  · exact h.enumNames e e' he he' hname.symm

theorem claim_completes (h : Synthesizable models catalog) {name : String} {id : DefinitionId}
    (hclaims : Claims models catalog name id) (model : String) (field : Option String) :
    Completes (Belongs models catalog) (claim name id model field) := by
  intro s hs
  rw [claim_run]
  cases hown : s.owners.lookup name with
  | some owner =>
      have hid : owner = id := h.claims_unique (hs.owners name owner hown) hclaims
      simp only [hid, if_true]
      exact ⟨(), s, rfl, hs⟩
  | none =>
      refine ⟨(), _, rfl, ?_, hs.enums⟩
      intro other owner hlookup
      rw [List.lookup_append] at hlookup
      cases hold : s.owners.lookup other with
      | some known =>
          rw [hold] at hlookup
          exact hs.owners other owner (hold.trans hlookup)
      | none =>
          have hlast : List.lookup other [(name, id)] = some owner := by simpa [hold] using hlookup
          -- The name is the one that was claimed now.
          cases hsame : other == name with
          | false => simp [List.lookup, hsame] at hlast
          | true =>
              have hname : other = name := eq_of_beq hsame
              have hid : id = owner := by simpa [List.lookup, hsame] using hlast
              rw [hname, ← hid]
              exact hclaims

theorem Belongs.meet {s : State} (hs : Belongs models catalog s) {e : Enumeration}
    (he : EmitsEnum models catalog e) : Belongs models catalog (s.meet e) := by
  unfold State.meet
  split
  · exact hs
  · refine ⟨hs.owners, ?_⟩
    intro d hd
    rcases List.mem_append.1 hd with hold | hnew
    · exact hs.enums d hold
    · exact ⟨e, he, List.mem_singleton.1 hnew⟩

/-! ## Types and fields -/

variable {inline : Model → Build Json} {stack : List DefinitionId} {p : Place} {m : Model}

/-- The models in place of references of the model can be written, and none of them is being written. -/
def Expands (models : List Model) (catalog : Catalog) (stack : List DefinitionId)
    (inline : Model → Build Json) (m : Model) : Prop :=
  ∀ inner, Inlines models catalog m inner →
    inner.id ∉ stack ∧ Completes (Belongs models catalog) (inline inner)

theorem reference_completes (h : Synthesizable models catalog) (hm : Emitted models catalog m)
    (hinline : Expands models catalog stack inline m)
    {id : DefinitionId} (hid : m.Emits (.ref id)) :
    Completes (Belongs models catalog) (reference (contextOf models catalog o) inline stack p id) := by
  unfold reference
  cases hretained : (contextOf models catalog o).retained.lookup id with
  | some name => exact .pure _
  | none =>
      have hfree : ¬ IsRetained models id := lookup_retained_eq_none_iff.1 hretained
      cases henum : (contextOf models catalog o).catalog.enum? id with
      | some e =>
          have hemits : EmitsEnum models catalog e := ⟨m, id, hm, hid, hfree, henum⟩
          have hclaims : Claims models catalog e.name id := Or.inr ⟨e, hemits, rfl, id_of_enum? henum⟩
          have hmeet : Completes (Belongs models catalog) (modify fun s => s.meet e : Build PUnit) := by
            intro s hs
            exact ⟨(), s.meet e, rfl, hs.meet hemits⟩
          exact (claim_completes h hclaims p.model (some p.field)).bind fun _ =>
            hmeet.bind fun _ => .pure _
      | none =>
          cases hmodel : (contextOf models catalog o).catalog.model? id with
          | none =>
              rcases h.known m hm id hid with hisRetained | hknown
              · exact absurd hisRetained hfree
              · rcases exists_of_mem_ids hknown with hsome | hsome
                · rw [show catalog.enum? id = none from henum] at hsome
                  cases hsome
                · rw [show catalog.model? id = none from hmodel] at hsome
                  cases hsome
          | some inner =>
              have hinner := hinline inner ⟨id, hid, hfree, henum, hmodel⟩
              have hnew : id ∉ stack := id_of_model? hmodel ▸ hinner.1
              simp only [List.contains_iff_mem, hnew]
              exact hinner.2

mutual

/-- The parts of a type that are parts of an emitted model are written. -/
theorem typeSchema_completes (h : Synthesizable models catalog) (hm : Emitted models catalog m)
    (hinline : Expands models catalog stack inline m) :
    ∀ ty : FieldType, (∀ part, ty.Emits part → m.Emits part) →
      Completes (Belongs models catalog) (typeSchema (contextOf models catalog o) inline stack p ty)
  | .any, _ => .pure _
  | .null, _ => .pure _
  | .bool, _ => .pure _
  | .int, _ => .pure _
  | .float, _ => .pure _
  | .str, _ => .pure _
  | .decimal, _ => .pure _
  | .bytes, _ => .pure _
  | .formatted _, _ => .pure _
  | .list item, hparts =>
      (typeSchema_completes h hm hinline item fun part hpart => hparts part (.list hpart)).bind
        fun _ => .pure _
  | .set item, hparts =>
      (typeSchema_completes h hm hinline item fun part hpart => hparts part (.set hpart)).bind
        fun _ => .pure _
  | .tuple [] true, _ => .pure _
  | .tuple (item :: _) true, hparts =>
      (typeSchema_completes h hm hinline item fun part hpart => hparts part (.first hpart)).bind
        fun _ => .pure _
  | .tuple items false, hparts => by
      rw [typeSchema]
      exact (typeSchemas_completes h hm hinline items fun ty hty part hpart =>
        hparts part (.item hty hpart)).bind fun _ => .pure _
  | .dict key value, hparts => by
      have hkey : isStringKey catalog key = true :=
        isStringKey_iff.2 (h.keys m hm key value (hparts _ .self))
      have hvalue := typeSchema_completes h hm hinline value fun part hpart => hparts part (.value hpart)
      unfold typeSchema
      simp only [show isStringKey (contextOf models catalog o).catalog key = true from hkey, if_true]
      cases value with
      | any => exact .pure _
      | _ => exact hvalue.bind fun _ => .pure _
  | .optional inner, hparts =>
      (typeSchema_completes h hm hinline inner fun part hpart => hparts part (.optional hpart)).bind
        fun _ => .pure _
  | .union members, hparts =>
      (typeSchemas_completes h hm hinline members fun ty hty part hpart =>
        hparts part (.member hty hpart)).bind fun _ => .pure _
  | .literal _, _ => .pure _
  | .ref _, hparts => reference_completes h hm hinline (hparts _ .self)
  | .unresolved name, hparts => absurd (hparts _ .self) (h.resolved m hm name)

theorem typeSchemas_completes (h : Synthesizable models catalog) (hm : Emitted models catalog m)
    (hinline : Expands models catalog stack inline m) :
    ∀ types : List FieldType, (∀ ty ∈ types, ∀ part, ty.Emits part → m.Emits part) →
      Completes (Belongs models catalog) (typeSchemas (contextOf models catalog o) inline stack p types)
  | [], _ => .pure _
  | ty :: rest, hparts =>
      (typeSchema_completes h hm hinline ty (hparts ty List.mem_cons_self)).bind fun _ =>
        (typeSchemas_completes h hm hinline rest fun x hx =>
          hparts x (List.mem_cons_of_mem _ hx)).bind fun _ => .pure _

end

theorem fieldSchema_completes (h : Synthesizable models catalog) (hm : Emitted models catalog m)
    (hinline : Expands models catalog stack inline m)
    (model : String) {f : Field} (hf : f ∈ m.fields) :
    Completes (Belongs models catalog) (fieldSchema (contextOf models catalog o) inline stack model f) := by
  have hparts : ∀ part, f.type.Emits part → m.Emits part := fun part hpart => ⟨f, hf, hpart⟩
  unfold fieldSchema
  split
  · next inner hty =>
      refine (typeSchema_completes h hm hinline inner fun part hpart => hparts part ?_).bind
        fun _ => .pure _
      rw [hty]
      exact .optional hpart
  · exact (typeSchema_completes h hm hinline f.type hparts).bind fun _ => .pure _

theorem properties_completes (h : Synthesizable models catalog) (hm : Emitted models catalog m)
    (hinline : Expands models catalog stack inline m)
    (model : String) : ∀ fields : List Field, (∀ f ∈ fields, f ∈ m.fields) →
      Completes (Belongs models catalog)
        (properties (contextOf models catalog o) inline stack model fields)
  | [], _ => .pure _
  | f :: rest, hfields =>
      (fieldSchema_completes h hm hinline model (hfields f List.mem_cons_self)).bind fun _ =>
        (properties_completes h hm hinline model rest fun g hg =>
          hfields g (List.mem_cons_of_mem _ hg)).bind fun _ => .pure _

/-! ## Models -/

/-- The models that are being written lead to the one that is written next. -/
structure Leads (models : List Model) (catalog : Catalog) (stack : List DefinitionId) (m : Model) :
    Prop where
  emitted : Emitted models catalog m
  above : ∀ id ∈ stack, ∃ outer, catalog.model? id = some outer ∧
    Relation.ReflTransGen (Inlines models catalog) outer m

namespace Leads

theorem start (hm : m ∈ models) : Leads models catalog [] m :=
  ⟨.retained hm, fun _ h => absurd h List.not_mem_nil⟩

/-- A model is not written inside itself, as it would lead back to itself. -/
theorem not_mem (h : Synthesizable models catalog) (hleads : Leads models catalog stack m)
    {inner : Model} (hinner : Inlines models catalog m inner) : inner.id ∉ stack := by
  intro hmem
  rcases hleads.above inner.id hmem with ⟨outer, houter, hway⟩
  have hsame : outer = inner := Option.some.inj (houter.symm.trans hinner.model?)
  rw [hsame] at hway
  exact h.acyclic inner (.inlined hleads.emitted hinner) (.tail' hway hinner)

theorem step (hleads : Leads models catalog stack m) {inner : Model}
    (hinner : Inlines models catalog m inner) : Leads models catalog (inner.id :: stack) inner := by
  refine ⟨.inlined hleads.emitted hinner, ?_⟩
  intro id hid
  rcases List.mem_cons.1 hid with rfl | hid
  · exact ⟨inner, hinner.model?, .refl⟩
  · rcases hleads.above id hid with ⟨outer, houter, hway⟩
    exact ⟨outer, houter, hway.tail hinner⟩

end Leads

theorem objectSchema_completes (h : Synthesizable models catalog) (depth : Nat) :
    ∀ (titled : Bool) (stack : List DefinitionId) (m : Model), Leads models catalog stack m →
      Nested (contextOf models catalog o) stack →
      catalog.allModels.length < depth + stack.length →
      Completes (Belongs models catalog)
        (objectSchema (contextOf models catalog o) titled stack m depth) := by
  induction depth with
  | zero =>
      intro titled stack m _ hnested hroom
      have hlength := hnested.length_le
      simp only [contextOf] at hlength
      omega
  | succ depth ih =>
      intro titled stack m hleads hnested hroom
      refine (properties_completes h hleads.emitted ?_ m.name m.fields fun _ hf => hf).bind
        fun _ => .pure _
      intro inner hinner
      have hnew : inner.id ∉ stack := hleads.not_mem h hinner
      refine ⟨hnew, ih false (inner.id :: stack) inner (hleads.step hinner)
        (hnested.cons hinner.model? hnew) ?_⟩
      simp only [List.length_cons]
      omega

theorem claimAll_completes (h : Synthesizable models catalog) :
    ∀ rest : List Model, (∀ m ∈ rest, m ∈ models) →
      Completes (Belongs models catalog) (claimAll rest)
  | [], _ => .pure _
  | m :: rest, hrest =>
      (claim_completes h (Or.inl ⟨m, hrest m List.mem_cons_self, rfl, rfl⟩) m.name none).bind fun _ =>
        claimAll_completes h rest fun x hx => hrest x (List.mem_cons_of_mem _ hx)

theorem modelSchemas_completes (h : Synthesizable models catalog) :
    ∀ rest : List Model, (∀ m ∈ rest, m ∈ models) →
      Completes (Belongs models catalog) (modelSchemas (contextOf models catalog o) rest)
  | [], _ => .pure _
  | m :: rest, hrest => by
      have hfirst : Completes (Belongs models catalog) (modelSchema (contextOf models catalog o) m) :=
        objectSchema_completes h _ true [] m (.start (hrest m List.mem_cons_self)) .nil
          (Nat.lt_succ_self _)
      exact hfirst.bind fun _ => (modelSchemas_completes h rest fun x hx =>
        hrest x (List.mem_cons_of_mem _ hx)).bind fun _ => .pure _

end

/-! ## Documents -/

section

variable {models : List Model} {catalog : Catalog} {o : Options}

/-- Whatever has a document is written, and what is met meanwhile belongs to the document. -/
theorem writingOf_completes (h : Synthesizable models catalog) :
    ∃ schemas t, (writingOf models catalog o).run ⟨[], []⟩ = .ok (schemas, t) ∧
      Belongs models catalog t := by
  have hcompletes : Completes (Belongs models catalog) (writingOf models catalog o) :=
    (claimAll_completes h models fun _ hm => hm).bind fun _ =>
      modelSchemas_completes h models fun _ hm => hm
  have hstart : Belongs models catalog ⟨[], []⟩ := by
    refine ⟨?_, fun _ hd => absurd hd List.not_mem_nil⟩
    intro name id hlookup
    cases hlookup
  exact hcompletes _ hstart

/-- The enumerations that are defined are those of references that are written. -/
theorem belongs_of_run {schemas : List (String × Json)} {t : State}
    (hrun : (writingOf models catalog o).run ⟨[], []⟩ = .ok (schemas, t)) :
    Belongs models catalog t := by
  have hdoc : synthesize models catalog o = .ok (documentOf models o schemas t) := by
    rw [synthesize_eq, hrun]
    rfl
  rcases writingOf_completes (o := o) (synthesizable_of_ok hdoc) with ⟨schemas', t', hrun', hbelongs⟩
  cases hrun.symm.trans hrun'
  exact hbelongs

end

/-- A synthesis has a document exactly if its models and its catalog are synthesizable, whatever the
options. It always ends: no model is written so deep inside others that the depth would be reached. -/
theorem synthesize_ok_iff (models : List Model) (catalog : Catalog) (o : Options) :
    ((∃ doc, synthesize models catalog o = .ok doc) ↔ Synthesizable models catalog) ∧
      ∀ (m : Model) (depth : Nat), catalog.allModels.length < depth →
        objectSchema (contextOf models catalog o) true [] m depth =
          modelSchema (contextOf models catalog o) m := by
  refine ⟨⟨?_, ?_⟩, fun _ _ hdepth => objectSchema_of_depth hdepth⟩
  · rintro ⟨doc, hdoc⟩
    exact synthesizable_of_ok hdoc
  · intro h
    rcases writingOf_completes (o := o) h with ⟨schemas, t, hrun, _⟩
    refine ⟨documentOf models o schemas t, ?_⟩
    rw [synthesize_eq, hrun]
    rfl

end Schema
end WireTypes
