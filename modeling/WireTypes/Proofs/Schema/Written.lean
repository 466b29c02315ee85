import WireTypes.Proofs.Schema.Instances

/-!
# Written — the schemas that a synthesis writes

What is written for a type depends on the context and on the names that the whole synthesis claims, but
on nothing else in the state. `Written c t ty j` says that `j` is the schema of `ty`, where `t` is the
state in the end.

- `State.Grows` is what every step does to the state: names and enumerations are only added, and an
  enumeration is added under a name that it owns;
- `Yields x P`: every successful run of `x` grows the state, and its result satisfies `P` in every later
  state;
- `objectSchema_yields`, `modelSchemas_yields`: what is written is `Written`;
- `synthesize_ok`: what a document consists of.
-/

namespace WireTypes
namespace Schema
namespace Synthesis

/-! ## The relation -/

mutual

inductive Written (c : Context) (t : State) : FieldType → Json → Prop
  | any : Written c t .any (.obj [])
  | scalar {ty : FieldType} (kind : Json.Kind) :
      ty.scalarKind? = some kind → ty.format? = none → Written c t ty (typed kind.word)
  | formatted {ty : FieldType} {format : String} :
      ty.format? = some format → Written c t ty (formatted format)
  | list {item : FieldType} {j : Json} :
      Written c t item j →
      Written c t (.list item) (.obj [("type", .str "array"), ("items", j)])
  | set {item : FieldType} {j : Json} :
      Written c t item j →
      Written c t (.set item)
        (.obj [("type", .str "array"), ("items", j), ("uniqueItems", .bool true)])
  | variadicNil :
      Written c t (.tuple [] true) (.obj [("type", .str "array"), ("items", .obj [])])
  | variadicCons {item : FieldType} {rest : List FieldType} {j : Json} :
      Written c t item j →
      Written c t (.tuple (item :: rest) true) (.obj [("type", .str "array"), ("items", j)])
  | tuple {items : List FieldType} {js : List Json} :
      WrittenAll c t items js → Written c t (.tuple items false) (tupleOf c.options.draft js)
  | dictOfAny {key : FieldType} :
      isStringKey c.catalog key = true →
      Written c t (.dict key .any)
        (.obj [("type", .str "object"), ("additionalProperties", .bool true)])
  | dict {key value : FieldType} {j : Json} :
      isStringKey c.catalog key = true → Written c t value j →
      Written c t (.dict key value) (.obj [("type", .str "object"), ("additionalProperties", j)])
  | optional {inner : FieldType} {j : Json} :
      Written c t inner j → Written c t (.optional inner) (anyOf [j, typed "null"])
  | union {members : List FieldType} {js : List Json} :
      WrittenAll c t members js → Written c t (.union members) (anyOf js)
  | literal {values : List Json} : Written c t (.literal values) (.obj (valuesSchema values))
  | retained {id : DefinitionId} {name : String} :
      c.retained.lookup id = some name → Written c t (.ref id) (refTo c.options.draft name)
  /-- An enumeration owns the name under which it is defined. -/
  | enum {id : DefinitionId} {e : Enumeration} :
      c.retained.lookup id = none → c.catalog.enum? id = some e →
      t.owners.lookup e.name = some id → e.name ∈ t.enums.map Prod.fst →
      Written c t (.ref id) (refTo c.options.draft e.name)
  | inlined {id : DefinitionId} {m : Model} {j : Json} :
      c.retained.lookup id = none → c.catalog.enum? id = none → c.catalog.model? id = some m →
      WrittenModel c t false m j → Written c t (.ref id) j

inductive WrittenAll (c : Context) (t : State) : List FieldType → List Json → Prop
  | nil : WrittenAll c t [] []
  | cons {ty : FieldType} {types : List FieldType} {j : Json} {js : List Json} :
      Written c t ty j → WrittenAll c t types js → WrittenAll c t (ty :: types) (j :: js)

inductive WrittenField (c : Context) (t : State) : Field → Json → Prop
  | optional {f : Field} {inner : FieldType} {j : Json} :
      f.type = .optional inner → Written c t inner j →
      WrittenField c t f (decorate c.options f true j)
  | plain {f : Field} {j : Json} :
      f.type.isOptional = false → Written c t f.type j →
      WrittenField c t f (decorate c.options f false j)

inductive WrittenFields (c : Context) (t : State) : List Field → List (String × Json) → Prop
  | nil : WrittenFields c t [] []
  | cons {f : Field} {fields : List Field} {j : Json} {properties : List (String × Json)} :
      WrittenField c t f j → WrittenFields c t fields properties →
      WrittenFields c t (f :: fields) ((propertyName c.options f, j) :: properties)

inductive WrittenModel (c : Context) (t : State) : Bool → Model → Json → Prop
  | object {titled : Bool} {m : Model} {properties : List (String × Json)} :
      WrittenFields c t m.fields properties →
      WrittenModel c t titled m (.obj (objectMembers c.options m titled properties))

end

/-! ## What a step does to the state -/

/-- Every enumeration that was met stands under its own name, and its identity owns that name. -/
def State.Sound (c : Context) (s : State) : Prop :=
  ∀ n j, (n, j) ∈ s.enums →
    ∃ e ∈ c.catalog.enums, e.name = n ∧ enumSchema e = j ∧ s.owners.lookup n = some e.id

structure State.Grows (c : Context) (s t : State) : Prop where
  owners : s.owners <+: t.owners
  enums : s.enums <+: t.enums
  sound : s.Sound c → t.Sound c

namespace State.Grows

variable {c : Context} {s t u : State}

theorem refl (s : State) : s.Grows c s := ⟨List.prefix_rfl, List.prefix_rfl, id⟩

theorem trans (h : s.Grows c t) (h' : t.Grows c u) : s.Grows c u :=
  ⟨h.owners.trans h'.owners, h.enums.trans h'.enums, fun hs => h'.sound (h.sound hs)⟩

theorem lookup_owners (h : s.Grows c t) {name : String} {id : DefinitionId}
    (hs : s.owners.lookup name = some id) : t.owners.lookup name = some id := by
  rcases h.owners with ⟨rest, hrest⟩
  rw [← hrest, List.lookup_append, hs]
  rfl

theorem mem_enum_names (h : s.Grows c t) {name : String} (hs : name ∈ s.enums.map Prod.fst) :
    name ∈ t.enums.map Prod.fst :=
  (h.enums.map Prod.fst).subset hs

end State.Grows

/-! ## Successful runs -/

theorem run_bind_ok {α β : Type} {x : Build α} {f : α → Build β} {s u : State} {b : β}
    (h : (x >>= f).run s = .ok (b, u)) :
    ∃ a t, x.run s = .ok (a, t) ∧ (f a).run t = .ok (b, u) := by
  rw [StateT.run_bind] at h
  cases hx : x.run s with
  | error e =>
      rw [hx] at h
      cases h
  | ok r =>
      rw [hx] at h
      exact ⟨r.1, r.2, rfl, h⟩

/-- Every successful run grows the state, and its result is right in every later state. -/
def Yields (c : Context) {α : Type} (x : Build α) (P : State → α → Prop) : Prop :=
  ∀ s a t, x.run s = .ok (a, t) → s.Grows c t ∧ ∀ u, t.Grows c u → P u a

namespace Yields

variable {c : Context} {α β : Type} {P : State → α → Prop} {Q : State → β → Prop}

theorem pure {a : α} (h : ∀ t, P t a) : Yields c (Pure.pure a : Build α) P := by
  intro s b t hrun
  cases hrun
  exact ⟨.refl s, fun u _ => h u⟩

theorem throw (e : SynthesisError) : Yields c (MonadExcept.throw e : Build α) P := by
  intro s a t hrun
  cases hrun

theorem bind {x : Build α} {f : α → Build β} (hx : Yields c x P)
    (hf : ∀ a, Yields c (f a) fun t b => P t a → Q t b) : Yields c (x >>= f) Q := by
  intro s b u hrun
  rcases run_bind_ok hrun with ⟨a, t, hxrun, hfrun⟩
  have ha := hx s a t hxrun
  have hb := hf a t b u hfrun
  -- What the first run gave holds in the state after it, and in all later ones.
  refine ⟨ha.1.trans hb.1, ?_⟩
  intro v hv
  exact hb.2 v hv (ha.2 v (hb.1.trans hv))

theorem weaken {P' : State → α → Prop} {x : Build α} (hx : Yields c x P)
    (h : ∀ t a, P t a → P' t a) : Yields c x P' := by
  intro s a t hrun
  have ha := hx s a t hrun
  exact ⟨ha.1, fun u hu => h u a (ha.2 u hu)⟩

end Yields

/-! ## Names -/

theorem claim_run (name : String) (id : DefinitionId) (model : String) (field : Option String)
    (s : State) :
    (claim name id model field).run s =
      match s.owners.lookup name with
      | some owner =>
          if owner = id then .ok ((), s) else .error ⟨model, field, .nameClash name owner id⟩
      | none => .ok ((), { s with owners := s.owners ++ [(name, id)] }) := by
  unfold claim
  simp only [StateT.run_bind, StateT.run_get, pure_bind]
  cases s.owners.lookup name with
  | none => rfl
  | some owner =>
      by_cases h : owner = id
      · simp only [h, if_true]
        rfl
      · simp only [h, if_false]
        rfl

/-- A new owner leaves those of other names. -/
theorem lookup_append_owner {owners : List (String × DefinitionId)} {name other : String}
    {id owner : DefinitionId} (h : owners.lookup other = some owner) :
    (owners ++ [(name, id)]).lookup other = some owner := by
  rw [List.lookup_append, h]
  rfl

theorem grows_of_owner (c : Context) (s : State) (name : String) (id : DefinitionId) :
    s.Grows c { s with owners := s.owners ++ [(name, id)] } := by
  refine ⟨List.prefix_append _ _, List.prefix_rfl, ?_⟩
  intro hs n j hmem
  rcases hs n j hmem with ⟨e, he, hname, hschema, howner⟩
  exact ⟨e, he, hname, hschema, lookup_append_owner howner⟩

/-- A claimed name belongs to its definition from then on. -/
theorem claim_yields (c : Context) (name : String) (id : DefinitionId) (model : String)
    (field : Option String) :
    Yields c (claim name id model field) fun t _ => t.owners.lookup name = some id := by
  intro s a t hrun
  rw [claim_run] at hrun
  -- The name has the owner that it should have, or it had none before.
  cases hown : s.owners.lookup name with
  | some owner =>
      rw [hown] at hrun
      by_cases hid : owner = id
      · simp only [hid, if_true] at hrun
        cases hrun
        exact ⟨.refl s, fun u hu => hu.lookup_owners (hid ▸ hown)⟩
      · simp only [hid, if_false] at hrun
        cases hrun
  | none =>
      rw [hown] at hrun
      cases hrun
      refine ⟨grows_of_owner c s name id, fun u hu => hu.lookup_owners ?_⟩
      show (s.owners ++ [(name, id)]).lookup name = some id
      rw [List.lookup_append, hown]
      simp

/-- The state after an enumeration was met. -/
def State.meet (s : State) (e : Enumeration) : State :=
  if s.enums.any (·.1 == e.name) then s
  else { s with enums := s.enums ++ [(e.name, enumSchema e)] }

theorem mem_enums_meet (s : State) (e : Enumeration) :
    e.name ∈ (s.meet e).enums.map Prod.fst := by
  unfold State.meet
  split
  · next h => simpa [List.any_eq_true] using h
  · simp

/-- An enumeration is met under a name that it owns. -/
theorem grows_meet {c : Context} {s : State} {e : Enumeration} (he : e ∈ c.catalog.enums)
    (howner : s.owners.lookup e.name = some e.id) : s.Grows c (s.meet e) := by
  unfold State.meet
  split
  · exact .refl s
  · refine ⟨List.prefix_rfl, List.prefix_append _ _, ?_⟩
    intro hs n j hmem
    -- The new entry is that of the enumeration itself.
    rcases List.mem_append.1 hmem with hold | hnew
    · exact hs n j hold
    · have heq : (n, j) = (e.name, enumSchema e) := List.mem_singleton.1 hnew
      cases heq
      exact ⟨e, he, rfl, rfl, howner⟩

theorem enum_yields {c : Context} {id : DefinitionId} {e : Enumeration}
    (h : c.catalog.enum? id = some e) (model : String) (field : Option String) :
    Yields c
      (do
        claim e.name id model field
        modify fun s => s.meet e)
      fun t _ => t.owners.lookup e.name = some id ∧ e.name ∈ t.enums.map Prod.fst := by
  intro s a u hrun
  -- The enumeration was found in the catalog by its identity.
  have he : e ∈ c.catalog.enums := List.mem_of_find?_eq_some h
  have hid : e.id = id := by simpa using List.find?_some h
  rcases run_bind_ok hrun with ⟨_, t, hclaim, hmodify⟩
  have hclaimed := claim_yields c e.name id model field s _ t hclaim
  have howner := hclaimed.2 t (.refl t)
  have hu : u = t.meet e := by
    cases hmodify
    rfl
  have hgrows : t.Grows c u := by
    rw [hu]
    exact grows_meet he (by rw [howner, hid])
  refine ⟨hclaimed.1.trans hgrows, ?_⟩
  intro v hv
  refine ⟨hv.lookup_owners (hgrows.lookup_owners howner), hv.mem_enum_names ?_⟩
  rw [hu]
  exact mem_enums_meet t e

/-! ## References and types -/

section

variable {c : Context} {inline : Model → Build Json} {stack : List DefinitionId} {p : Place}

theorem reference_yields
    (hinline : ∀ m, Yields c (inline m) fun t j => WrittenModel c t false m j) (id : DefinitionId) :
    Yields c (reference c inline stack p id) fun t j => Written c t (.ref id) j := by
  -- A name that is retained comes first, then an enumeration, and then a model that is written in place.
  unfold reference
  cases hretained : c.retained.lookup id with
  | some name => exact .pure fun t => .retained hretained
  | none =>
      cases henum : c.catalog.enum? id with
      | some e =>
          have hmet := (enum_yields henum p.model (some p.field)).bind
            (f := fun _ => Pure.pure (refTo c.options.draft e.name))
            (Q := fun t j => Written c t (.ref id) j)
            fun _ => .pure fun t ht => .enum hretained henum ht.1 ht.2
          simpa only [State.meet, bind_assoc] using hmet
      | none =>
          cases hmodel : c.catalog.model? id with
          | none => exact .throw _
          | some m =>
              by_cases hstack : stack.contains id
              · simp only [hstack, if_true]
                exact .throw _
              · simp only [hstack]
                exact (hinline m).weaken fun t j hj => .inlined hretained henum hmodel hj

mutual

theorem typeSchema_yields
    (hinline : ∀ m, Yields c (inline m) fun t j => WrittenModel c t false m j) :
    ∀ ty, Yields c (typeSchema c inline stack p ty) fun t j => Written c t ty j
  | .any => .pure fun _ => .any
  | .null => .pure fun _ => .scalar .null rfl rfl
  | .bool => .pure fun _ => .scalar .boolean rfl rfl
  | .int => .pure fun _ => .scalar .integer rfl rfl
  | .float => .pure fun _ => .scalar .number rfl rfl
  | .str => .pure fun _ => .scalar .string rfl rfl
  | .decimal => .pure fun _ => .scalar .string rfl rfl
  | .bytes => .pure fun _ => .formatted rfl
  | .formatted _ => .pure fun _ => .formatted rfl
  | .list item => (typeSchema_yields hinline item).bind fun _ => .pure fun _ h => .list h
  | .set item => (typeSchema_yields hinline item).bind fun _ => .pure fun _ h => .set h
  | .tuple [] true => .pure fun _ => .variadicNil
  | .tuple (item :: _) true =>
      (typeSchema_yields hinline item).bind fun _ => .pure fun _ h => .variadicCons h
  | .tuple items false => by
      rw [typeSchema]
      exact (typeSchemas_yields hinline items).bind fun _ => .pure fun _ h => .tuple h
  | .dict key value => by
      unfold typeSchema
      by_cases hkey : isStringKey c.catalog key = true
      · simp only [hkey, if_true]
        cases value with
        | any => exact .pure fun _ => .dictOfAny hkey
        | _ => exact (typeSchema_yields hinline _).bind fun _ => .pure fun _ h => .dict hkey h
      · simp only [hkey]
        exact .throw _
  | .optional inner => (typeSchema_yields hinline inner).bind fun _ => .pure fun _ h => .optional h
  | .union members =>
      (typeSchemas_yields hinline members).bind fun _ => .pure fun _ h => .union h
  | .literal _ => .pure fun _ => .literal
  | .ref id => reference_yields hinline id
  | .unresolved _ => .throw _

theorem typeSchemas_yields
    (hinline : ∀ m, Yields c (inline m) fun t j => WrittenModel c t false m j) :
    ∀ types, Yields c (typeSchemas c inline stack p types) fun t js => WrittenAll c t types js
  | [] => .pure fun _ => .nil
  | ty :: rest =>
      (typeSchema_yields hinline ty).bind fun _ =>
        (typeSchemas_yields hinline rest).bind fun _ => .pure fun _ hrest h => .cons h hrest

end

/-! ## Fields and models -/

theorem fieldSchema_yields
    (hinline : ∀ m, Yields c (inline m) fun t j => WrittenModel c t false m j) (model : String)
    (f : Field) :
    Yields c (fieldSchema c inline stack model f) fun t j => WrittenField c t f j := by
  unfold fieldSchema
  split
  · next inner hty =>
      exact (typeSchema_yields hinline inner).bind fun _ => .pure fun _ h => .optional hty h
  · next hplain =>
      -- The type is not optional, since the case before would have applied.
      have hopt : f.type.isOptional = false := by
        cases hty : f.type with
        | optional inner => exact absurd hty (hplain inner)
        | _ => rfl
      exact (typeSchema_yields hinline f.type).bind fun _ => .pure fun _ h => .plain hopt h

theorem properties_yields
    (hinline : ∀ m, Yields c (inline m) fun t j => WrittenModel c t false m j) (model : String) :
    ∀ fields,
      Yields c (properties c inline stack model fields) fun t props => WrittenFields c t fields props
  | [] => .pure fun _ => .nil
  | f :: rest =>
      (fieldSchema_yields hinline model f).bind fun _ =>
        (properties_yields hinline model rest).bind fun _ => .pure fun _ hrest h => .cons h hrest

end

theorem objectSchema_yields (c : Context) (depth : Nat) :
    ∀ (titled : Bool) (stack : List DefinitionId) (m : Model),
      Yields c (objectSchema c titled stack m depth) fun t j => WrittenModel c t titled m j := by
  -- The schemas of inlined models are written one level deeper.
  induction depth with
  | zero =>
      intro titled stack m
      exact .throw _
  | succ depth ih =>
      intro titled stack m
      refine Yields.bind (properties_yields ?_ m.name m.fields) fun _ => .pure fun _ h => .object h
      intro inner
      exact ih false (inner.id :: stack) inner

/-! ## The whole document -/

theorem claimAll_yields (c : Context) :
    ∀ models, Yields c (claimAll models) fun t _ => ∀ m ∈ models, t.owners.lookup m.name = some m.id
  | [] => .pure fun _ m hm => absurd hm List.not_mem_nil
  | m :: rest =>
      (claim_yields c m.name m.id m.name none).bind fun _ =>
        (claimAll_yields c rest).weaken fun t _ hrest hm m' hm' => by
          rcases List.mem_cons.1 hm' with heq | hmem
          · rw [heq]
            exact hm
          · exact hrest m' hmem

/-- The schemas of the models, one after the other. -/
def Defines (c : Context) (t : State) (models : List Model) (schemas : List (String × Json)) : Prop :=
  List.Forall₂ (fun m s => s.1 = m.name ∧ WrittenModel c t true m s.2) models schemas

theorem modelSchemas_yields (c : Context) :
    ∀ models, Yields c (modelSchemas c models) fun t schemas => Defines c t models schemas
  | [] => .pure fun _ => .nil
  | m :: rest =>
      (objectSchema_yields c _ true [] m).bind fun _ =>
        (modelSchemas_yields c rest).bind fun _ => .pure fun _ hrest h => .cons ⟨rfl, h⟩ hrest

end Synthesis

open Synthesis

/-- The context of a synthesis. -/
def contextOf (models : List Model) (catalog : Catalog) (o : Options) : Context :=
  { catalog, options := o, retained := (models.map fun m => (m.id, m.name)).reverse }

/-- The document of the schemas that were written and of the state in the end. -/
def documentOf (models : List Model) (o : Options) (schemas : List (String × Json)) (t : State) :
    Document :=
  let aggregator := titleName o.aggregatorName (t.owners.map Prod.fst)
  { draft := o.draft
    root := aggregateRoot aggregator (models.map (·.name)) o.draft o.inclusion
    definitions := definitionsOf schemas t.enums
    inclusion := o.inclusion
    aggregator }

/-- All names of models are claimed, and then their schemas are written. -/
def writingOf (models : List Model) (catalog : Catalog) (o : Options) :
    Build (List (String × Json)) := do
  claimAll models
  modelSchemas (contextOf models catalog o) models

/-- After the schemas are written nothing can fail. -/
theorem synthesize_eq (models : List Model) (catalog : Catalog) (o : Options) :
    synthesize models catalog o =
      ((writingOf models catalog o).run ⟨[], []⟩).map fun r => documentOf models o r.1 r.2 := by
  have hdoc : synthesize models catalog o = (do
      let r ← (writingOf models catalog o).run ⟨[], []⟩
      return documentOf models o r.1 r.2) := rfl
  rw [hdoc]
  cases (writingOf models catalog o).run ⟨[], []⟩ <;> rfl

theorem synthesize_run {models : List Model} {catalog : Catalog} {o : Options} {doc : Document}
    (h : synthesize models catalog o = .ok doc) :
    ∃ schemas t, (writingOf models catalog o).run ⟨[], []⟩ = .ok (schemas, t) ∧
      doc = documentOf models o schemas t := by
  rw [synthesize_eq] at h
  cases hrun : (writingOf models catalog o).run ⟨[], []⟩ with
  | error e =>
      rw [hrun] at h
      cases h
  | ok r =>
      rw [hrun] at h
      cases h
      exact ⟨r.1, r.2, rfl, rfl⟩

/-- What was written: the schemas of the models, and the enumerations under the names that they own. -/
theorem writingOf_run {models : List Model} {catalog : Catalog} {o : Options} {t : State}
    {schemas : List (String × Json)}
    (h : (writingOf models catalog o).run ⟨[], []⟩ = .ok (schemas, t)) :
    t.Sound (contextOf models catalog o) ∧
      (∀ m ∈ models, t.owners.lookup m.name = some m.id) ∧
      Defines (contextOf models catalog o) t models schemas := by
  have hyields : Yields (contextOf models catalog o) (writingOf models catalog o)
      fun t schemas => (∀ m ∈ models, t.owners.lookup m.name = some m.id) ∧
        Defines (contextOf models catalog o) t models schemas :=
    (claimAll_yields _ models).bind fun _ =>
      (modelSchemas_yields _ models).weaken fun _ _ hdef hclaim => ⟨hclaim, hdef⟩
  have hrun := hyields _ _ _ h
  have hnil : State.Sound (contextOf models catalog o) ⟨[], []⟩ := by
    intro n j hmem
    cases hmem
  exact ⟨hrun.1.sound hnil, (hrun.2 _ (.refl _)).1, (hrun.2 _ (.refl _)).2⟩

/-- What a document consists of: the schemas of the models and those of the enumerations that were
met. -/
theorem synthesize_ok {models : List Model} {catalog : Catalog} {o : Options} {doc : Document}
    (h : synthesize models catalog o = .ok doc) :
    ∃ (t : State) (schemas : List (String × Json)),
      t.Sound (contextOf models catalog o) ∧
      (∀ m ∈ models, t.owners.lookup m.name = some m.id) ∧
      Defines (contextOf models catalog o) t models schemas ∧
      doc = documentOf models o schemas t := by
  rcases synthesize_run h with ⟨schemas, t, hrun, hdoc⟩
  rcases writingOf_run hrun with ⟨hsound, howners, hdefines⟩
  exact ⟨t, schemas, hsound, howners, hdefines, hdoc⟩

end Schema
end WireTypes
