import WireTypes.Proofs.Schema.FreeNames
import WireTypes.Proofs.Schema.Positions
import WireTypes.Proofs.Schema.Preservation
import WireTypes.Proofs.Selection

/-!
# Namespace — the names that a document defines

A document defines the retained models and the enumerations that its references name, and nothing else.
Enumerations are met deep inside types, also in models that are written in place.

- `Tracks`: the enumerations that were met so far have different names, which belong to no retained model
  and are mentioned by what was written;
- `MeetsIn c x R`: a run of `x` keeps track, where its result mentions the new names;
- `modelSchemas_meetsIn`: so the enumerations that were met are those that the definitions refer to;
- `definition_names_exact`: the names of a document.
-/

namespace WireTypes
namespace Schema

open Synthesis

/-! ## Keeping track of enumerations -/

/-- The names of enumerations are different, are not those of retained models, and are mentioned. -/
structure Tracks (c : Context) (mentioned : String → Prop) (s : State) : Prop where
  distinct : (s.enums.map Prod.fst).Nodup
  owned : ∀ name ∈ s.enums.map Prod.fst,
    ∃ id, s.owners.lookup name = some id ∧ c.retained.lookup id = none
  mentioned : ∀ name ∈ s.enums.map Prod.fst, mentioned name

def Meets (c : Context) {α : Type} (before : String → Prop) (x : Build α)
    (after : α → String → Prop) : Prop :=
  ∀ s a t, x.run s = .ok (a, t) → Tracks c before s → Tracks c (after a) t

/-- The result of a run mentions the enumerations that it adds. -/
def MeetsIn (c : Context) {α : Type} (x : Build α) (mentions : α → String → Prop) : Prop :=
  ∀ before, Meets c before x fun a name => before name ∨ mentions a name

/-- A schema refers to a definition by its name. -/
def Mentions (c : Context) (j : Json) (name : String) : Prop :=
  Refers j (c.options.draft.reference name)

section

variable {c : Context} {α β γ : Type}

theorem Tracks.weaken {mentioned mentioned' : String → Prop} {s : State} (h : Tracks c mentioned s)
    (hweaken : ∀ name, mentioned name → mentioned' name) : Tracks c mentioned' s :=
  ⟨h.distinct, h.owned, fun name hname => hweaken name (h.mentioned name hname)⟩

namespace MeetsIn

variable {x : Build α} {y : Build β} {R : α → String → Prop} {S : β → String → Prop}

theorem pure (a : α) : MeetsIn c (Pure.pure a : Build α) R := by
  intro before s b t hrun h
  cases hrun
  exact h.weaken fun _ hname => Or.inl hname

theorem throw (e : SynthesisError) : MeetsIn c (MonadExcept.throw e : Build α) R := by
  intro before s a t hrun
  cases hrun

theorem map {g : α → β} (hx : MeetsIn c x R) (hg : ∀ a name, R a name → S (g a) name) :
    MeetsIn c (x >>= fun a => Pure.pure (g a)) S := by
  intro before s b t hrun h
  rcases run_bind_ok hrun with ⟨a, u, hxrun, hpure⟩
  cases hpure
  exact (hx before s a _ hxrun h).weaken fun name => Or.imp_right (hg a name)

/-- What the first run mentions and what the second one mentions is mentioned by the result. -/
theorem map₂ {Q : γ → String → Prop} {g : α → β → γ} (hx : MeetsIn c x R) (hy : MeetsIn c y S)
    (hleft : ∀ a b name, R a name → Q (g a b) name)
    (hright : ∀ a b name, S b name → Q (g a b) name) :
    MeetsIn c (x >>= fun a => y >>= fun b => Pure.pure (g a b)) Q := by
  intro before s r t hrun h
  rcases run_bind_ok hrun with ⟨a, u, hxrun, hrest⟩
  rcases run_bind_ok hrest with ⟨b, v, hyrun, hpure⟩
  cases hpure
  have hfirst := hx before s a u hxrun h
  refine (hy _ u b _ hyrun hfirst).weaken ?_
  rintro name ((hbefore | hname) | hname)
  · exact Or.inl hbefore
  · exact Or.inr (hleft a b name hname)
  · exact Or.inr (hright a b name hname)

end MeetsIn

/-! ## Enumerations that are met -/

theorem claim_meets (before : String → Prop) (name : String) (id : DefinitionId) (model : String)
    (field : Option String) :
    Meets c before (claim name id model field) fun _ => before := by
  intro s a t hrun h
  rw [claim_run] at hrun
  cases hown : s.owners.lookup name with
  | some owner =>
      by_cases hid : owner = id
      · simp only [hown, hid, if_true] at hrun
        cases hrun
        exact h
      · simp [hown, hid] at hrun
  | none =>
      simp only [hown] at hrun
      cases hrun
      refine ⟨h.distinct, fun n hn => ?_, h.mentioned⟩
      rcases h.owned n hn with ⟨owner, howner, hfree⟩
      exact ⟨owner, lookup_append_owner howner, hfree⟩

theorem meet_tracks {before : String → Prop} {s : State} {e : Enumeration} {id : DefinitionId}
    (h : Tracks c before s) (howner : s.owners.lookup e.name = some id)
    (hfree : c.retained.lookup id = none) :
    Tracks c (fun name => before name ∨ name = e.name) (s.meet e) := by
  unfold State.meet
  split
  · exact h.weaken fun _ hname => Or.inl hname
  · next hnew =>
      have hfresh : e.name ∉ s.enums.map Prod.fst := by
        intro hmem
        rcases List.mem_map.1 hmem with ⟨entry, hentry, hname⟩
        exact hnew (List.any_eq_true.2 ⟨entry, hentry, by simp [hname]⟩)
      have hnames : (s.enums ++ [(e.name, enumSchema e)]).map Prod.fst =
          s.enums.map Prod.fst ++ [e.name] := by simp
      refine ⟨?_, ?_, ?_⟩
      · rw [hnames, ← List.concat_eq_append]
        exact h.distinct.concat hfresh
      · intro name hname
        rw [hnames] at hname
        rcases List.mem_append.1 hname with hold | hlast
        · exact h.owned name hold
        · rw [List.mem_singleton.1 hlast]
          exact ⟨id, howner, hfree⟩
      · intro name hname
        rw [hnames] at hname
        rcases List.mem_append.1 hname with hold | hlast
        · exact Or.inl (h.mentioned name hold)
        · exact Or.inr (List.mem_singleton.1 hlast)

/-- An enumeration is met where a reference to it is written. -/
theorem enum_meetsIn {id : DefinitionId} {e : Enumeration} (hfree : c.retained.lookup id = none)
    (model : String) (field : Option String) :
    MeetsIn c (do
      claim e.name id model field
      modify fun s => s.meet e
      return refTo c.options.draft e.name) (Mentions c) := by
  intro before s j u hrun h
  rcases run_bind_ok hrun with ⟨_, t, hclaim, hrest⟩
  rcases run_bind_ok hrest with ⟨_, v, hmodify, hpure⟩
  have howner := (claim_yields c e.name id model field s _ t hclaim).2 t (.refl t)
  have hclaimed := claim_meets before e.name id model field s _ t hclaim h
  cases hmodify
  cases hpure
  refine (meet_tracks hclaimed howner hfree).weaken ?_
  rintro name (hbefore | rfl)
  · exact Or.inl hbefore
  · exact Or.inr (refers_refTo_iff.2 rfl)

/-! ## Types and fields -/

theorem Refers.isObject {j : Json} {target : String} (h : Refers j target) : IsObject j := by
  rcases refers_iff.1 h with href | ⟨k, hk, _⟩
  · cases j with
    | obj members => exact ⟨members, rfl⟩
    | _ => simp [Json.get?] at href
  · cases j with
    | obj members => exact ⟨members, rfl⟩
    | _ => simp [innerSchemas] at hk

section

variable {inline : Model → Build Json} {stack : List DefinitionId} {p : Place}

theorem reference_meetsIn
    (hinline : ∀ m ∈ c.catalog.allModels, MeetsIn c (inline m) (Mentions c)) (id : DefinitionId) :
    MeetsIn c (reference c inline stack p id) (Mentions c) := by
  unfold reference
  cases hretained : c.retained.lookup id with
  | some name => exact .pure _
  | none =>
      cases c.catalog.enum? id with
      | some e => exact enum_meetsIn hretained p.model (some p.field)
      | none =>
          cases hmodel : c.catalog.model? id with
          | none => exact .throw _
          | some m =>
              by_cases hstack : stack.contains id
              · simp only [hstack, if_true]
                exact .throw _
              · simp only [hstack]
                exact hinline m (List.mem_of_find?_eq_some hmodel)

mutual

theorem typeSchema_meetsIn
    (hinline : ∀ m ∈ c.catalog.allModels, MeetsIn c (inline m) (Mentions c)) :
    ∀ ty : FieldType, MeetsIn c (typeSchema c inline stack p ty) (Mentions c)
  | .any => .pure _
  | .null => .pure _
  | .bool => .pure _
  | .int => .pure _
  | .float => .pure _
  | .str => .pure _
  | .decimal => .pure _
  | .bytes => .pure _
  | .formatted _ => .pure _
  | .list item => (typeSchema_meetsIn hinline item).map fun _ _ h => (refers_arrayOf_iff h.isObject).2 h
  | .set item => (typeSchema_meetsIn hinline item).map fun _ _ h => (refers_setOf_iff h.isObject).2 h
  | .tuple [] true => .pure _
  | .tuple (item :: _) true =>
      (typeSchema_meetsIn hinline item).map fun _ _ h => (refers_arrayOf_iff h.isObject).2 h
  | .tuple items false => by
      rw [typeSchema]
      exact (typeSchemas_meetsIn hinline items).map fun _ _ h => refers_tupleOf_iff.2 h
  | .dict key value => by
      unfold typeSchema
      by_cases hkey : isStringKey c.catalog key = true
      · simp only [hkey, if_true]
        cases value with
        | any => exact .pure _
        | _ => exact (typeSchema_meetsIn hinline _).map fun _ _ h => refers_mapOf_iff.2 h
      · simp only [hkey]
        exact .throw _
  | .optional inner => (typeSchema_meetsIn hinline inner).map fun _ _ h =>
      refers_anyOf_iff.2 ⟨_, List.mem_cons_self, h⟩
  | .union members => (typeSchemas_meetsIn hinline members).map fun _ _ h => refers_anyOf_iff.2 h
  | .literal _ => .pure _
  | .ref id => reference_meetsIn hinline id
  | .unresolved _ => .throw _

theorem typeSchemas_meetsIn
    (hinline : ∀ m ∈ c.catalog.allModels, MeetsIn c (inline m) (Mentions c)) :
    ∀ types : List FieldType, MeetsIn c (typeSchemas c inline stack p types)
      fun js name => ∃ j ∈ js, Mentions c j name
  | [] => .pure _
  | ty :: rest =>
      (typeSchema_meetsIn hinline ty).map₂ (typeSchemas_meetsIn hinline rest)
        (fun _ _ _ h => ⟨_, List.mem_cons_self, h⟩)
        fun _ _ _ ⟨j, hj, h⟩ => ⟨j, List.mem_cons_of_mem _ hj, h⟩

end

theorem fieldSchema_meetsIn
    (hinline : ∀ m ∈ c.catalog.allModels, MeetsIn c (inline m) (Mentions c)) (model : String)
    (f : Field) : MeetsIn c (fieldSchema c inline stack model f) (Mentions c) := by
  unfold fieldSchema
  split
  · next inner _ =>
      exact (typeSchema_meetsIn hinline inner).map fun _ _ h => (refers_decorate_iff h.isObject).2 h
  · exact (typeSchema_meetsIn hinline f.type).map fun _ _ h => (refers_decorate_iff h.isObject).2 h

theorem properties_meetsIn
    (hinline : ∀ m ∈ c.catalog.allModels, MeetsIn c (inline m) (Mentions c)) (model : String) :
    ∀ fields : List Field, MeetsIn c (properties c inline stack model fields)
      fun props name => ∃ p ∈ props, Mentions c p.2 name
  | [] => .pure _
  | f :: rest =>
      (fieldSchema_meetsIn hinline model f).map₂ (properties_meetsIn hinline model rest)
        (fun _ _ _ h => ⟨_, List.mem_cons_self, h⟩)
        fun _ _ _ ⟨p, hp, h⟩ => ⟨p, List.mem_cons_of_mem _ hp, h⟩

end

/-! ## Models -/

/-- Where property names are different, every property stays in the schema of its model, and with it the
enumerations that it mentions. -/
theorem objectSchema_meetsIn
    (hdistinct : ∀ m ∈ c.catalog.allModels, (m.fields.map (propertyName c.options)).Nodup)
    (depth : Nat) : ∀ (titled : Bool) (stack : List DefinitionId) (m : Model),
      (m.fields.map (propertyName c.options)).Nodup →
      MeetsIn c (objectSchema c titled stack m depth) (Mentions c) := by
  induction depth with
  | zero =>
      intro titled stack m _
      exact .throw _
  | succ depth ih =>
      intro titled stack m hnames before s j t hrun h
      rcases run_bind_ok hrun with ⟨props, u, hprops, hpure⟩
      cases hpure
      have hwritten := properties_yields
        (fun inner => objectSchema_yields c depth false (inner.id :: stack) inner) m.name m.fields
        s props _ hprops
      have hkeys : props.map Prod.fst = m.fields.map (propertyName c.options) :=
        (hwritten.2 _ (.refl _)).map_fst
      have hkept : Json.insertAll [] props = props := by
        apply Json.insertAll_nil_of_nodup
        rw [hkeys]
        exact hnames
      have htracks := properties_meetsIn
        (fun inner hinner => ih false (inner.id :: stack) inner (hdistinct inner hinner))
        m.name m.fields before s props _ hprops h
      refine htracks.weaken fun name => Or.imp_right fun hmentions => ?_
      unfold Mentions
      rw [refers_objectMembers_iff, hkept]
      exact hmentions

theorem modelSchemas_meetsIn
    (hdistinct : ∀ m ∈ c.catalog.allModels, (m.fields.map (propertyName c.options)).Nodup) :
    ∀ models : List Model, (∀ m ∈ models, (m.fields.map (propertyName c.options)).Nodup) →
      MeetsIn c (modelSchemas c models) fun schemas name => ∃ d ∈ schemas, Mentions c d.2 name
  | [], _ => .pure _
  | m :: rest, h =>
      (objectSchema_meetsIn hdistinct _ true [] m (h m List.mem_cons_self)).map₂
        (modelSchemas_meetsIn hdistinct rest fun x hx => h x (List.mem_cons_of_mem _ hx))
        (fun _ _ _ hfirst => ⟨_, List.mem_cons_self, hfirst⟩)
        fun _ _ _ ⟨d, hd, hrest⟩ => ⟨d, List.mem_cons_of_mem _ hd, hrest⟩

theorem claimAll_meets (before : String → Prop) : ∀ models : List Model,
    Meets c before (claimAll models) fun _ => before
  | [] => fun _ _ _ hrun h => by
      cases hrun
      exact h
  | m :: rest => fun s a t hrun h => by
      rcases run_bind_ok hrun with ⟨_, u, hclaim, hrest⟩
      exact claimAll_meets before rest u a t hrest
        (claim_meets before m.name m.id m.name none s _ u hclaim h)

end

/-! ## Documents -/

section

variable {models : List Model} {catalog : Catalog} {o : Options} {t : State}
  {schemas : List (String × Json)}

theorem Synthesis.Defines.map_fst {c : Context} (h : Defines c t models schemas) :
    schemas.map Prod.fst = models.map (·.name) := by
  induction h with
  | nil => rfl
  | cons hfirst _ ih => simp [hfirst.1, ih]

/-- Different names are defined in order: those of models, and those of enumerations behind them. -/
theorem definitionsOf_of_nodup {enums : List (String × Json)}
    (h : (schemas.map Prod.fst ++ enums.map Prod.fst).Nodup) :
    definitionsOf schemas enums = schemas ++ enums.mergeSort (fun a b => decide (a.1 ≤ b.1)) ∧
      ((definitionsOf schemas enums).map Prod.fst).Nodup := by
  rcases List.nodup_append.1 h with ⟨hmodels, _, _⟩
  have hsorted : ((schemas ++ enums.mergeSort fun a b => decide (a.1 ≤ b.1)).map Prod.fst).Nodup := by
    have hperm := ((List.mergeSort_perm enums fun a b => decide (a.1 ≤ b.1)).map Prod.fst).append_left
      (schemas.map Prod.fst)
    rw [List.map_append]
    exact hperm.nodup_iff.2 h
  have hdefinitions : definitionsOf schemas enums =
      schemas ++ enums.mergeSort fun a b => decide (a.1 ≤ b.1) := by
    unfold definitionsOf
    rw [Json.insertAll_nil_of_nodup hmodels, Json.insertAll_of_nodup hsorted]
  exact ⟨hdefinitions, hdefinitions ▸ hsorted⟩

theorem exists_retained (catalog : Catalog) (o : Options) {m : Model} (hm : m ∈ models) :
    ∃ name, (contextOf models catalog o).retained.lookup m.id = some name := by
  cases hlookup : (contextOf models catalog o).retained.lookup m.id with
  | some name => exact ⟨name, rfl⟩
  | none =>
      -- The model is in the table of retained models.
      have hmem : (m.id, m.name) ∈ (contextOf models catalog o).retained :=
        List.mem_reverse.2 (List.mem_map.2 ⟨m, hm, rfl⟩)
      have hne := List.lookup_eq_none_iff.1 hlookup (m.id, m.name) hmem
      simp at hne

/-- No enumeration that was met has the name of a retained model: the name would have two owners. -/
theorem Tracks.apart {mentioned : String → Prop}
    (h : Tracks (contextOf models catalog o) mentioned t)
    (howners : ∀ m ∈ models, t.owners.lookup m.name = some m.id) :
    ∀ name ∈ t.enums.map Prod.fst, name ∉ models.map (·.name) := by
  intro name hname hmodel
  rcases List.mem_map.1 hmodel with ⟨m, hm, rfl⟩
  rcases h.owned m.name hname with ⟨id, howner, hfree⟩
  rw [howners m hm] at howner
  rcases exists_retained catalog o hm with ⟨retained, hretained⟩
  rw [Option.some.inj howner, hfree] at hretained
  cases hretained

/-- In the end, every enumeration that was met is mentioned by the definition of a model. -/
theorem writingOf_tracks
    (hdistinct : ∀ m, m ∈ models ∨ m ∈ catalog.allModels → (m.fields.map (propertyName o)).Nodup)
    (hrun : (writingOf models catalog o).run ⟨[], []⟩ = .ok (schemas, t)) :
    Tracks (contextOf models catalog o)
      (fun name => ∃ d ∈ schemas, Refers d.2 (o.draft.reference name)) t := by
  have hstart : Tracks (contextOf models catalog o) (fun _ => False) ⟨[], []⟩ := by
    refine ⟨List.nodup_nil, ?_, ?_⟩
    · exact fun _ h => absurd h List.not_mem_nil
    · exact fun _ h => absurd h List.not_mem_nil
  rcases run_bind_ok hrun with ⟨_, u, hclaim, hschemas⟩
  have hclaimed := claimAll_meets _ models _ _ u hclaim hstart
  have hmet := modelSchemas_meetsIn (c := contextOf models catalog o)
    (fun m hm => hdistinct m (Or.inr hm)) models (fun m hm => hdistinct m (Or.inl hm)) _ u schemas t
    hschemas hclaimed
  refine hmet.weaken ?_
  rintro name (hfalse | hmentions)
  · exact hfalse.elim
  · exact hmentions

theorem nodup_names (hnames : (models.map (·.name)).Nodup)
    (hdefines : Defines (contextOf models catalog o) t models schemas)
    (howners : ∀ m ∈ models, t.owners.lookup m.name = some m.id) {mentioned : String → Prop}
    (htracks : Tracks (contextOf models catalog o) mentioned t) :
    (schemas.map Prod.fst ++ t.enums.map Prod.fst).Nodup := by
  rw [hdefines.map_fst]
  refine List.nodup_append.2 ⟨hnames, htracks.distinct, ?_⟩
  intro a ha b hb hab
  exact htracks.apart howners b hb (hab ▸ ha)

/-- A reference in a definition is written for a name of the document. -/
theorem named_of_refers (hsound : t.Sound (contextOf models catalog o))
    (hdefines : Defines (contextOf models catalog o) t models schemas) {d : String × Json}
    {target : String} (hd : d ∈ schemas ∨ d ∈ t.enums) (hrefers : Refers d.2 target) :
    ∃ name, Named (contextOf models catalog o) t name ∧ target = o.draft.reference name := by
  rcases d with ⟨key, j⟩
  rcases hd with hd | hd
  · rcases hdefines.written hd with ⟨m, _, _, hwritten⟩
    exact hwritten.refers target hrefers
  · -- The definition of an enumeration has no references.
    rcases hsound key j hd with ⟨e, _, _, rfl, _⟩
    exact absurd hrefers (not_refers_enumSchema e)

theorem Named.mem {name : String} (h : Named (contextOf models catalog o) t name) :
    name ∈ models.map (·.name) ∨ name ∈ t.enums.map Prod.fst := by
  cases h with
  | retained hretained =>
      rcases mem_of_lookup_retained hretained with ⟨m, hm, _, hname⟩
      exact Or.inl (List.mem_map.2 ⟨m, hm, hname⟩)
  | enum _ _ _ hmet => exact Or.inr hmet

/-- The enumerations that were met are those that definitions refer to by a name of no model. -/
theorem mem_enums_iff (hsound : t.Sound (contextOf models catalog o))
    (howners : ∀ m ∈ models, t.owners.lookup m.name = some m.id)
    (hdefines : Defines (contextOf models catalog o) t models schemas)
    (htracks : Tracks (contextOf models catalog o)
      (fun name => ∃ d ∈ schemas, Refers d.2 (o.draft.reference name)) t) (name : String) :
    name ∈ t.enums.map Prod.fst ↔ name ∉ models.map (·.name) ∧
      ∃ d, (d ∈ schemas ∨ d ∈ t.enums) ∧ Refers d.2 (o.draft.reference name) := by
  constructor
  · intro hname
    rcases htracks.mentioned name hname with ⟨d, hd, hrefers⟩
    exact ⟨htracks.apart howners name hname, d, Or.inl hd, hrefers⟩
  · rintro ⟨hfree, d, hd, hrefers⟩
    rcases named_of_refers hsound hdefines hd hrefers with ⟨other, hnamed, htarget⟩
    have hother : name = other := Draft.reference_injective htarget
    rw [← hother] at hnamed
    exact hnamed.mem.resolve_left hfree

theorem owned_names (hsound : t.Sound (contextOf models catalog o))
    (howners : ∀ m ∈ models, t.owners.lookup m.name = some m.id) {name : String}
    (hname : name ∈ models.map (·.name) ∨ name ∈ t.enums.map Prod.fst) :
    name ∈ t.owners.map Prod.fst := by
  have hlookup : ∃ id, t.owners.lookup name = some id := by
    rcases hname with hmodel | henum
    · rcases List.mem_map.1 hmodel with ⟨m, hm, rfl⟩
      exact ⟨m.id, howners m hm⟩
    · rcases List.mem_map.1 henum with ⟨⟨key, j⟩, hd, rfl⟩
      rcases hsound key j hd with ⟨e, _, _, _, howner⟩
      exact ⟨e.id, howner⟩
  rcases hlookup with ⟨id, hid⟩
  rcases List.lookup_eq_some_iff.1 hid with ⟨front, back, hsplit, _⟩
  simp [hsplit]

theorem lookup_title (title : String) (names : List String) (d : Draft) (inclusion : Inclusion) :
    Json.lookup "title" (aggregateRoot title names d inclusion) = some (.str title) := by
  simp [aggregateRoot, Json.lookup]

/-- The root refers to every model and requires it. -/
theorem lookup_aggregator {names : List String} (hnames : names.Nodup) (title : String) (d : Draft) :
    Json.lookup "properties" (aggregateRoot title names d .aggregator) =
        some (.obj (names.map fun name => (name, refTo d name))) ∧
      Json.lookup "required" (aggregateRoot title names d .aggregator) =
        if names.isEmpty then none else some (Json.strings names) := by
  have hkeys : ((names.map fun name => (name, refTo d name)).map Prod.fst).Nodup := by
    simpa [Function.comp_def] using hnames
  constructor
  · simp [aggregateRoot, Json.lookup, Json.insertAll_nil_of_nodup hkeys]
  · cases names <;> simp [aggregateRoot, Json.lookup]

end

/-- The names of a document: those of the retained models in order, and behind them, in strict order,
those of the enumerations that its references name. Every reference names a definition, the root refers
to every model once, and its own title is another name. -/
theorem definition_names_exact {all models : List Model} {excluded : List String} {catalog : Catalog}
    {o : Options} {doc : Document}
    (hdistinct : ∀ m, m ∈ models ∨ m ∈ catalog.allModels → (m.fields.map (propertyName o)).Nodup)
    (hselect : select all excluded = .ok models) (hdoc : synthesize models catalog o = .ok doc) :
    ∃ enumNames : List String,
      doc.definitions.map Prod.fst = models.map (·.name) ++ enumNames ∧
      (doc.definitions.map Prod.fst).Nodup ∧ enumNames.Pairwise (· < ·) ∧
      (∀ name ∈ enumNames, ∃ e ∈ catalog.enums, e.name = name ∧
        doc.definition? name = some (enumSchema e)) ∧
      (∀ name, name ∈ enumNames ↔ name ∉ models.map (·.name) ∧
        ∃ d ∈ doc.definitions, Refers d.2 (doc.draft.reference name)) ∧
      (∀ target, Refers doc.toJson target →
        ∃ name ∈ doc.definitions.map Prod.fst, target = doc.draft.reference name) ∧
      (o.inclusion = .aggregator →
        Json.lookup "properties" doc.root =
          some (.obj (models.map fun m => (m.name, refTo doc.draft m.name))) ∧
        Json.lookup "required" doc.root =
          if models.isEmpty then none else some (Json.strings (models.map (·.name)))) ∧
      Json.lookup "title" doc.root = some (.str doc.aggregator) ∧
      doc.aggregator ∉ doc.definitions.map Prod.fst := by
  rcases synthesize_run hdoc with ⟨schemas, t, hrun, rfl⟩
  rcases writingOf_run hrun with ⟨hsound, howners, hdefines⟩
  have hnames : (models.map (·.name)).Nodup := (select_names hselect).imp fun h => ne_of_lt h
  have htracks := writingOf_tracks hdistinct hrun
  have hnodup := nodup_names hnames hdefines howners htracks
  rcases definitionsOf_of_nodup hnodup with ⟨hdefinitions, hkeysNodup⟩
  have hkeys : (definitionsOf schemas t.enums).map Prod.fst = models.map (·.name) ++
      (t.enums.mergeSort fun a b => decide (a.1 ≤ b.1)).map Prod.fst := by
    rw [hdefinitions, List.map_append, hdefines.map_fst]
  have hmem : ∀ d, d ∈ definitionsOf schemas t.enums ↔ d ∈ schemas ∨ d ∈ t.enums := by
    intro d
    rw [hdefinitions, List.mem_append, List.mem_mergeSort]
  have hkey : ∀ name, name ∈ (definitionsOf schemas t.enums).map Prod.fst ↔
      name ∈ models.map (·.name) ∨ name ∈ t.enums.map Prod.fst := by
    intro name
    rw [hkeys, List.mem_append, mem_map_fst_mergeSort]
  refine ⟨_, hkeys, hkeysNodup, pairwise_lt_mergeSort Prod.fst htracks.distinct, ?_, ?_, ?_, ?_,
    lookup_title _ _ _ _, ?_⟩
  · intro name hname
    rcases lookup_definitionsOf_of_mem_enums (mem_map_fst_mergeSort.1 hname) with ⟨j, hlookup, hj⟩
    rcases hsound name j hj with ⟨e, he, hname', hschema, _⟩
    exact ⟨e, he, hname', hschema ▸ hlookup⟩
  · intro name
    rw [mem_map_fst_mergeSort, mem_enums_iff hsound howners hdefines htracks]
    refine and_congr_right fun _ => exists_congr fun d => ?_
    exact and_congr_left fun _ => (hmem d).symm
  · intro target hrefers
    rcases refers_toJson hrefers with ⟨m, hm, htarget⟩ | ⟨d, hd, hrefers⟩
    · exact ⟨m.name, (hkey _).2 (Or.inl (List.mem_map_of_mem hm)), htarget⟩
    · rcases named_of_refers hsound hdefines ((hmem d).1 hd) hrefers with ⟨name, hnamed, htarget⟩
      exact ⟨name, (hkey name).2 hnamed.mem, htarget⟩
  · intro hinclusion
    have hroot := lookup_aggregator hnames (documentOf models o schemas t).aggregator o.draft
    rw [← hinclusion, List.map_map, List.isEmpty_map] at hroot
    exact hroot
  · intro haggregator
    exact titleName_not_mem o.aggregatorName _ (owned_names hsound howners ((hkey _).1 haggregator))

theorem paint_names_exact :
    select [Sample.layer] [] = .ok [Sample.layer] ∧
      ∃ doc enumNames, synthesize [Sample.layer] Sample.paint .standard = .ok doc ∧
        doc.definitions.map Prod.fst = ["Layer"] ++ enumNames ∧
        (∀ name, name ∈ enumNames ↔ name ∉ ["Layer"] ∧
          ∃ d ∈ doc.definitions, Refers d.2 (doc.draft.reference name)) ∧
        doc.aggregator ∉ doc.definitions.map Prod.fst := by
  have hselect : select [Sample.layer] [] = .ok [Sample.layer] := by cbv
  have hdistinct : ∀ m, m ∈ [Sample.layer] ∨ m ∈ Sample.paint.allModels →
      (m.fields.map (propertyName .standard)).Nodup := by
    intro m hm
    have hlayer : m = Sample.layer := by simpa [Sample.paint, Catalog.allModels] using hm
    rw [hlayer]
    decide
  cases hdoc : synthesize [Sample.layer] Sample.paint .standard with
  | error e =>
      have hok : (synthesize [Sample.layer] Sample.paint .standard).toBool = true := by cbv
      rw [hdoc] at hok
      cases hok
  | ok doc =>
      rcases definition_names_exact hdistinct hselect hdoc with
        ⟨enumNames, hkeys, _, _, _, hnames, _, _, _, htitle⟩
      exact ⟨hselect, doc, enumNames, rfl, hkeys, hnames, htitle⟩

end Schema
end WireTypes
