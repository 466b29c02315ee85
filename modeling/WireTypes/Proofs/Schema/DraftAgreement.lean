import WireTypes.Proofs.Schema.DraftTranslation

/-!
# Draft agreement — a synthesis does the same in both drafts

The draft is read where a schema is written and nowhere else: in both drafts the same names are claimed, the
same enumerations are met, and the same failures arise. The schemas in one draft are the translations of
those in the other.

- `Lockstep`: two computations of which the second has the image of the first one's result;
- `typeSchema_lockstep`, `fieldSchema_lockstep`, `objectSchema_lockstep`: the writing of types, fields and
  models;
- `synthesize_toDraft07`, `toJson_toDraft07`: documents, and their JSON;
- `drafts_agree`: documents of draft 07 conform to it, and are the translations of those of the other.
-/

namespace WireTypes
namespace Schema

open Synthesis

/-! ## Lockstep -/

/-- The second computation fails as the first one does, or ends in the same state with the image of its
result. -/
def Lockstep {α β : Type} (g : α → β) (x : Build α) (x' : Build β) : Prop := x' = g <$> x

namespace Lockstep

variable {α α' β β' : Type} {f : α → α'} {g : β → β'}

theorem pure {a : α} {a' : α'} (h : f a = a') : Lockstep f (Pure.pure a) (Pure.pure a') := by
  rw [Lockstep, map_pure, h]

theorem throw (e : SynthesisError) : Lockstep f (MonadExcept.throw e) (MonadExcept.throw e) := rfl

theorem bind {x : Build α} {x' : Build α'} {k : α → Build β} {k' : α' → Build β'}
    (hx : Lockstep f x x') (hk : ∀ a, Lockstep g (k a) (k' (f a))) :
    Lockstep g (x >>= k) (x' >>= k') := by
  rw [Lockstep, hx, bind_map_left, map_bind]
  exact bind_congr hk

/-- A computation before both. -/
theorem after (x : Build α) {k : α → Build β} {k' : α → Build β'}
    (hk : ∀ a, Lockstep g (k a) (k' a)) : Lockstep g (x >>= k) (x >>= k') := by
  rw [Lockstep, map_bind]
  exact bind_congr hk

theorem run {x : Build α} {x' : Build α'} (hx : Lockstep f x x') (s : State) :
    x'.run s = (x.run s).map fun r => (f r.1, r.2) := by
  rw [hx, StateT.run_map]
  rfl

end Lockstep

/-! ## Contexts -/

/-- The same context, but for the draft. -/
structure InDrafts (c c' : Context) : Prop where
  options : ∃ o, c.options = inDraft .draft2020 o ∧ c'.options = inDraft .draft07 o
  retained : c'.retained = c.retained
  catalog : c'.catalog = c.catalog

theorem InDrafts.draft {c c' : Context} (hc : InDrafts c c') :
    c.options.draft = .draft2020 ∧ c'.options.draft = .draft07 := by
  obtain ⟨o, ho, ho'⟩ := hc.options
  exact ⟨ho ▸ rfl, ho' ▸ rfl⟩

section

variable {c c' : Context} {inline inline' : Model → Build Json} {stack : List DefinitionId} {p : Place}

theorem reference_lockstep (hc : InDrafts c c') (h : ∀ m, Lockstep translate (inline m) (inline' m))
    (id : DefinitionId) :
    Lockstep translate (reference c inline stack p id) (reference c' inline' stack p id) := by
  unfold reference
  rw [hc.retained, hc.catalog, hc.draft.1, hc.draft.2]
  cases c.retained.lookup id with
  | some name => exact .pure (translate_refTo name)
  | none =>
      cases c.catalog.enum? id with
      | some e => exact .after _ fun _ => .after _ fun _ => .pure (translate_refTo e.name)
      | none =>
          cases c.catalog.model? id with
          | none => exact .throw _
          | some m =>
              by_cases written : stack.contains id
              · simp only [written, if_true]
                exact .throw _
              · simp only [written]
                exact h m

mutual

theorem typeSchema_lockstep (hc : InDrafts c c') (h : ∀ m, Lockstep translate (inline m) (inline' m)) :
    ∀ ty, Lockstep translate (typeSchema c inline stack p ty) (typeSchema c' inline' stack p ty)
  | .any | .null | .bool | .int | .float | .str | .decimal | .bytes | .formatted _
  | .tuple [] true => by
      simp only [typeSchema]
      exact .pure rfl
  | .list item | .tuple (item :: _) true => by
      simp only [typeSchema]
      exact .bind (typeSchema_lockstep hc h item) fun j => .pure (translate_arrayOf j)
  | .set item => by
      simp only [typeSchema]
      exact .bind (typeSchema_lockstep hc h item) fun j => .pure (translate_setOf j)
  | .tuple items false => by
      simp only [typeSchema]
      rw [hc.draft.1, hc.draft.2]
      exact .bind (typeSchemas_lockstep hc h items) fun js => .pure (translate_tupleOf js)
  | .dict key value => by
      have written := typeSchema_lockstep hc h value
      unfold typeSchema
      rw [hc.catalog]
      split
      -- The schema for values of any type is not that of the type.
      · cases value with
        | any => exact .bind (.pure (f := translate) rfl) fun j => .pure (translate_mapOf j)
        | _ => exact .bind written fun j => .pure (translate_mapOf j)
      · exact .throw _
  | .optional inner => by
      simp only [typeSchema]
      exact .bind (typeSchema_lockstep hc h inner) fun j => .pure (translate_nullable j)
  | .union members => by
      simp only [typeSchema]
      exact .bind (typeSchemas_lockstep hc h members) fun js => .pure (translate_anyOf js)
  | .literal values => by
      simp only [typeSchema]
      exact .pure (translate_values values)
  | .ref id => by
      simp only [typeSchema]
      exact reference_lockstep hc h id
  | .unresolved _ => by
      simp only [typeSchema]
      exact .throw _

theorem typeSchemas_lockstep (hc : InDrafts c c') (h : ∀ m, Lockstep translate (inline m) (inline' m)) :
    ∀ types, Lockstep (List.map translate) (typeSchemas c inline stack p types)
      (typeSchemas c' inline' stack p types)
  | [] => by
      simp only [typeSchemas]
      exact .pure rfl
  | ty :: rest => by
      simp only [typeSchemas]
      exact .bind (typeSchema_lockstep hc h ty) fun _ =>
        .bind (typeSchemas_lockstep hc h rest) fun _ => .pure rfl

end

/-! ## Fields and models -/

theorem decorate_lockstep (hc : InDrafts c c') (f : Field) (nullable : Bool) (j : Json) :
    translate (decorate c.options f nullable j) = decorate c'.options f nullable (translate j) := by
  obtain ⟨o, ho, ho'⟩ := hc.options
  rw [ho, ho', translate_decorate]

theorem fieldSchema_lockstep (hc : InDrafts c c') (h : ∀ m, Lockstep translate (inline m) (inline' m))
    (model : String) (f : Field) :
    Lockstep translate (fieldSchema c inline stack model f) (fieldSchema c' inline' stack model f) := by
  unfold fieldSchema
  split
  · exact .bind (typeSchema_lockstep hc h _) fun j => .pure (decorate_lockstep hc f true j)
  · exact .bind (typeSchema_lockstep hc h _) fun j => .pure (decorate_lockstep hc f false j)

theorem properties_lockstep (hc : InDrafts c c') (h : ∀ m, Lockstep translate (inline m) (inline' m))
    (model : String) : ∀ fields,
    Lockstep (List.map translateEntry) (properties c inline stack model fields)
      (properties c' inline' stack model fields)
  | [] => .pure rfl
  | f :: rest => by
      have name : propertyName c'.options f = propertyName c.options f := by
        obtain ⟨o, ho, ho'⟩ := hc.options
        rw [ho, ho']
        rfl
      simp only [properties, name]
      exact .bind (fieldSchema_lockstep hc h model f) fun _ =>
        .bind (properties_lockstep hc h model rest) fun _ => .pure rfl

theorem objectMembers_lockstep (hc : InDrafts c c') (m : Model) (titled : Bool)
    (props : List (String × Json)) :
    translate (.obj (objectMembers c.options m titled props))
      = .obj (objectMembers c'.options m titled (props.map translateEntry)) := by
  obtain ⟨o, ho, ho'⟩ := hc.options
  rw [ho, ho', translate_objectMembers]
  rfl

/-- Models are written in lockstep at any depth, since the models inside them are. -/
theorem objectSchema_lockstep (hc : InDrafts c c') (depth : Nat) : ∀ titled stack m,
    Lockstep translate (objectSchema c titled stack m depth) (objectSchema c' titled stack m depth) := by
  induction depth with
  | zero => exact fun _ _ _ => .throw _
  | succ depth ih =>
      intro titled stack m
      have inside (inner : Model) : Lockstep translate
          (objectSchema c false (inner.id :: stack) inner depth)
          (objectSchema c' false (inner.id :: stack) inner depth) := ih false (inner.id :: stack) inner
      exact .bind (properties_lockstep hc inside m.name m.fields) fun props =>
        .pure (objectMembers_lockstep hc m titled props)

theorem modelSchemas_lockstep (hc : InDrafts c c') : ∀ models,
    Lockstep (List.map translateEntry) (modelSchemas c models) (modelSchemas c' models)
  | [] => .pure rfl
  | m :: rest => by
      simp only [modelSchemas, modelSchema, hc.catalog]
      exact .bind (objectSchema_lockstep hc _ true [] m) fun _ =>
        .bind (modelSchemas_lockstep hc rest) fun _ => .pure rfl

end

/-! ## Documents -/

section

variable {models : List Model} {catalog : Catalog} {o : Options} {t : State} {doc : Document}

theorem inDrafts_contextOf (models : List Model) (catalog : Catalog) (o : Options) :
    InDrafts (contextOf models catalog (inDraft .draft2020 o))
      (contextOf models catalog (inDraft .draft07 o)) :=
  ⟨⟨o, rfl, rfl⟩, rfl, rfl⟩

theorem writingOf_lockstep (models : List Model) (catalog : Catalog) (o : Options) :
    Lockstep (List.map translateEntry) (writingOf models catalog (inDraft .draft2020 o))
      (writingOf models catalog (inDraft .draft07 o)) :=
  .after (claimAll models) fun _ => modelSchemas_lockstep (inDrafts_contextOf models catalog o) models

theorem translate_aggregateRoot (name : String) (names : List String) (inclusion : Inclusion) :
    (aggregateRoot name names .draft2020 inclusion).map (translateMember false)
      = aggregateRoot name names .draft07 inclusion := by
  cases inclusion with
  | unreachable => rfl
  | aggregator =>
      have entries : (names.map fun m => (m, refTo .draft2020 m)).map translateEntry
          = names.map fun m => (m, refTo .draft07 m) := by
        rw [List.map_map]
        exact List.map_congr_left fun m _ => congrArg (Prod.mk m) (translate_refTo m)
      have properties : translateMember false
            ("properties", .obj (Json.insertAll [] (names.map fun m => (m, refTo .draft2020 m))))
          = ("properties", .obj (Json.insertAll [] (names.map fun m => (m, refTo .draft07 m)))) := by
        rw [translateMember_byName (by decide) rfl, map_insertAll_entries, entries, List.map_nil]
        rfl
      have required : (if names.isEmpty then [] else [("required", Json.strings names)]).map
            (translateMember false)
          = if names.isEmpty then [] else [("required", Json.strings names)] := by
        split <;> rfl
      simp only [aggregateRoot, List.map_append, List.map_cons, List.map_nil, properties, required]
      rfl

/-- The enumerations that were met are written alike in both drafts. -/
theorem translateEntry_of_mem_enums {c : Context} (hsound : t.Sound c) {m : String × Json}
    (mem : m ∈ t.enums) : translateEntry m = m := by
  obtain ⟨name, j⟩ := m
  obtain ⟨e, _, _, rfl, _⟩ := hsound name j mem
  exact congrArg (Prod.mk name) (translate_enumSchema e)

theorem translate_definitionsOf {c : Context} (hsound : t.Sound c) (schemas : List (String × Json)) :
    (definitionsOf schemas t.enums).map translateEntry
      = definitionsOf (schemas.map translateEntry) t.enums := by
  have enums : (t.enums.mergeSort fun a b => decide (a.1 ≤ b.1)).map translateEntry
      = t.enums.mergeSort fun a b => decide (a.1 ≤ b.1) := by
    refine (List.map_congr_left fun m mem => ?_).trans (List.map_id _)
    exact translateEntry_of_mem_enums hsound (List.mem_mergeSort.mp mem)
  rw [definitionsOf, definitionsOf, map_insertAll_entries, map_insertAll_entries, enums, List.map_nil]

/-- The document in the older draft. -/
def Document.toDraft07 (doc : Document) : Document :=
  { doc with
    draft := .draft07
    root := doc.root.map (translateMember false)
    definitions := doc.definitions.map translateEntry }

theorem toDraft07_documentOf (hsound : t.Sound (contextOf models catalog (inDraft .draft2020 o)))
    (schemas : List (String × Json)) :
    (documentOf models (inDraft .draft2020 o) schemas t).toDraft07
      = documentOf models (inDraft .draft07 o) (schemas.map translateEntry) t := by
  simp only [documentOf, Document.toDraft07, inDraft, translate_aggregateRoot,
    translate_definitionsOf hsound]

/-- What a synthesis has in draft 07 is what it has in the other, translated. -/
theorem synthesize_toDraft07 (models : List Model) (catalog : Catalog) (o : Options) :
    synthesize models catalog (inDraft .draft07 o)
      = (synthesize models catalog (inDraft .draft2020 o)).map Document.toDraft07 := by
  rw [synthesize_eq, synthesize_eq, (writingOf_lockstep models catalog o).run]
  cases run : (writingOf models catalog (inDraft .draft2020 o)).run ⟨[], []⟩ with
  | error e => rfl
  | ok r => exact congrArg Except.ok (toDraft07_documentOf (writingOf_run run).1 r.1).symm

/-- The keywords before the definitions keep their names, and none of them is a name of the definitions. -/
theorem front_of_document (keys : ∀ n ∈ doc.root, n.1 ∈ objectKeywords) {m : String × Json}
    (hm : m ∈ Json.insertAll [("$schema", .str doc.draft.uri)] doc.root) :
    m.1 ∉ movedKeywords ∧ m.1 ≠ "definitions" ∧ m.1 ≠ "$defs" := by
  have known : m.1 ∈ "$schema" :: objectKeywords := by
    rcases Json.mem_of_mem_insertAll hm with dialect | root
    · simp [List.mem_singleton.mp dialect]
    · exact List.mem_cons_of_mem _ (keys m root)
  have apart : ∀ key ∈ "$schema" :: objectKeywords,
      key ∉ movedKeywords ∧ key ≠ "definitions" ∧ key ≠ "$defs" := by decide
  exact apart m.1 known

theorem translate_toJson (draft : doc.draft = .draft2020)
    (keys : ∀ n ∈ doc.root, n.1 ∈ objectKeywords) : translate doc.toJson = doc.toDraft07.toJson := by
  have stays : ∀ key ∈ objectKeywords, key ∉ movedKeywords := by decide
  have front : (Json.insertAll [("$schema", .str doc.draft.uri)] doc.root).map (translateMember false)
      = Json.insertAll [("$schema", .str Draft.draft07.uri)] (doc.root.map (translateMember false)) := by
    rw [map_insertAll fun n hn => fst_translateMember_eq_iff (stays _ (keys n hn))]
    rfl
  have apart : ∀ m ∈ Json.insertAll [("$schema", .str doc.draft.uri)] doc.root,
      (translateMember false m).1 = "definitions" ↔ m.1 = "$defs" := by
    intro m hm
    obtain ⟨kept, later, earlier⟩ := front_of_document keys hm
    rw [fst_translateMember_of_notMem kept]
    exact iff_of_false later earlier
  have definitions : translateMember false ("$defs", .obj doc.definitions)
      = ("definitions", .obj (doc.definitions.map translateEntry)) :=
    translateMember_byName (by decide) rfl _
  calc translate doc.toJson
      = .obj ((Json.insert "$defs" (.obj doc.definitions)
          (Json.insertAll [("$schema", .str doc.draft.uri)] doc.root)).map (translateMember false)) := by
        rw [Document.toJson, draft]
        exact translate_obj_of_notAlone (notAlone_insert (by decide) _ _)
    _ = .obj (Json.insert "definitions" (.obj (doc.definitions.map translateEntry))
          (Json.insertAll [("$schema", .str Draft.draft07.uri)]
            (doc.root.map (translateMember false)))) := by
        rw [map_insert definitions apart, front]
    _ = doc.toDraft07.toJson := rfl

/-- The JSON of the document is translated as a schema. -/
theorem toJson_toDraft07 (hdoc : synthesize models catalog (inDraft .draft2020 o) = .ok doc) :
    doc.toDraft07.toJson = translate doc.toJson := by
  obtain ⟨schemas, t, -, rfl⟩ := synthesize_run hdoc
  exact (translate_toJson rfl fun _ => key_aggregateRoot).symm

end

/-- In every document of draft 07, wherever a schema stands, a reference is alone and leads to a definition,
and no keyword of the later draft is used. Up to the translation a synthesis does the same in both drafts:
it has the same document, whose JSON is translated as a schema, or it fails alike. So does the writing of
every field, at every depth and from every state. -/
theorem drafts_agree (models : List Model) (catalog : Catalog) (o : Options) :
    (∀ doc, synthesize models catalog (inDraft .draft07 o) = .ok doc →
      ∀ inner, Within doc.toJson inner →
        (∀ target, inner.get? "$ref" = some target →
          ∃ name, inner = .obj [("$ref", .str ("#/definitions/" ++ name))]) ∧
        inner.get? "prefixItems" = none ∧ inner.get? "$defs" = none) ∧
    synthesize models catalog (inDraft .draft07 o)
      = (synthesize models catalog (inDraft .draft2020 o)).map Document.toDraft07 ∧
    (∀ doc, synthesize models catalog (inDraft .draft2020 o) = .ok doc →
      doc.toDraft07.toJson = translate doc.toJson) ∧
    ∀ (depth : Nat) (stack : List DefinitionId) (model : String) (f : Field) (s : State),
      let written (d : Draft) : Except SynthesisError (Json × State) :=
        let c := contextOf models catalog (inDraft d o)
        (fieldSchema c (fun m => objectSchema c false (m.id :: stack) m depth) stack model f).run s
      written .draft07 = (written .draft2020).map fun r => (translate r.1, r.2) := by
  have both := inDrafts_contextOf models catalog o
  refine ⟨fun doc hdoc inner within => (conforming_document rfl hdoc inner within).exact,
    synthesize_toDraft07 models catalog o, fun _ => toJson_toDraft07, ?_⟩
  intro depth stack model f s
  exact (fieldSchema_lockstep both (fun m => objectSchema_lockstep both depth false (m.id :: stack) m)
    model f).run s

namespace Sample

/-- A model with a described reference and a list of fixed length. -/
def swatch : Model where
  id := ⟨"paint.py", "Swatch"⟩
  name := "Swatch"
  qualname := "paint.Swatch"
  docs := none
  fields := [
    { Field.required "colour" (.ref ⟨"paint.py", "Colour"⟩) with description := some "The colour." },
    .required "size" (.tuple [.int, .int] false)]
  extra := none

def swatches : Catalog := ⟨[swatch], [], [colour]⟩

end Sample

theorem swatch_drafts_agree :
    ∃ doc, synthesize [Sample.swatch] Sample.swatches (inDraft .draft2020 .standard) = .ok doc ∧
      synthesize [Sample.swatch] Sample.swatches (inDraft .draft07 .standard) = .ok doc.toDraft07 ∧
      doc.toDraft07.toJson = translate doc.toJson ∧
      ∀ inner, Within doc.toDraft07.toJson inner →
        (∀ target, inner.get? "$ref" = some target →
          ∃ name, inner = .obj [("$ref", .str ("#/definitions/" ++ name))]) ∧
        inner.get? "prefixItems" = none ∧ inner.get? "$defs" = none := by
  obtain ⟨conform, agree, same, -⟩ := drafts_agree [Sample.swatch] Sample.swatches .standard
  cases hdoc : synthesize [Sample.swatch] Sample.swatches (inDraft .draft2020 .standard) with
  | error e =>
      have hok : (synthesize [Sample.swatch] Sample.swatches
          (inDraft .draft2020 .standard)).toBool = true := by cbv
      rw [hdoc] at hok
      cases hok
  | ok doc =>
      rw [hdoc] at agree
      exact ⟨doc, rfl, agree, same doc hdoc, conform _ agree⟩

end Schema
end WireTypes
