import WireTypes.Proofs.Schema.PropertyNames
import WireTypes.Proofs.Schema.Success

/-!
# Titles — which schemas of a document have a title

A generator names a declaration after the title of a schema. A document has a title at its root, and one
at each definition; what stands inside a definition, as a model that is written in place, has none.

- `StandsAt`: the schema at the end of a path of keywords, names and places;
- `Untitled`: a schema without a title, in which no schema has a title either;
- `Written.untitled`, `WrittenModel.untitled`: what is written of types and models has no titles inside;
- `titles_exact`: the titles of a document.
-/

namespace WireTypes
namespace Schema

open Synthesis

/-! ## Paths -/

/-- A step from a schema to a schema inside it. -/
inductive Step
  | one (keyword : String)
  | item (keyword : String) (index : Nat)
  | named (keyword name : String)

/-- The schemas that a keyword holds, with the steps to them. -/
def Applicator.steps (keyword : String) : Applicator → Json → List (Step × Json)
  | .one, j => [(.one keyword, j)]
  | .inOrder, .arr js => js.zipIdx.map fun x => (.item keyword x.2, x.1)
  | .oneOrInOrder, .arr js => js.zipIdx.map fun x => (.item keyword x.2, x.1)
  | .oneOrInOrder, j => [(.one keyword, j)]
  | .byName, .obj members => members.map fun m => (.named keyword m.1, m.2)
  | _, _ => []

def memberSteps (m : String × Json) : List (Step × Json) :=
  match Applicator.ofName? m.1 with
  | some applicator => applicator.steps m.1 m.2
  | none => []

/-- The schemas directly inside a schema, with the steps to them. -/
def steps : Json → List (Step × Json)
  | .obj members => members.flatMap memberSteps
  | _ => []

/-- The second schema stands at the end of the path from the first one. -/
inductive StandsAt : Json → List Step → Json → Prop
  | here {j : Json} : StandsAt j [] j
  | inside {j k l : Json} {step : Step} {path : List Step} :
      (step, k) ∈ steps j → StandsAt k path l → StandsAt j (step :: path) l

theorem map_snd_memberSteps (m : String × Json) : (memberSteps m).map Prod.snd = memberSchemas m := by
  rcases m with ⟨key, value⟩
  unfold memberSteps memberSchemas
  cases Applicator.ofName? key with
  | none => rfl
  | some applicator =>
      cases applicator <;> cases value <;>
        simp [Applicator.steps, Applicator.schemas, List.map_map, Function.comp_def]

/-- The steps lead to the schemas inside a schema. -/
theorem map_snd_steps (j : Json) : (steps j).map Prod.snd = innerSchemas j := by
  cases j with
  | obj members =>
      simp only [steps, innerSchemas, List.map_flatMap, map_snd_memberSteps]
  | _ => rfl

theorem mem_innerSchemas_of_step {j k : Json} {step : Step} (h : (step, k) ∈ steps j) :
    k ∈ innerSchemas j := map_snd_steps j ▸ List.mem_map_of_mem h

theorem StandsAt.within {j k : Json} {path : List Step} (h : StandsAt j path k) : Within j k := by
  induction h with
  | here => exact .self
  | inside hstep _ ih => exact .inside (mem_innerSchemas_of_step hstep) ih

/-! ## Schemas without titles -/

/-- Neither the schema nor one inside it, at any depth, has a title. -/
def Untitled (j : Json) : Prop := ∀ inner, Within j inner → inner.get? "title" = none

/-- A member that is no title and holds no titles. -/
def UntitledMember (m : String × Json) : Prop := m.1 ≠ "title" ∧ ∀ k ∈ memberSchemas m, Untitled k

section

variable {d : Draft} {j : Json} {js : List Json} {members : List (String × Json)}

theorem untitled_iff : Untitled j ↔ j.get? "title" = none ∧ ∀ k ∈ innerSchemas j, Untitled k := by
  constructor
  · intro h
    exact ⟨h j .self, fun k hk inner hinner => h inner (.inside hk hinner)⟩
  · rintro ⟨hself, hinside⟩ inner hinner
    cases hinner with
    | self => exact hself
    | inside hk hwithin => exact hinside _ hk inner hwithin

theorem untitled_obj_iff : Untitled (.obj members) ↔ ∀ m ∈ members, UntitledMember m := by
  rw [untitled_iff]
  simp only [Json.get?, Json.lookup_eq_none_iff, innerSchemas, List.mem_flatMap, List.mem_map]
  constructor
  · rintro ⟨htitle, hinside⟩ m hm
    exact ⟨fun hkey => htitle ⟨m, hm, hkey⟩, fun k hk => hinside k ⟨m, hm, hk⟩⟩
  · intro h
    constructor
    · rintro ⟨m, hm, hkey⟩
      exact (h m hm).1 hkey
    · rintro k ⟨m, hm, hk⟩
      exact (h m hm).2 k hk

theorem untitled_cons_iff {m : String × Json} :
    Untitled (.obj (m :: members)) ↔ UntitledMember m ∧ Untitled (.obj members) := by
  simp [untitled_obj_iff]

@[simp] theorem untitled_nil : Untitled (.obj []) := untitled_obj_iff.2 fun _ h => absurd h List.not_mem_nil

@[simp] theorem untitled_bool (b : Bool) : Untitled (.bool b) :=
  untitled_iff.2 ⟨rfl, fun _ h => absurd h List.not_mem_nil⟩

/-- A keyword that is no title and holds no schemas. -/
def IsValueKeyword (key : String) : Prop := key ≠ "title" ∧ Applicator.ofName? key = none

instance : DecidablePred IsValueKeyword := fun _ => inferInstanceAs (Decidable (_ ∧ _))

theorem IsValueKeyword.untitledMember {key : String} (h : IsValueKeyword key) (value : Json) :
    UntitledMember (key, value) := by
  refine ⟨h.1, fun k hk => ?_⟩
  simp [memberSchemas, h.2] at hk

/-- Where the member of a schema holds schemas, those are without titles. -/
theorem untitledMember_of_schemas {key : String} {value : Json} (hkey : key ≠ "title")
    (hschemas : memberSchemas (key, value) = js) (h : ∀ j ∈ js, Untitled j) :
    UntitledMember (key, value) := ⟨hkey, hschemas ▸ h⟩

/-! ## Schemas of types -/

theorem untitled_typed (kind : String) : Untitled (typed kind) :=
  untitled_cons_iff.2 ⟨IsValueKeyword.untitledMember (by decide) _, untitled_nil⟩

theorem untitled_formatted (format : String) : Untitled (formatted format) :=
  untitled_cons_iff.2 ⟨IsValueKeyword.untitledMember (by decide) _,
    untitled_cons_iff.2 ⟨IsValueKeyword.untitledMember (by decide) _, untitled_nil⟩⟩

theorem untitled_refTo (name : String) : Untitled (refTo d name) :=
  untitled_cons_iff.2 ⟨IsValueKeyword.untitledMember (by decide) _, untitled_nil⟩

/-- The values of a schema are no schemas. -/
theorem untitled_values (values : List Json) : Untitled (.obj (valuesSchema values)) := by
  have hkeys : ∀ m ∈ valuesSchema values, m.1 = "enum" ∨ m.1 = "type" := by
    intro m hm
    unfold valuesSchema at hm
    cases hkind : commonType values <;> simp [hkind] at hm
    · exact Or.inl (by rw [hm])
    · rcases hm with rfl | rfl
      · exact Or.inl rfl
      · exact Or.inr rfl
  refine untitled_obj_iff.2 fun m hm => ?_
  have hvalue : IsValueKeyword m.1 := by
    rcases hkeys m hm with h | h <;> rw [h] <;> decide
  exact hvalue.untitledMember m.2

theorem untitled_anyOf (h : ∀ j ∈ js, Untitled j) : Untitled (anyOf js) :=
  untitled_cons_iff.2 ⟨untitledMember_of_schemas (by decide) rfl h, untitled_nil⟩

theorem untitled_nullable (h : Untitled j) : Untitled (anyOf [j, typed "null"]) := by
  refine untitled_anyOf fun k hk => ?_
  rcases List.mem_pair.1 hk with rfl | rfl
  · exact h
  · exact untitled_typed "null"

theorem untitledMember_items (hobject : IsObject j) (h : Untitled j) : UntitledMember ("items", j) := by
  rcases hobject with ⟨members, rfl⟩
  exact untitledMember_of_schemas (by decide) rfl fun k hk => List.mem_singleton.1 hk ▸ h

theorem untitled_arrayOf (hobject : IsObject j) (h : Untitled j) :
    Untitled (.obj [("type", .str "array"), ("items", j)]) :=
  untitled_cons_iff.2 ⟨IsValueKeyword.untitledMember (by decide) _,
    untitled_cons_iff.2 ⟨untitledMember_items hobject h, untitled_nil⟩⟩

theorem untitled_setOf (hobject : IsObject j) (h : Untitled j) :
    Untitled (.obj [("type", .str "array"), ("items", j), ("uniqueItems", .bool true)]) :=
  untitled_cons_iff.2 ⟨IsValueKeyword.untitledMember (by decide) _,
    untitled_cons_iff.2 ⟨untitledMember_items hobject h,
      untitled_cons_iff.2 ⟨IsValueKeyword.untitledMember (by decide) _, untitled_nil⟩⟩⟩

theorem untitled_mapOf (h : Untitled j) :
    Untitled (.obj [("type", .str "object"), ("additionalProperties", j)]) := by
  have hvalues : UntitledMember ("additionalProperties", j) :=
    untitledMember_of_schemas (by decide) rfl fun k hk => List.mem_singleton.1 hk ▸ h
  exact untitled_cons_iff.2 ⟨IsValueKeyword.untitledMember (by decide) _,
    untitled_cons_iff.2 ⟨hvalues, untitled_nil⟩⟩

theorem untitled_tupleOf (h : ∀ j ∈ js, Untitled j) : Untitled (tupleOf d js) := by
  have hbounds : Untitled (.obj [("minItems", Json.ofNat js.length), ("maxItems", Json.ofNat js.length)]) :=
    untitled_cons_iff.2 ⟨IsValueKeyword.untitledMember (by decide) _,
      untitled_cons_iff.2 ⟨IsValueKeyword.untitledMember (by decide) _, untitled_nil⟩⟩
  have htype : UntitledMember ("type", .str "array") := IsValueKeyword.untitledMember (by decide) _
  cases d with
  | draft2020 => exact untitled_cons_iff.2 ⟨htype,
      untitled_cons_iff.2 ⟨untitledMember_of_schemas (by decide) rfl h, hbounds⟩⟩
  | draft07 => exact untitled_cons_iff.2 ⟨htype,
      untitled_cons_iff.2 ⟨untitledMember_of_schemas (by decide) rfl h, hbounds⟩⟩

/-! ## Annotations and bounds -/

theorem untitled_insert {key : String} {value : Json} (hkey : IsValueKeyword key)
    (h : Untitled (.obj members)) : Untitled (.obj (Json.insert key value members)) := by
  refine untitled_obj_iff.2 fun m hm => ?_
  rcases Json.mem_of_mem_insert hm with rfl | hm
  · exact hkey.untitledMember value
  · exact untitled_obj_iff.1 h m hm

theorem untitled_annotate {key : String} {value : Json} (hkey : IsValueKeyword key)
    (hobject : IsObject j) (h : Untitled j) : Untitled (annotate d key value j) := by
  rcases hobject with ⟨members, rfl⟩
  have hwrapped : Untitled (.obj [("allOf", .arr [.obj members])]) :=
    untitled_cons_iff.2 ⟨untitledMember_of_schemas (by decide) rfl
      fun k hk => List.mem_singleton.1 hk ▸ h, untitled_nil⟩
  cases d with
  | draft2020 => exact untitled_insert hkey h
  | draft07 =>
      by_cases href : (Json.get? (.obj members) "$ref").isSome = true
      · simp only [annotate, href, if_true]
        exact untitled_insert hkey hwrapped
      · simp only [annotate, href]
        exact untitled_insert hkey h

/-- What follows the type of a field is no title; the title of a field is not written. -/
theorem untitled_decorate {o : Options} {f : Field} {nullable : Bool} (hobject : IsObject j)
    (h : Untitled j) : Untitled (decorate o f nullable j) := by
  have hvalue : ∀ key ∈ fieldKeywords, IsValueKeyword key := by decide
  exact decorate_induction (fun key hkey _ _ => untitled_annotate (hvalue key hkey))
    (fun _ => untitled_nullable) hobject h

/-! ## Schemas of models -/

/-- A model has a title if it is asked for, and the other schemas in it are its properties. -/
theorem untitled_objectMembers {o : Options} {m : Model} {titled : Bool}
    {props : List (String × Json)} (h : ∀ p ∈ props, Untitled p.2) :
    (∀ k ∈ innerSchemas (.obj (objectMembers o m titled props)), Untitled k) ∧
      Json.get? (.obj (objectMembers o m titled props)) "title" =
        if titled then some (.str m.name) else none := by
  constructor
  · intro k hk
    rcases List.mem_flatMap.1 hk with ⟨x, hx, hk⟩
    rcases mem_objectMembers hx with hplain | rfl | ⟨b, rfl⟩
    · rw [memberSchemas_of_isPlain hplain] at hk
      cases hk
    · have hproperty : k ∈ (Json.insertAll [] props).map Prod.snd := hk
      rcases List.mem_map.1 hproperty with ⟨p, hp, rfl⟩
      exact h p (Json.mem_of_mem_insertAll_nil hp)
    · have hbool : k = .bool b := List.mem_singleton.1 hk
      exact hbool ▸ untitled_bool b
  · have hadditional : Json.lookup "title" (additionalProperties o m.extra) = none :=
      lookup_additionalProperties m.extra (by decide)
    cases titled with
    | true => simp [Json.get?, objectMembers, Json.lookup]
    | false =>
        simp only [Json.get?, objectMembers]
        cases m.docs <;> cases ((m.fields.filter (isRequired o)).map (propertyName o)).isEmpty <;>
          simp [Json.lookup, hadditional]

end

section

variable {c : Context} {t : State}

mutual

theorem Synthesis.Written.untitled : ∀ {ty : FieldType} {j : Json}, Written c t ty j → Untitled j
  | _, _, .any => untitled_nil
  | _, _, .scalar _ _ _ => untitled_typed _
  | _, _, .formatted _ => untitled_formatted _
  | _, _, .list hitem => untitled_arrayOf hitem.isObject hitem.untitled
  | _, _, .set hitem => untitled_setOf hitem.isObject hitem.untitled
  | _, _, .variadicNil => untitled_arrayOf ⟨_, rfl⟩ untitled_nil
  | _, _, .variadicCons hitem => untitled_arrayOf hitem.isObject hitem.untitled
  | _, _, .tuple hitems => untitled_tupleOf hitems.untitled
  | _, _, .dictOfAny _ => untitled_mapOf (untitled_bool true)
  | _, _, .dict _ hvalue => untitled_mapOf hvalue.untitled
  | _, _, .optional hinner => untitled_nullable hinner.untitled
  | _, _, .union hmembers => untitled_anyOf hmembers.untitled
  | _, _, .literal => untitled_values _
  | _, _, .retained _ => untitled_refTo _
  | _, _, .enum _ _ _ _ => untitled_refTo _
  | _, _, .inlined _ _ _ hmodel =>
      untitled_iff.2 ⟨hmodel.untitled.2, hmodel.untitled.1⟩

theorem Synthesis.WrittenAll.untitled : ∀ {types : List FieldType} {js : List Json},
    WrittenAll c t types js → ∀ j ∈ js, Untitled j
  | _, _, .nil => fun _ hj => absurd hj List.not_mem_nil
  | _, _, .cons hfirst hrest => fun j hj => by
      rcases List.mem_cons.1 hj with heq | hj
      · exact heq ▸ hfirst.untitled
      · exact hrest.untitled j hj

theorem Synthesis.WrittenField.untitled : ∀ {f : Field} {j : Json}, WrittenField c t f j → Untitled j
  | _, _, .optional _ hinner => untitled_decorate hinner.isObject hinner.untitled
  | _, _, .plain _ htype => untitled_decorate htype.isObject htype.untitled

theorem Synthesis.WrittenFields.untitled : ∀ {fields : List Field} {props : List (String × Json)},
    WrittenFields c t fields props → ∀ p ∈ props, Untitled p.2
  | _, _, .nil => fun _ hp => absurd hp List.not_mem_nil
  | _, _, .cons hfield hrest => fun p hp => by
      rcases List.mem_cons.1 hp with heq | hp
      · exact heq ▸ hfield.untitled
      · exact hrest.untitled p hp

/-- The schemas inside that of a model have no titles, and it has one itself only as a definition. -/
theorem Synthesis.WrittenModel.untitled : ∀ {titled : Bool} {m : Model} {j : Json},
    WrittenModel c t titled m j → (∀ k ∈ innerSchemas j, Untitled k) ∧
      j.get? "title" = if titled then some (.str m.name) else none
  | _, _, _, .object hfields => untitled_objectMembers hfields.untitled

end

/-- An enumeration has a title, and no schemas inside. -/
theorem untitled_enumSchema (e : Enumeration) :
    (∀ k ∈ innerSchemas (enumSchema e), Untitled k) ∧ (enumSchema e).get? "title" = some (.str e.name) := by
  have hinside : innerSchemas (enumSchema e) = [] := by
    cases hdocs : e.docs <;> cases hkind : commonType e.values <;>
      simp [enumSchema, valuesSchema, hdocs, hkind, innerSchemas, memberSchemas, Applicator.ofName?]
  refine ⟨fun k hk => ?_, by simp [enumSchema, Json.get?, Json.lookup]⟩
  rw [hinside] at hk
  cases hk

end

/-! ## Titles of documents -/

section

variable {models : List Model} {catalog : Catalog} {o : Options} {t : State}
  {schemas : List (String × Json)} {doc : Document}

/-- A definition is that of a retained model, or of an enumeration that is referred to. -/
theorem definition_cases (hdoc : synthesize models catalog o = .ok doc) {name : String} {entry : Json}
    (hentry : (name, entry) ∈ doc.definitions) :
    (∃ m ∈ models, m.name = name ∧
        ∃ t, WrittenModel (contextOf models catalog o) t true m entry) ∨
      ∃ e, EmitsEnum models catalog e ∧ e.name = name ∧ entry = enumSchema e := by
  rcases synthesize_run hdoc with ⟨schemas, t, hrun, rfl⟩
  rcases writingOf_run hrun with ⟨_, _, hdefines⟩
  rcases Json.mem_of_mem_insertAll hentry with hmodel | henum
  · rcases hdefines.written (Json.mem_of_mem_insertAll_nil hmodel) with ⟨m, hm, hname, hwritten⟩
    exact Or.inl ⟨m, hm, hname, t, hwritten⟩
  · rcases (belongs_of_run hrun).enums _ (List.mem_mergeSort.1 henum) with ⟨e, he, heq⟩
    cases heq
    exact Or.inr ⟨e, he, rfl, rfl⟩

/-- The title of a definition is its name, and the schemas inside have none. -/
theorem titled_definition (hdoc : synthesize models catalog o = .ok doc) {name : String} {entry : Json}
    (hentry : (name, entry) ∈ doc.definitions) :
    (∀ k ∈ innerSchemas entry, Untitled k) ∧ entry.get? "title" = some (.str name) := by
  rcases definition_cases hdoc hentry with ⟨m, _, rfl, t, hwritten⟩ | ⟨e, _, rfl, rfl⟩
  · exact hwritten.untitled
  · exact untitled_enumSchema e

theorem title_of_document (hdoc : synthesize models catalog o = .ok doc) :
    doc.toJson.get? "title" = some (.str doc.aggregator) := by
  rcases synthesize_run hdoc with ⟨schemas, t, _, rfl⟩
  have hdefs : "title" ≠ (documentOf models o schemas t).draft.defsKey := by
    cases (documentOf models o schemas t).draft <;> decide
  have hmem : "title" ∈ (documentOf models o schemas t).root.map Prod.fst := by
    simp [documentOf, aggregateRoot]
  rcases Json.lookup_insertAll_of_mem hmem [("$schema", .str (documentOf models o schemas t).draft.uri)]
    with ⟨value, hlookup, hvalue⟩
  have htitle : value = .str (documentOf models o schemas t).aggregator := by
    simp only [documentOf, aggregateRoot] at hvalue
    cases hinclusion : o.inclusion <;> cases hmodels : (models.map (·.name)).isEmpty <;>
      simp [hinclusion, hmodels] at hvalue <;> exact hvalue
  show Json.lookup "title" (Json.insert _ _ _) = _
  rw [Json.lookup_insert_of_ne hdefs, hlookup, htitle]

theorem memberSteps_definitions (doc : Document) :
    memberSteps (doc.draft.defsKey, .obj doc.definitions) =
      doc.definitions.map fun m => (.named doc.draft.defsKey m.1, m.2) := by
  cases doc.draft with
  | draft2020 => rfl
  | draft07 => rfl

/-- From a document one step leads to a definition, or else to a schema without titles. -/
theorem step_of_document (hdoc : synthesize models catalog o = .ok doc) {step : Step} {k : Json}
    (hstep : (step, k) ∈ steps doc.toJson) :
    (∃ name, step = .named doc.draft.defsKey name ∧ (name, k) ∈ doc.definitions) ∨ Untitled k := by
  rcases List.mem_flatMap.1 hstep with ⟨x, hx, hk⟩
  rcases mem_document hx with rfl | rfl | hroot
  · rw [memberSteps_definitions] at hk
    rcases List.mem_map.1 hk with ⟨⟨name, entry⟩, hentry, heq⟩
    cases heq
    exact Or.inl ⟨name, rfl, hentry⟩
  · cases hk
  · refine Or.inr ?_
    have hinner : k ∈ memberSchemas x := map_snd_memberSteps x ▸ List.mem_map_of_mem hk
    rcases synthesize_run hdoc with ⟨schemas, t, _, rfl⟩
    rcases mem_aggregateRoot hroot with hplain | rfl | rfl
    · rw [memberSchemas_of_isPlain hplain] at hinner
      cases hinner
    · -- The properties of the root are references.
      have hproperty : k ∈ (Json.insertAll [] ((models.map (·.name)).map fun m =>
          (m, refTo o.draft m))).map Prod.snd := hinner
      rcases List.mem_map.1 hproperty with ⟨p, hp, rfl⟩
      rcases List.mem_map.1 (Json.mem_of_mem_insertAll_nil hp) with ⟨name, _, rfl⟩
      exact untitled_refTo name
    · have hbool : k = .bool false := List.mem_singleton.1 hinner
      exact hbool ▸ untitled_bool false

/-- Every definition stands one step from the document. -/
theorem standsAt_definition (doc : Document) {name : String} {entry : Json}
    (hentry : (name, entry) ∈ doc.definitions) :
    StandsAt doc.toJson [.named doc.draft.defsKey name] entry := by
  refine .inside (List.mem_flatMap.2 ⟨(doc.draft.defsKey, .obj doc.definitions), ?_, ?_⟩) .here
  · exact Json.mem_of_lookup (Json.lookup_insert_self _ _ _)
  · rw [memberSteps_definitions]
    exact List.mem_map.2 ⟨(name, entry), hentry, rfl⟩

end

/-- The titles of a document: its own at the root, and at each definition the name of the definition. No
schema elsewhere has a title, at whatever depth and whatever models are written there. What is defined
is a retained model, and none of these is excluded, or an enumeration that is referred to. -/
theorem titles_exact {all models : List Model} {excluded : List String} {catalog : Catalog}
    {o : Options} {doc : Document} (hselect : select all excluded = .ok models)
    (hdoc : synthesize models catalog o = .ok doc) :
    (∀ m ∈ models, m.name ∉ excluded ∧ m.qualname ∉ excluded) ∧
      (∀ (path : List Step) (value : Json),
        (∃ inner, StandsAt doc.toJson path inner ∧ inner.get? "title" = some value) ↔
          path = [] ∧ value = .str doc.aggregator ∨
            ∃ name ∈ doc.definitions.map Prod.fst,
              path = [.named doc.draft.defsKey name] ∧ value = .str name) ∧
      ∀ name entry, (name, entry) ∈ doc.definitions →
        (∃ m ∈ models, m.name = name ∧
            ∃ t, WrittenModel (contextOf models catalog o) t true m entry) ∨
          ∃ e, EmitsEnum models catalog e ∧ e.name = name ∧ entry = enumSchema e := by
  refine ⟨not_excluded_of_select hselect, ?_, fun _ _ => definition_cases hdoc⟩
  intro path value
  constructor
  · rintro ⟨inner, hstands, htitle⟩
    cases hstands with
    | here =>
        rw [title_of_document hdoc] at htitle
        exact Or.inl ⟨rfl, (Option.some.inj htitle).symm⟩
    | inside hstep hrest =>
        refine Or.inr ?_
        rcases step_of_document hdoc hstep with ⟨name, rfl, hentry⟩ | huntitled
        · rcases titled_definition hdoc hentry with ⟨hinside, hname⟩
          refine ⟨name, List.mem_map_of_mem hentry, ?_⟩
          cases hrest with
          | here =>
              rw [hname] at htitle
              exact ⟨rfl, (Option.some.inj htitle).symm⟩
          | inside hstep hrest =>
              have huntitled := hinside _ (mem_innerSchemas_of_step hstep) inner hrest.within
              cases huntitled.symm.trans htitle
        · cases (huntitled inner hrest.within).symm.trans htitle
  · rintro (⟨rfl, rfl⟩ | ⟨name, hname, rfl, rfl⟩)
    · exact ⟨doc.toJson, .here, title_of_document hdoc⟩
    · rcases List.mem_map.1 hname with ⟨⟨_, entry⟩, hentry, rfl⟩
      exact ⟨entry, standsAt_definition doc hentry, (titled_definition hdoc hentry).2⟩

namespace Sample

/-- A model with a field of the name `title`, which refers to an enumeration. -/
def frame : Model where
  id := ⟨"gallery.py", "Frame"⟩
  name := "Frame"
  qualname := "gallery.Frame"
  docs := some "A frame."
  fields := [.required "colour" (.ref ⟨"paint.py", "Colour"⟩), .required "title" .str]
  extra := none

def picture : Model where
  id := ⟨"gallery.py", "Picture"⟩
  name := "Picture"
  qualname := "gallery.Picture"
  docs := none
  fields := [{ Field.required "frame" (.optional (.list (.ref ⟨"gallery.py", "Frame"⟩))) with
    title := some "The frame" }]
  extra := none

def gallery : Catalog := ⟨[picture, frame], [], [colour]⟩

end Sample

theorem gallery_titles_exact :
    select Sample.gallery.allModels ["gallery.Frame"] = .ok [Sample.picture] ∧
      ∃ doc, synthesize [Sample.picture] Sample.gallery .standard = .ok doc ∧
        ∀ (path : List Step) (value : Json),
          (∃ inner, StandsAt doc.toJson path inner ∧ inner.get? "title" = some value) ↔
            path = [] ∧ value = .str doc.aggregator ∨
              ∃ name ∈ doc.definitions.map Prod.fst,
                path = [.named doc.draft.defsKey name] ∧ value = .str name := by
  have hselect : select Sample.gallery.allModels ["gallery.Frame"] = .ok [Sample.picture] := by cbv
  cases hdoc : synthesize [Sample.picture] Sample.gallery .standard with
  | error e =>
      have hok : (synthesize [Sample.picture] Sample.gallery .standard).toBool = true := by cbv
      rw [hdoc] at hok
      cases hok
  | ok doc => exact ⟨hselect, doc, rfl, (titles_exact hselect hdoc).2.1⟩

end Schema
end WireTypes
