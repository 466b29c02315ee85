import WireTypes.Proofs.Schema.Titles

/-!
# Draft conformance — what stands in a document of the older draft

In draft 07 nothing may stand beside a reference, and some keywords are not known. Every schema of a
document has one of three forms: a truth value, a reference alone, or keywords of the draft without a
reference.

- `Draft07Form`: the forms; `Conforming`: all schemas inside a schema have one of them;
- `conforming_annotate`: annotations are written beside a reference only after it was wrapped;
- `Written.conforming`, `WrittenModel.conforming`: what is written of types and models;
- `conforming_document`: every schema of a document has one of the forms.
-/

namespace WireTypes
namespace Schema

open Synthesis

/-! ## Forms of schemas -/

/-- The keywords of a document of draft 07, references left out. -/
def draft07Keywords : List String :=
  ["$schema", "definitions", "title", "type", "format", "enum", "properties", "required",
    "additionalProperties", "items", "uniqueItems", "anyOf", "allOf"] ++ fieldKeywords

inductive Draft07Form : Json → Prop
  | bool (b : Bool) : Draft07Form (.bool b)
  | reference (name : String) : Draft07Form (refTo .draft07 name)
  | keywords {members : List (String × Json)} :
      (∀ m ∈ members, m.1 ∈ draft07Keywords) → Draft07Form (.obj members)

/-- Nothing stands beside a reference, which leads to a definition, and no keyword of the later draft is
used. -/
theorem Draft07Form.exact {j : Json} (h : Draft07Form j) :
    (∀ target, j.get? "$ref" = some target →
      ∃ name, j = .obj [("$ref", .str ("#/definitions/" ++ name))]) ∧
    j.get? "prefixItems" = none ∧ j.get? "$defs" = none := by
  cases h with
  | bool b => exact ⟨nofun, rfl, rfl⟩
  | reference name => exact ⟨fun _ _ => ⟨name, rfl⟩, rfl, rfl⟩
  | @keywords members known =>
      have absent {key : String} (foreign : key ∉ draft07Keywords) :
          Json.get? (.obj members) key = none := by
        refine Json.lookup_eq_none_iff.mpr fun there => ?_
        obtain ⟨m, mem, rfl⟩ := List.mem_map.mp there
        exact foreign (known m mem)
      refine ⟨fun target found => ?_, absent (by decide), absent (by decide)⟩
      rw [absent (by decide)] at found
      cases found

/-- The schema and those inside it, at any depth, have a form of draft 07. -/
def Conforming (j : Json) : Prop := ∀ inner, Within j inner → Draft07Form inner

/-- A member with a keyword of draft 07, and schemas that conform. -/
def ConformingMember (m : String × Json) : Prop :=
  m.1 ∈ draft07Keywords ∧ ∀ k ∈ memberSchemas m, Conforming k

section

variable {j : Json} {js : List Json} {members : List (String × Json)}

theorem conforming_iff : Conforming j ↔ Draft07Form j ∧ ∀ k ∈ innerSchemas j, Conforming k := by
  constructor
  · intro h
    exact ⟨h j .self, fun k hk inner hinner => h inner (.inside hk hinner)⟩
  · rintro ⟨hself, hinside⟩ inner hinner
    cases hinner with
    | self => exact hself
    | inside hk hwithin => exact hinside _ hk inner hwithin

theorem conforming_obj (h : ∀ m ∈ members, ConformingMember m) : Conforming (.obj members) := by
  refine conforming_iff.mpr ⟨.keywords fun m hm => (h m hm).1, fun k hk => ?_⟩
  obtain ⟨m, hm, hk⟩ := List.mem_flatMap.mp hk
  exact (h m hm).2 k hk

theorem conforming_bool (b : Bool) : Conforming (.bool b) :=
  conforming_iff.mpr ⟨.bool b, fun _ h => absurd h List.not_mem_nil⟩

theorem conforming_nil : Conforming (.obj []) := conforming_obj fun _ h => absurd h List.not_mem_nil

theorem conforming_refTo (name : String) : Conforming (refTo .draft07 name) :=
  conforming_iff.mpr ⟨.reference name, fun _ h => absurd h List.not_mem_nil⟩

/-- A keyword of draft 07 that holds no schemas. -/
def IsDraft07Value (key : String) : Prop := key ∈ draft07Keywords ∧ Applicator.ofName? key = none

instance : DecidablePred IsDraft07Value := fun _ => inferInstanceAs (Decidable (_ ∧ _))

theorem IsDraft07Value.conformingMember {key : String} (h : IsDraft07Value key) (value : Json) :
    ConformingMember (key, value) := by
  refine ⟨h.1, fun k hk => ?_⟩
  simp [memberSchemas, h.2] at hk

theorem conformingMember_of_schemas {key : String} {value : Json} (hkey : key ∈ draft07Keywords)
    (hschemas : memberSchemas (key, value) = js) (h : ∀ j ∈ js, Conforming j) :
    ConformingMember (key, value) := ⟨hkey, hschemas ▸ h⟩

/-- A schema that holds no schemas. -/
theorem conforming_of_values (h : ∀ key ∈ members.map Prod.fst, IsDraft07Value key) :
    Conforming (.obj members) :=
  conforming_obj fun m hm => (h m.1 (List.mem_map_of_mem hm)).conformingMember m.2

/-! ## Schemas of types -/

theorem conforming_typed (kind : String) : Conforming (typed kind) :=
  conforming_of_values (by decide : ∀ key ∈ ["type"], IsDraft07Value key)

theorem conforming_formatted (format : String) : Conforming (formatted format) :=
  conforming_of_values (by decide : ∀ key ∈ ["type", "format"], IsDraft07Value key)

theorem keys_valuesSchema (values : List Json) :
    (valuesSchema values).map Prod.fst = ["enum"] ∨
      (valuesSchema values).map Prod.fst = ["enum", "type"] := by
  unfold valuesSchema
  cases commonType values with
  | none => exact .inl rfl
  | some kind => exact .inr rfl

theorem conforming_valuesSchema (values : List Json) : Conforming (.obj (valuesSchema values)) := by
  refine conforming_of_values ?_
  rcases keys_valuesSchema values with keys | keys <;> rw [keys] <;> decide

theorem conforming_enumSchema (e : Enumeration) : Conforming (enumSchema e) := by
  have front : ∀ key ∈ ["title", "description"], IsDraft07Value key := by decide
  have back : ∀ key ∈ (valuesSchema e.values).map Prod.fst, IsDraft07Value key := by
    rcases keys_valuesSchema e.values with keys | keys <;> rw [keys] <;> decide
  refine conforming_of_values fun key hkey => ?_
  simp only [List.map_cons, List.map_append, List.cons_append, List.mem_cons, List.mem_append] at hkey
  rcases hkey with title | docs | value
  · exact front key (by simp [title])
  · cases described : e.docs with
    | none => simp [described] at docs
    | some text => exact front key (by simpa [described] using Or.inr docs)
  · exact back key value

theorem conforming_anyOf (h : ∀ j ∈ js, Conforming j) : Conforming (anyOf js) :=
  conforming_obj (List.forall_mem_singleton.mpr (conformingMember_of_schemas (by decide) rfl h))

theorem conforming_nullable (h : Conforming j) : Conforming (anyOf [j, typed "null"]) := by
  refine conforming_anyOf fun k hk => ?_
  rcases List.mem_pair.mp hk with rfl | rfl
  · exact h
  · exact conforming_typed "null"

theorem conformingMember_items (hobject : IsObject j) (h : Conforming j) :
    ConformingMember ("items", j) := by
  obtain ⟨members, rfl⟩ := hobject
  exact conformingMember_of_schemas (by decide) rfl (List.forall_mem_singleton.mpr h)

theorem conformingMember_type (kind : String) : ConformingMember ("type", .str kind) :=
  IsDraft07Value.conformingMember (by decide) _

theorem conforming_arrayOf (hobject : IsObject j) (h : Conforming j) :
    Conforming (.obj [("type", .str "array"), ("items", j)]) :=
  conforming_obj (List.forall_mem_cons.mpr ⟨conformingMember_type _,
    List.forall_mem_singleton.mpr (conformingMember_items hobject h)⟩)

theorem conforming_setOf (hobject : IsObject j) (h : Conforming j) :
    Conforming (.obj [("type", .str "array"), ("items", j), ("uniqueItems", .bool true)]) :=
  conforming_obj (List.forall_mem_cons.mpr ⟨conformingMember_type _,
    List.forall_mem_cons.mpr ⟨conformingMember_items hobject h,
      List.forall_mem_singleton.mpr (IsDraft07Value.conformingMember (by decide) _)⟩⟩)

theorem conforming_mapOf (h : Conforming j) :
    Conforming (.obj [("type", .str "object"), ("additionalProperties", j)]) :=
  conforming_obj (List.forall_mem_cons.mpr ⟨conformingMember_type _,
    List.forall_mem_singleton.mpr (conformingMember_of_schemas (by decide) rfl
      (List.forall_mem_singleton.mpr h))⟩)

/-- The items of a list of fixed length stand under the keyword of the older draft. -/
theorem conforming_tupleOf (h : ∀ j ∈ js, Conforming j) : Conforming (tupleOf .draft07 js) := by
  have bounds : ∀ key ∈ ["minItems", "maxItems"], ∀ value, ConformingMember (key, value) :=
    fun key hkey value => IsDraft07Value.conformingMember
      ((by decide : ∀ key ∈ ["minItems", "maxItems"], IsDraft07Value key) key hkey) value
  exact conforming_obj (List.forall_mem_cons.mpr ⟨conformingMember_type _,
    List.forall_mem_cons.mpr ⟨conformingMember_of_schemas (by decide) rfl h,
      List.forall_mem_cons.mpr ⟨bounds _ (by simp) _,
        List.forall_mem_singleton.mpr (bounds _ (by simp) _)⟩⟩⟩)

/-! ## Annotations and bounds -/

theorem conforming_insert {key : String} {value : Json} (hkey : IsDraft07Value key)
    (h : ∀ m ∈ members, ConformingMember m) : Conforming (.obj (Json.insert key value members)) := by
  refine conforming_obj fun m hm => ?_
  rcases Json.mem_of_mem_insert hm with rfl | hm
  · exact hkey.conformingMember value
  · exact h m hm

/-- An annotated schema is a reference alone, which is wrapped before, or it has none. -/
theorem conforming_annotate {key : String} {value : Json} (hkey : IsDraft07Value key)
    (hobject : IsObject j) (h : Conforming j) : Conforming (annotate .draft07 key value j) := by
  obtain ⟨members, rfl⟩ := hobject
  obtain ⟨form, inside⟩ := conforming_iff.mp h
  cases form with
  | reference name =>
      have wrapped : ConformingMember ("allOf", .arr [refTo .draft07 name]) :=
        conformingMember_of_schemas (by decide) rfl
          (List.forall_mem_singleton.mpr (conforming_refTo name))
      have beside : Conforming (.obj (Json.insert key value [("allOf", .arr [refTo .draft07 name])])) :=
        conforming_insert hkey (List.forall_mem_singleton.mpr wrapped)
      exact beside
  | keywords known =>
      have alone : (Json.get? (.obj members) "$ref").isSome = false := by
        have absent : Json.get? (.obj members) "$ref" = none := by
          refine Json.lookup_eq_none_iff.mpr fun there => ?_
          obtain ⟨m, mem, name⟩ := List.mem_map.mp there
          exact absurd (name ▸ known m mem) (by decide)
        rw [absent]
        rfl
      simp only [annotate, alone]
      exact conforming_insert hkey fun m hm =>
        ⟨known m hm, fun k hk => inside k (List.mem_flatMap.mpr ⟨m, hm, hk⟩)⟩

theorem conforming_decorate {o : Options} (draft : o.draft = .draft07) {f : Field} {nullable : Bool}
    (hobject : IsObject j) (h : Conforming j) : Conforming (decorate o f nullable j) := by
  have hvalue : ∀ key ∈ fieldKeywords, IsDraft07Value key := by decide
  refine decorate_induction (fun key hkey value s hs hconforming => ?_) (fun _ => conforming_nullable)
    hobject h
  rw [draft]
  exact conforming_annotate (hvalue key hkey) hs hconforming

/-! ## Schemas of models -/

/-- The keywords of the schemas of objects. -/
def objectKeywords : List String :=
  ["title", "description", "type", "properties", "required", "additionalProperties"]

theorem draft07_of_objectKeyword : ∀ key ∈ objectKeywords, key ∈ draft07Keywords := by decide

theorem key_objectMembers {o : Options} {m : Model} {titled : Bool} {props : List (String × Json)}
    {x : String × Json} (hx : x ∈ objectMembers o m titled props) : x.1 ∈ objectKeywords := by
  simp only [objectMembers, List.mem_append] at hx
  rcases hx with (((title | docs) | body) | required) | additional
  · cases titled <;> simp at title
    simp [objectKeywords, title]
  · cases described : m.docs <;> simp [described] at docs
    simp [objectKeywords, docs]
  · rcases List.mem_pair.mp body with rfl | rfl <;> simp [objectKeywords]
  · split at required <;> simp at required
    simp [objectKeywords, required]
  · unfold additionalProperties at additional
    split at additional
    · simp [objectKeywords, List.mem_singleton.mp additional]
    · simp [objectKeywords, List.mem_singleton.mp additional]
    · split at additional <;> simp at additional
      simp [objectKeywords, additional]

theorem conforming_objectMembers {o : Options} {m : Model} {titled : Bool}
    {props : List (String × Json)} (h : ∀ p ∈ props, Conforming p.2) :
    Conforming (.obj (objectMembers o m titled props)) := by
  refine conforming_obj fun x hx => ⟨draft07_of_objectKeyword _ (key_objectMembers hx), fun k hk => ?_⟩
  rcases mem_objectMembers hx with hplain | rfl | ⟨b, rfl⟩
  · rw [memberSchemas_of_isPlain hplain] at hk
    cases hk
  · have property : k ∈ (Json.insertAll [] props).map Prod.snd := hk
    obtain ⟨p, hp, rfl⟩ := List.mem_map.mp property
    exact h p (Json.mem_of_mem_insertAll_nil hp)
  · obtain rfl : k = .bool b := List.mem_singleton.mp hk
    exact conforming_bool b

end

/-! ## What is written -/

section

variable {c : Context} {t : State}

mutual

theorem Synthesis.Written.conforming (draft : c.options.draft = .draft07) :
    ∀ {ty : FieldType} {j : Json}, Written c t ty j → Conforming j
  | _, _, .any => conforming_nil
  | _, _, .scalar _ _ _ => conforming_typed _
  | _, _, .formatted _ => conforming_formatted _
  | _, _, .list hitem => conforming_arrayOf hitem.isObject (hitem.conforming draft)
  | _, _, .set hitem => conforming_setOf hitem.isObject (hitem.conforming draft)
  | _, _, .variadicNil => conforming_arrayOf ⟨_, rfl⟩ conforming_nil
  | _, _, .variadicCons hitem => conforming_arrayOf hitem.isObject (hitem.conforming draft)
  | _, _, .tuple hitems => draft ▸ conforming_tupleOf (hitems.conforming draft)
  | _, _, .dictOfAny _ => conforming_mapOf (conforming_bool true)
  | _, _, .dict _ hvalue => conforming_mapOf (hvalue.conforming draft)
  | _, _, .optional hinner => conforming_nullable (hinner.conforming draft)
  | _, _, .union hmembers => conforming_anyOf (hmembers.conforming draft)
  | _, _, .literal => conforming_valuesSchema _
  | _, _, .retained _ => draft ▸ conforming_refTo _
  | _, _, .enum _ _ _ _ => draft ▸ conforming_refTo _
  | _, _, .inlined _ _ _ hmodel => hmodel.conforming draft

theorem Synthesis.WrittenAll.conforming (draft : c.options.draft = .draft07) :
    ∀ {types : List FieldType} {js : List Json}, WrittenAll c t types js → ∀ j ∈ js, Conforming j
  | _, _, .nil => fun _ hj => absurd hj List.not_mem_nil
  | _, _, .cons hfirst hrest =>
      List.forall_mem_cons.mpr ⟨hfirst.conforming draft, hrest.conforming draft⟩

theorem Synthesis.WrittenField.conforming (draft : c.options.draft = .draft07) :
    ∀ {f : Field} {j : Json}, WrittenField c t f j → Conforming j
  | _, _, .optional _ hinner => conforming_decorate draft hinner.isObject (hinner.conforming draft)
  | _, _, .plain _ htype => conforming_decorate draft htype.isObject (htype.conforming draft)

theorem Synthesis.WrittenFields.conforming (draft : c.options.draft = .draft07) :
    ∀ {fields : List Field} {props : List (String × Json)}, WrittenFields c t fields props →
      ∀ p ∈ props, Conforming p.2
  | _, _, .nil => fun _ hp => absurd hp List.not_mem_nil
  | _, _, .cons hfield hrest =>
      List.forall_mem_cons.mpr ⟨hfield.conforming draft, hrest.conforming draft⟩

theorem Synthesis.WrittenModel.conforming (draft : c.options.draft = .draft07) :
    ∀ {titled : Bool} {m : Model} {j : Json}, WrittenModel c t titled m j → Conforming j
  | _, _, _, .object hfields => conforming_objectMembers (hfields.conforming draft)

end

end

/-! ## Documents -/

section

variable {models : List Model} {catalog : Catalog} {o : Options} {doc : Document}

theorem conforming_definition (draft : o.draft = .draft07)
    (hdoc : synthesize models catalog o = .ok doc) {name : String} {entry : Json}
    (hentry : (name, entry) ∈ doc.definitions) : Conforming entry := by
  rcases definition_cases hdoc hentry with ⟨m, _, _, t, hwritten⟩ | ⟨e, _, _, rfl⟩
  · exact hwritten.conforming draft
  · exact conforming_enumSchema e

theorem key_aggregateRoot {name : String} {names : List String} {d : Draft} {inclusion : Inclusion}
    {x : String × Json} (hx : x ∈ aggregateRoot name names d inclusion) : x.1 ∈ objectKeywords := by
  simp only [aggregateRoot, List.mem_append] at hx
  rcases hx with (front | references) | additional
  · rcases List.mem_pair.mp front with rfl | rfl <;> simp [objectKeywords]
  · cases inclusion with
    | unreachable => cases references
    | aggregator =>
        rcases List.mem_append.mp references with properties | required
        · simp [objectKeywords, List.mem_singleton.mp properties]
        · split at required <;> simp at required
          simp [objectKeywords, required]
  · simp [objectKeywords, List.mem_singleton.mp additional]

/-- The properties of the root are references alone. -/
theorem conformingMember_root {name : String} {names : List String} {inclusion : Inclusion}
    {x : String × Json} (hx : x ∈ aggregateRoot name names .draft07 inclusion) : ConformingMember x := by
  refine ⟨draft07_of_objectKeyword _ (key_aggregateRoot hx), fun k hk => ?_⟩
  rcases mem_aggregateRoot hx with hplain | rfl | rfl
  · rw [memberSchemas_of_isPlain hplain] at hk
    cases hk
  · have property : k ∈ (Json.insertAll [] (names.map fun m => (m, refTo .draft07 m))).map Prod.snd :=
      hk
    obtain ⟨p, hp, rfl⟩ := List.mem_map.mp property
    obtain ⟨m, _, rfl⟩ := List.mem_map.mp (Json.mem_of_mem_insertAll_nil hp)
    exact conforming_refTo m
  · obtain rfl : k = .bool false := List.mem_singleton.mp hk
    exact conforming_bool false

/-- Every schema of a document of draft 07 has one of its forms. -/
theorem conforming_document (draft : o.draft = .draft07)
    (hdoc : synthesize models catalog o = .ok doc) : Conforming doc.toJson := by
  have dialect : doc.draft = .draft07 := by
    obtain ⟨schemas, t, -, rfl⟩ := synthesize_run hdoc
    exact draft
  refine conforming_obj fun x hx => ?_
  rcases mem_document hx with rfl | rfl | root
  · rw [dialect]
    refine conformingMember_of_schemas (by decide) rfl fun k hk => ?_
    obtain ⟨⟨name, entry⟩, hentry, rfl⟩ := List.mem_map.mp hk
    exact conforming_definition draft hdoc hentry
  · exact IsDraft07Value.conformingMember (by decide) _
  · obtain ⟨schemas, t, -, rfl⟩ := synthesize_run hdoc
    have member : x ∈ aggregateRoot (documentOf models o schemas t).aggregator (models.map (·.name))
        o.draft o.inclusion := root
    rw [draft] at member
    exact conformingMember_root member

end

end Schema
end WireTypes
