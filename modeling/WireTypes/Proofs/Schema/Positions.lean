import WireTypes.Proofs.Schema.Meaning

/-!
# Positions — the schemas inside a schema, and the references in them

A schema holds other schemas under the keywords of its vocabulary. What stands elsewhere, as in `enum` or
`default`, is a value even if it looks like a schema.

- `innerSchemas`: the schemas directly inside a schema; `Within`: those at any depth;
- `Refers schema target`: a reference with this target stands at a schema position;
- `refers_decorate_iff`, `refers_objectMembers_iff`: annotations and bounds keep the references of a
  schema, and a model has those of its properties;
- `Written.refers`: every reference of a written schema names a retained model or an enumeration that was
  met.
-/

namespace WireTypes
namespace Schema

open Synthesis

/-! ## Schemas inside schemas -/

/-- How a keyword holds schemas. -/
inductive Applicator
  | one
  | inOrder
  /-- One schema for all items, or one for each of the first items. -/
  | oneOrInOrder
  | byName

/-- The keywords of both drafts that hold schemas. -/
def Applicator.ofName? (key : String) : Option Applicator :=
  if key ∈ ["properties", "patternProperties", "dependentSchemas", "dependencies", "$defs",
    "definitions"] then some .byName
  else if key ∈ ["allOf", "anyOf", "oneOf", "prefixItems"] then some .inOrder
  else if key = "items" then some .oneOrInOrder
  else if key ∈ ["additionalProperties", "additionalItems", "unevaluatedProperties",
    "unevaluatedItems", "propertyNames", "contains", "not", "if", "then", "else"] then some .one
  else none

def Applicator.schemas : Applicator → Json → List Json
  | .one, j => [j]
  | .inOrder, .arr js => js
  | .oneOrInOrder, .arr js => js
  | .oneOrInOrder, j => [j]
  | .byName, .obj members => members.map Prod.snd
  | _, _ => []

/-- The schemas in a member of a schema. -/
def memberSchemas (m : String × Json) : List Json :=
  match Applicator.ofName? m.1 with
  | some applicator => applicator.schemas m.2
  | none => []

def innerSchemas : Json → List Json
  | .obj members => members.flatMap memberSchemas
  | _ => []

/-- The second schema stands inside the first one, at any depth, or is the first one itself. -/
inductive Within : Json → Json → Prop
  | self {j : Json} : Within j j
  | inside {j k l : Json} : k ∈ innerSchemas j → Within k l → Within j l

/-- A reference with this target stands at a schema position. -/
def Refers (schema : Json) (target : String) : Prop :=
  ∃ inner, Within schema inner ∧ inner.get? "$ref" = some (.str target)

section

variable {d : Draft} {j : Json} {js : List Json} {members props : List (String × Json)}
  {target : String}

theorem refers_iff : Refers j target ↔
    j.get? "$ref" = some (.str target) ∨ ∃ k ∈ innerSchemas j, Refers k target := by
  constructor
  · rintro ⟨inner, hwithin, href⟩
    cases hwithin with
    | self => exact Or.inl href
    | inside hk hwithin => exact Or.inr ⟨_, hk, inner, hwithin, href⟩
  · rintro (href | ⟨k, hk, inner, hwithin, href⟩)
    · exact ⟨j, .self, href⟩
    · exact ⟨inner, .inside hk hwithin, href⟩

theorem refers_obj_iff : Refers (.obj members) target ↔
    Json.lookup "$ref" members = some (.str target) ∨
      ∃ m ∈ members, ∃ k ∈ memberSchemas m, Refers k target := by
  rw [refers_iff]
  simp only [Json.get?, innerSchemas, List.mem_flatMap]
  constructor
  · rintro (href | ⟨k, ⟨m, hm, hk⟩, hrefers⟩)
    · exact Or.inl href
    · exact Or.inr ⟨m, hm, k, hk, hrefers⟩
  · rintro (href | ⟨m, hm, k, hk, hrefers⟩)
    · exact Or.inl href
    · exact Or.inr ⟨k, ⟨m, hm, hk⟩, hrefers⟩

@[simp] theorem not_refers_bool (b : Bool) : ¬ Refers (.bool b) target := by
  rw [refers_iff]
  simp [Json.get?, innerSchemas]

@[simp] theorem not_refers_nil : ¬ Refers (.obj []) target := by
  simp [refers_obj_iff, Json.lookup]

/-! ## Members of schemas -/

/-- A keyword that is no reference and holds no schemas. -/
def IsPlain (key : String) : Prop := key ≠ "$ref" ∧ Applicator.ofName? key = none

instance : DecidablePred IsPlain := fun _ => inferInstanceAs (Decidable (_ ∧ _))

theorem memberSchemas_of_isPlain {m : String × Json} (h : IsPlain m.1) : memberSchemas m = [] := by
  simp [memberSchemas, h.2]

/-- A schema has the references of the schemas in its first member, and those of the others. -/
theorem refers_cons_iff {key : String} {value : Json} (h : key ≠ "$ref") :
    Refers (.obj ((key, value) :: members)) target ↔
      (∃ k ∈ memberSchemas (key, value), Refers k target) ∨ Refers (.obj members) target := by
  have hlookup : Json.lookup "$ref" ((key, value) :: members) = Json.lookup "$ref" members := by
    simp [Json.lookup, h]
  rw [refers_obj_iff, refers_obj_iff, hlookup]
  simp only [List.mem_cons, exists_eq_or_imp]
  exact or_left_comm

theorem refers_plain_iff {key : String} {value : Json} (h : IsPlain key) :
    Refers (.obj ((key, value) :: members)) target ↔ Refers (.obj members) target := by
  rw [refers_cons_iff h.1, memberSchemas_of_isPlain h]
  simp

/-! ## Schemas of types -/

@[simp] theorem not_refers_typed (kind : String) : ¬ Refers (typed kind) target := by
  simp (disch := decide) [typed, refers_plain_iff]

@[simp] theorem not_refers_formatted (format : String) : ¬ Refers (formatted format) target := by
  simp (disch := decide) [formatted, refers_plain_iff]

@[simp] theorem not_refers_values (values : List Json) : ¬ Refers (.obj (valuesSchema values)) target := by
  cases hkind : commonType values with
  | none => simp (disch := decide) [valuesSchema, hkind, refers_plain_iff]
  | some kind => simp (disch := decide) [valuesSchema, hkind, refers_plain_iff]

@[simp] theorem not_refers_enumSchema (e : Enumeration) : ¬ Refers (enumSchema e) target := by
  cases hdocs : e.docs with
  | none => simp (disch := decide) [enumSchema, hdocs, refers_plain_iff]
  | some docs => simp (disch := decide) [enumSchema, hdocs, refers_plain_iff]

theorem refers_arrayOf_iff (h : IsObject j) :
    Refers (.obj [("type", .str "array"), ("items", j)]) target ↔ Refers j target := by
  rcases h with ⟨members, rfl⟩
  have hitems : memberSchemas ("items", .obj members) = [.obj members] := rfl
  rw [refers_plain_iff (by decide), refers_cons_iff (by decide), hitems]
  simp

theorem refers_setOf_iff (h : IsObject j) :
    Refers (.obj [("type", .str "array"), ("items", j), ("uniqueItems", .bool true)]) target ↔
      Refers j target := by
  rcases h with ⟨members, rfl⟩
  have hitems : memberSchemas ("items", .obj members) = [.obj members] := rfl
  rw [refers_plain_iff (by decide), refers_cons_iff (by decide), hitems, refers_plain_iff (by decide)]
  simp

/-- The schemas of a list of fixed length stand under the keyword of the draft. -/
theorem refers_tupleOf_iff : Refers (tupleOf d js) target ↔ ∃ j ∈ js, Refers j target := by
  have hends : ¬ Refers (.obj [("minItems", Json.ofNat js.length), ("maxItems", Json.ofNat js.length)])
      target := by
    simp (disch := decide) [refers_plain_iff]
  cases d with
  | draft2020 =>
      have hitems : memberSchemas ("prefixItems", .arr js) = js := rfl
      simp only [tupleOf]
      rw [refers_plain_iff (by decide), refers_cons_iff (by decide), hitems]
      simp [hends]
  | draft07 =>
      have hitems : memberSchemas ("items", .arr js) = js := rfl
      simp only [tupleOf]
      rw [refers_plain_iff (by decide), refers_cons_iff (by decide), hitems]
      simp [hends]

theorem refers_mapOf_iff :
    Refers (.obj [("type", .str "object"), ("additionalProperties", j)]) target ↔
      Refers j target := by
  have hvalues : memberSchemas ("additionalProperties", j) = [j] := rfl
  rw [refers_plain_iff (by decide), refers_cons_iff (by decide), hvalues]
  simp

theorem refers_anyOf_iff : Refers (anyOf js) target ↔ ∃ j ∈ js, Refers j target := by
  have hmembers : memberSchemas ("anyOf", .arr js) = js := rfl
  rw [anyOf, refers_cons_iff (by decide), hmembers]
  simp

theorem refers_allOf_iff : Refers (.obj [("allOf", .arr js)]) target ↔ ∃ j ∈ js, Refers j target := by
  have hmembers : memberSchemas ("allOf", .arr js) = js := rfl
  rw [refers_cons_iff (by decide), hmembers]
  simp

theorem refers_refTo_iff {name : String} :
    Refers (refTo d name) target ↔ target = d.reference name := by
  have hplain : memberSchemas ("$ref", .str (d.reference name)) = [] := rfl
  simp [refTo, refers_obj_iff, Json.lookup, hplain, eq_comm]

/-! ## Annotations and bounds -/

theorem refers_insert_iff {key : String} {value : Json} (h : IsPlain key) :
    Refers (.obj (Json.insert key value members)) target ↔ Refers (.obj members) target := by
  have hlookup : Json.lookup "$ref" (Json.insert key value members) = Json.lookup "$ref" members :=
    Json.lookup_insert_of_ne h.1.symm _ _
  -- A member with schemas has another name, so that it is there before and after.
  have hmem : ∀ m : String × Json, ∀ k ∈ memberSchemas m,
      (m ∈ Json.insert key value members ↔ m ∈ members) := by
    intro m k hk
    apply Json.mem_insert_of_ne
    intro hkey
    rw [memberSchemas_of_isPlain (hkey ▸ h)] at hk
    cases hk
  rw [refers_obj_iff, refers_obj_iff, hlookup]
  constructor
  · rintro (href | ⟨m, hm, k, hk, hrefers⟩)
    · exact Or.inl href
    · exact Or.inr ⟨m, (hmem m k hk).1 hm, k, hk, hrefers⟩
  · rintro (href | ⟨m, hm, k, hk, hrefers⟩)
    · exact Or.inl href
    · exact Or.inr ⟨m, (hmem m k hk).2 hm, k, hk, hrefers⟩

theorem refers_annotate_iff {key : String} {value : Json} (hkey : IsPlain key) (h : IsObject j) :
    Refers (annotate d key value j) target ↔ Refers j target := by
  rcases h with ⟨members, rfl⟩
  cases d with
  | draft2020 => exact refers_insert_iff hkey
  | draft07 =>
      by_cases href : (Json.get? (.obj members) "$ref").isSome = true
      · -- The reference is wrapped, and the keyword stands beside the wrapping.
        simp only [annotate, href, if_true]
        rw [refers_insert_iff hkey, refers_allOf_iff]
        simp
      · simp only [annotate, href]
        exact refers_insert_iff hkey

/-- The keywords that are added to the schema of a field. -/
def fieldKeywords : List String :=
  ["minimum", "exclusiveMinimum", "maximum", "exclusiveMaximum", "minLength", "maxLength", "minItems",
    "maxItems", "pattern", "description", "default", "readOnly"]

theorem constraintKeywords_subset (c : Constraints) (isString : Bool) :
    ∀ k ∈ constraintKeywords c isString, k.1 ∈ fieldKeywords := by
  cases isString <;> simp [constraintKeywords, fieldKeywords]

/-- What follows the type of a field is one keyword after the other, and perhaps `null` in between. -/
theorem decorate_induction {P : Json → Prop} {o : Options} {f : Field} {nullable : Bool}
    (hkeyword : ∀ key ∈ fieldKeywords, ∀ value s, IsObject s → P s → P (annotate o.draft key value s))
    (hnull : ∀ s, P s → P (anyOf [s, typed "null"])) (hobject : IsObject j) (hj : P j) :
    P (decorate o f nullable j) := by
  have hadd : ∀ key ∈ fieldKeywords, ∀ (value : Option Json) (s : Json), IsObject s ∧ P s →
      IsObject (annotate? o.draft key value s) ∧ P (annotate? o.draft key value s) := by
    intro key hkey value s hs
    refine ⟨isObject_annotate? o.draft key value hs.1, ?_⟩
    cases value with
    | none => exact hs.2
    | some value => exact hkeyword key hkey value s hs.1 hs.2
  have hfold : ∀ (keywords : List (String × Option Json)) (s : Json), IsObject s ∧ P s →
      (∀ k ∈ keywords, k.1 ∈ fieldKeywords) →
      IsObject (keywords.foldl (fun s k => annotate? o.draft k.1 k.2 s) s) ∧
        P (keywords.foldl (fun s k => annotate? o.draft k.1 k.2 s) s) := by
    intro keywords
    induction keywords with
    | nil => exact fun s hs _ => hs
    | cons k rest ih =>
        intro s hs hkeys
        exact ih _ (hadd k.1 (hkeys k List.mem_cons_self) k.2 s hs)
          fun x hx => hkeys x (List.mem_cons_of_mem _ hx)
  have hbounded := hfold _ j ⟨hobject, hj⟩ (constraintKeywords_subset f.constraints (isStringSchema j))
  have hbase : IsObject (nullableSchema o nullable (constrain o.draft f.constraints j)) ∧
      P (nullableSchema o nullable (constrain o.draft f.constraints j)) := by
    refine ⟨isObject_nullableSchema o nullable hbounded.1, ?_⟩
    unfold nullableSchema
    split
    · exact hnull _ hbounded.2
    · exact hbounded.2
  have hdescribed := hadd "description" (by decide) (f.description.map .str) _ hbase
  have hdefaulted := hadd "default" (by decide) (literalDefault? f.default) _ hdescribed
  unfold decorate
  cases f.computed with
  | true => exact hkeyword "readOnly" (by decide) (.bool true) _ hdefaulted.1 hdefaulted.2
  | false => exact hdefaulted.2

/-- What follows the type of a field keeps its references. -/
theorem refers_decorate_iff {o : Options} {f : Field} {nullable : Bool} (h : IsObject j) :
    Refers (decorate o f nullable j) target ↔ Refers j target := by
  -- The keywords are neither references nor do they hold schemas.
  have hplain : ∀ key ∈ fieldKeywords, IsPlain key := by decide
  refine decorate_induction (P := fun s => Refers s target ↔ Refers j target) ?_ ?_ h Iff.rfl
  · intro key hkey value s hobject hs
    exact (refers_annotate_iff (hplain key hkey) hobject).trans hs
  · intro s hs
    simpa [refers_anyOf_iff] using hs

/-! ## Schemas of models -/

theorem mem_objectMembers {o : Options} {m : Model} {titled : Bool} {x : String × Json}
    (hx : x ∈ objectMembers o m titled props) :
    IsPlain x.1 ∨ x = ("properties", .obj (Json.insertAll [] props)) ∨
      ∃ b, x = ("additionalProperties", .bool b) := by
  have hplain : ∀ key ∈ ["title", "description", "type", "required"], IsPlain key := by decide
  simp only [objectMembers, List.mem_append] at hx
  rcases hx with (((htitle | hdocs) | hbody) | hrequired) | hadditional
  · cases titled <;> simp at htitle
    exact Or.inl (hplain _ (by simp [htitle]))
  · cases hd : m.docs <;> simp [hd] at hdocs
    exact Or.inl (hplain _ (by simp [hdocs]))
  · rcases List.mem_pair.1 hbody with rfl | rfl
    · exact Or.inl (hplain _ (by simp))
    · exact Or.inr (Or.inl rfl)
  · split at hrequired <;> simp at hrequired
    exact Or.inl (hplain _ (by simp [hrequired]))
  · refine Or.inr (Or.inr ?_)
    unfold additionalProperties at hadditional
    split at hadditional
    · exact ⟨true, List.mem_singleton.1 hadditional⟩
    · exact ⟨false, List.mem_singleton.1 hadditional⟩
    · split at hadditional
      · exact ⟨false, List.mem_singleton.1 hadditional⟩
      · cases hadditional

/-- A model has the references of its properties. -/
theorem refers_objectMembers_iff {o : Options} {m : Model} {titled : Bool} :
    Refers (.obj (objectMembers o m titled props)) target ↔
      ∃ p ∈ Json.insertAll [] props, Refers p.2 target := by
  have hproperties : memberSchemas ("properties", .obj (Json.insertAll [] props)) =
      (Json.insertAll [] props).map Prod.snd := rfl
  have hadditional : ∀ b, memberSchemas ("additionalProperties", .bool b) = [.bool b] := fun _ => rfl
  constructor
  · intro h
    rcases refers_obj_iff.1 h with href | ⟨x, hx, k, hk, hrefers⟩
    · -- No member is a reference.
      rcases mem_objectMembers (Json.mem_of_lookup href) with hplain | heq | ⟨b, heq⟩
      · exact absurd rfl hplain.1
      · simp at heq
      · simp at heq
    · rcases mem_objectMembers hx with hplain | rfl | ⟨b, rfl⟩
      · rw [memberSchemas_of_isPlain hplain] at hk
        cases hk
      · rw [hproperties] at hk
        rcases List.mem_map.1 hk with ⟨p, hp, rfl⟩
        exact ⟨p, hp, hrefers⟩
      · rw [hadditional, List.mem_singleton] at hk
        rw [hk] at hrefers
        exact absurd hrefers (not_refers_bool b)
  · rintro ⟨p, hp, hrefers⟩
    refine refers_obj_iff.2 (Or.inr ⟨("properties", .obj (Json.insertAll [] props)), ?_, p.2, ?_, hrefers⟩)
    · simp [objectMembers]
    · rw [hproperties]
      exact List.mem_map_of_mem hp

end

/-! ## References of written schemas -/

/-- A name of the document: that of a retained model, or of an enumeration that was met and is not
retained as a model. -/
inductive Named (c : Context) (t : State) : String → Prop
  | retained {id : DefinitionId} {name : String} : c.retained.lookup id = some name → Named c t name
  | enum {id : DefinitionId} {e : Enumeration} :
      c.retained.lookup id = none → c.catalog.enum? id = some e →
      t.owners.lookup e.name = some id → e.name ∈ t.enums.map Prod.fst → Named c t e.name

/-- All references of a schema are written for names of the document. -/
def RefersToNamed (c : Context) (t : State) (j : Json) : Prop :=
  ∀ target, Refers j target → ∃ name, Named c t name ∧ target = c.options.draft.reference name

section

variable {c : Context} {t : State}

mutual

theorem Synthesis.Written.refers : ∀ {ty : FieldType} {j : Json}, Written c t ty j → RefersToNamed c t j
  | _, _, .any => fun _ h => absurd h not_refers_nil
  | _, _, .scalar kind _ _ => fun _ h => absurd h (not_refers_typed _)
  | _, _, .formatted _ => fun _ h => absurd h (not_refers_formatted _)
  | _, _, .list hitem => fun target h => hitem.refers target ((refers_arrayOf_iff hitem.isObject).1 h)
  | _, _, .set hitem => fun target h => hitem.refers target ((refers_setOf_iff hitem.isObject).1 h)
  | _, _, .variadicNil => fun target h =>
      absurd ((refers_arrayOf_iff ⟨_, rfl⟩).1 h) not_refers_nil
  | _, _, .variadicCons hitem => fun target h =>
      hitem.refers target ((refers_arrayOf_iff hitem.isObject).1 h)
  | _, _, .tuple hitems => fun target h => hitems.refers target (refers_tupleOf_iff.1 h)
  | _, _, .dictOfAny _ => fun target h => absurd (refers_mapOf_iff.1 h) (not_refers_bool _)
  | _, _, .dict _ hvalue => fun target h => hvalue.refers target (refers_mapOf_iff.1 h)
  | _, _, .optional hinner => fun target h => hinner.refers target (by
      simpa [refers_anyOf_iff] using h)
  | _, _, .union hmembers => fun target h => hmembers.refers target (refers_anyOf_iff.1 h)
  | _, _, .literal => fun _ h => absurd h (not_refers_values _)
  | _, _, .retained hretained => fun target h =>
      ⟨_, .retained hretained, refers_refTo_iff.1 h⟩
  | _, _, .enum hnone henum howner hmet => fun target h =>
      ⟨_, .enum hnone henum howner hmet, refers_refTo_iff.1 h⟩
  | _, _, .inlined _ _ _ hmodel => hmodel.refers

theorem Synthesis.WrittenAll.refers : ∀ {types : List FieldType} {js : List Json},
    WrittenAll c t types js → ∀ target, (∃ j ∈ js, Refers j target) →
      ∃ name, Named c t name ∧ target = c.options.draft.reference name
  | _, _, .nil => fun _ ⟨_, hj, _⟩ => absurd hj List.not_mem_nil
  | _, _, .cons hfirst hrest => fun target ⟨j, hj, h⟩ => by
      rcases List.mem_cons.1 hj with heq | hj
      · exact hfirst.refers target (heq ▸ h)
      · exact hrest.refers target ⟨j, hj, h⟩

theorem Synthesis.WrittenField.refers : ∀ {f : Field} {j : Json}, WrittenField c t f j →
    RefersToNamed c t j
  | _, _, .optional _ hinner => fun target h =>
      hinner.refers target ((refers_decorate_iff hinner.isObject).1 h)
  | _, _, .plain _ htype => fun target h =>
      htype.refers target ((refers_decorate_iff htype.isObject).1 h)

theorem Synthesis.WrittenFields.refers : ∀ {fields : List Field} {props : List (String × Json)},
    WrittenFields c t fields props → ∀ p ∈ props, RefersToNamed c t p.2
  | _, _, .nil => fun _ hp => absurd hp List.not_mem_nil
  | _, _, .cons hfield hrest => fun p hp => by
      rcases List.mem_cons.1 hp with heq | hp
      · exact heq ▸ hfield.refers
      · exact hrest.refers p hp

/-- Every reference of the schema of a model is written for a name of the document. -/
theorem Synthesis.WrittenModel.refers : ∀ {titled : Bool} {m : Model} {j : Json},
    WrittenModel c t titled m j → RefersToNamed c t j
  | _, _, _, .object hfields => fun target h => by
      rcases refers_objectMembers_iff.1 h with ⟨p, hp, hrefers⟩
      exact hfields.refers p (Json.mem_of_mem_insertAll_nil hp) target hrefers

end

end

/-! ## References of documents -/

theorem mem_aggregateRoot {name : String} {models : List String} {d : Draft} {inclusion : Inclusion}
    {x : String × Json} (hx : x ∈ aggregateRoot name models d inclusion) :
    IsPlain x.1 ∨
      x = ("properties", .obj (Json.insertAll [] (models.map fun m => (m, refTo d m)))) ∨
      x = ("additionalProperties", .bool false) := by
  have hplain : ∀ key ∈ ["title", "type", "required"], IsPlain key := by decide
  simp only [aggregateRoot, List.mem_append] at hx
  rcases hx with (hfront | hreferences) | hadditional
  · rcases List.mem_pair.1 hfront with rfl | rfl
    · exact Or.inl (hplain _ (by simp))
    · exact Or.inl (hplain _ (by simp))
  · cases inclusion with
    | unreachable => cases hreferences
    | aggregator =>
        rcases List.mem_append.1 hreferences with hproperties | hrequired
        · exact Or.inr (Or.inl (List.mem_singleton.1 hproperties))
        · split at hrequired
          · cases hrequired
          · exact Or.inl (hplain _ (by simp [List.mem_singleton.1 hrequired]))
  · exact Or.inr (Or.inr (List.mem_singleton.1 hadditional))

/-- The members of a document: its dialect, those of its root, and its definitions. -/
theorem mem_document {d : Document} {x : String × Json}
    (hx : x ∈ Json.insert d.draft.defsKey (.obj d.definitions)
      (Json.insertAll [("$schema", .str d.draft.uri)] d.root)) :
    x = (d.draft.defsKey, .obj d.definitions) ∨ x = ("$schema", .str d.draft.uri) ∨ x ∈ d.root := by
  rcases Json.mem_of_mem_insert hx with heq | hrest
  · exact Or.inl heq
  · rcases Json.mem_of_mem_insertAll hrest with hschema | hroot
    · exact Or.inr (Or.inl (List.mem_singleton.1 hschema))
    · exact Or.inr (Or.inr hroot)

/-- The references of a document are those of its root and those of its definitions. -/
theorem refers_toJson {models : List Model} {o : Options} {schemas : List (String × Json)}
    {t : State} {target : String} (h : Refers (documentOf models o schemas t).toJson target) :
    (∃ m ∈ models, target = o.draft.reference m.name) ∨
      ∃ d ∈ definitionsOf schemas t.enums, Refers d.2 target := by
  have hdefs : o.draft.defsKey ≠ "$ref" ∧
      memberSchemas (o.draft.defsKey, .obj (definitionsOf schemas t.enums)) =
        (definitionsOf schemas t.enums).map Prod.snd := by
    cases o.draft with
    | draft2020 => exact ⟨by decide, rfl⟩
    | draft07 => exact ⟨by decide, rfl⟩
  rcases refers_obj_iff.1 h with href | ⟨x, hx, k, hk, hrefers⟩
  · -- No member of the document is a reference itself.
    rcases mem_document (Json.mem_of_lookup href) with heq | heq | hroot
    · exact absurd (congrArg Prod.fst heq).symm hdefs.1
    · simp at heq
    · rcases mem_aggregateRoot hroot with hplain | heq | heq
      · exact absurd rfl hplain.1
      · simp at heq
      · simp at heq
  · rcases mem_document hx with rfl | rfl | hroot
    · have hk : k ∈ (definitionsOf schemas t.enums).map Prod.snd := hdefs.2 ▸ hk
      rcases List.mem_map.1 hk with ⟨d, hd, rfl⟩
      exact Or.inr ⟨d, hd, hrefers⟩
    · have hnone : k ∈ ([] : List Json) := hk
      cases hnone
    · rcases mem_aggregateRoot hroot with hplain | rfl | rfl
      · rw [memberSchemas_of_isPlain hplain] at hk
        cases hk
      · rcases List.mem_map.1 hk with ⟨p, hp, rfl⟩
        rcases List.mem_map.1 (Json.mem_of_mem_insertAll_nil hp) with ⟨name, hname, rfl⟩
        rcases List.mem_map.1 hname with ⟨m, hm, rfl⟩
        exact Or.inl ⟨m, hm, refers_refTo_iff.1 hrefers⟩
      · have hbool : k = .bool false := List.mem_singleton.1 hk
        rw [hbool] at hrefers
        exact absurd hrefers (not_refers_bool false)

end Schema
end WireTypes
