import WireTypes.Proofs.Schema.Validity
import WireTypes.Schema.Synthesis

/-!
# Shapes — what the schemas of a synthesis say

One lemma for each shape of schema that a synthesis writes, in terms of the values that validate:
`valid_typed_iff`, `valid_formatted_iff`, `valid_values_iff`, `valid_arrayOf_iff`, `valid_setOf_iff`,
`valid_tupleOf_iff`, `valid_mapOf_iff`, `valid_anyOf_iff`, `valid_refTo_iff`.

`valid_annotate_iff`: an annotation changes nothing, in either draft.
-/

namespace WireTypes
namespace Schema

open Synthesis

section

variable {d : Draft} {defs schema : List (String × Json)} {v j : Json}

/-! ## Schemas without a reference -/

theorem appliesIn_of_no_ref {k : Keyword} (hk : k ≠ .prefixItems)
    (href : Json.lookup "$ref" schema = none) : k.AppliesIn d schema := by
  cases d with
  | draft2020 => trivial
  | draft07 => exact ⟨hk, Or.inr href⟩

/-- A keyword of a schema that is no reference counts. -/
theorem demands_iff {key : String} {arg : Json} {k : Keyword} (hk : Keyword.ofName? key = some k)
    (hne : k ≠ .prefixItems) (href : Json.lookup "$ref" schema = none) :
    Demands d defs schema (key, arg) v ↔ Holds d defs schema k arg v :=
  demands_keyword hk (appliesIn_of_no_ref hne href)

theorem valid_typed_iff {kind : Json.Kind} :
    Valid d defs (typed kind.word) v ↔ Json.HasKind kind v := by
  have href : Json.lookup "$ref" [("type", Json.str kind.word)] = none := by simp [Json.lookup]
  rw [typed, valid_obj_iff, List.forall_mem_singleton, demands_iff rfl (by decide) href,
    holds_type_iff]

theorem valid_null_iff : Valid d defs (typed "null") v ↔ v = .null := by
  rw [show "null" = Json.Kind.null.word from rfl, valid_typed_iff]
  constructor
  · intro hkind
    cases hkind
    rfl
  · rintro rfl
    exact .null

theorem valid_formatted_iff {format : String} :
    Valid d defs (formatted format) v ↔ Json.HasKind .string v := by
  have href : Json.lookup "$ref" [("type", Json.str "string"), ("format", .str format)] = none := by
    simp [Json.lookup]
  have hformat : Demands d defs [("type", Json.str "string"), ("format", .str format)]
      ("format", .str format) v := demands_annotation rfl
  rw [formatted, valid_obj_iff, List.forall_mem_cons, List.forall_mem_singleton,
    demands_iff rfl (by decide) href, show "string" = Json.Kind.string.word from rfl, holds_type_iff]
  simp only [← show "string" = Json.Kind.string.word from rfl, hformat, and_true]

theorem valid_anyOf_iff {schemas : List Json} :
    Valid d defs (anyOf schemas) v ↔ ∃ inner ∈ schemas, Valid d defs inner v := by
  have href : Json.lookup "$ref" [("anyOf", Json.arr schemas)] = none := by simp [Json.lookup]
  rw [anyOf, valid_obj_iff, List.forall_mem_singleton, demands_iff rfl (by decide) href,
    holds_anyOf_iff]

theorem valid_refTo_iff {name : String} :
    Valid d defs (refTo d name) v ↔
      ∃ inner, Json.lookup name defs = some inner ∧ Valid d defs inner v := by
  -- A reference stands alone, so that it counts in the older draft too.
  have happlies : Keyword.AppliesIn d [("$ref", Json.str (d.reference name))] .ref := by
    cases d with
    | draft2020 => trivial
    | draft07 => exact ⟨by decide, Or.inl rfl⟩
  rw [refTo, valid_obj_iff, List.forall_mem_singleton, demands_keyword rfl happlies, holds_ref_iff]

/-! ## Annotations -/

/-- The meaning of a keyword depends on three of its neighbours only. -/
theorem holds_of_lookups {schema' : List (String × Json)} {k : Keyword}
    (hprops : Json.lookup "properties" schema' = Json.lookup "properties" schema)
    (hordered : Json.lookup "prefixItems" schema' = Json.lookup "prefixItems" schema)
    (h : Holds d defs schema k j v) : Holds d defs schema' k j v := by
  -- The declared properties and the number of items in order are read from the neighbours.
  have hdeclares : ∀ key, Declares schema' key ↔ Declares schema key := by
    intro key
    unfold Declares
    rw [hprops]
  have hlength : prefixLength d schema' = prefixLength d schema := by
    unfold prefixLength
    rw [hordered]
  cases h with
  | type hword hkind => exact .type hword hkind
  | enum hmem heq => exact .enum hmem heq
  | properties hall => exact .properties hall
  | required hall => exact .required hall
  | additionalProperties hall =>
      exact .additionalProperties fun key w hw hnot =>
        hall key w hw fun hd => hnot ((hdeclares key).2 hd)
  | items hne hall =>
      exact .items hne fun values i w hv hi hw => hall values i w hv (hlength ▸ hi) hw
  | itemsInOrder hd hall => exact .itemsInOrder hd hall
  | prefixItems hall => exact .prefixItems hall
  | minItems hall => exact .minItems hall
  | maxItems hall => exact .maxItems hall
  | uniqueItems hall => exact .uniqueItems hall
  | anyOf hmem hvalid => exact .anyOf hmem hvalid
  | allOf hall => exact .allOf hall
  | ref hname hlookup hvalid => exact .ref hname hlookup hvalid

theorem appliesIn_iff_of_lookup {schema' : List (String × Json)} {k : Keyword}
    (href : Json.lookup "$ref" schema' = Json.lookup "$ref" schema) :
    k.AppliesIn d schema' ↔ k.AppliesIn d schema := by
  unfold Keyword.AppliesIn
  rw [href]

/-- Schemas with the same keywords accept the same values. -/
theorem valid_iff_of_keywords {schema' : List (String × Json)}
    (hlookup : ∀ key k, Keyword.ofName? key = some k →
      Json.lookup key schema' = Json.lookup key schema)
    (hmem : ∀ m k, Keyword.ofName? (Prod.fst m) = some k → (m ∈ schema' ↔ m ∈ schema)) :
    Valid d defs (.obj schema') v ↔ Valid d defs (.obj schema) v := by
  have href := hlookup "$ref" .ref rfl
  have hprops := hlookup "properties" .properties rfl
  have hordered := hlookup "prefixItems" .prefixItems rfl
  rw [valid_obj_iff, valid_obj_iff]
  constructor
  · intro h m hm k hk happlies
    have hold := h m ((hmem m k hk).2 hm) k hk ((appliesIn_iff_of_lookup href).2 happlies)
    exact holds_of_lookups hprops.symm hordered.symm hold
  · intro h m hm k hk happlies
    have hnew := h m ((hmem m k hk).1 hm) k hk ((appliesIn_iff_of_lookup href).1 happlies)
    exact holds_of_lookups hprops hordered hnew

/-- Annotations in front of a schema change nothing. -/
theorem valid_append_iff {front : List (String × Json)}
    (hfront : ∀ x ∈ front, Keyword.ofName? x.1 = none) :
    Valid d defs (.obj (front ++ schema)) v ↔ Valid d defs (.obj schema) v := by
  have hnot : ∀ {m : String × Json} {k : Keyword}, Keyword.ofName? m.1 = some k → m ∉ front := by
    intro m k hk hm
    rw [hfront m hm] at hk
    cases hk
  apply valid_iff_of_keywords
  · intro key k hk
    refine Json.lookup_append_of_not_mem ?_
    intro hmem
    rcases List.mem_map.1 hmem with ⟨x, hx, rfl⟩
    exact hnot hk hx
  · intro m k hk
    simp [hnot hk]

theorem valid_insert_iff {key : String} {arg : Json} (hkey : Keyword.ofName? key = none) :
    Valid d defs (.obj (Json.insert key arg schema)) v ↔ Valid d defs (.obj schema) v := by
  have hne : ∀ {other : String} {k : Keyword}, Keyword.ofName? other = some k → other ≠ key := by
    intro other k hk heq
    rw [heq, hkey] at hk
    cases hk
  apply valid_iff_of_keywords
  · intro other k hk
    exact Json.lookup_insert_of_ne (hne hk) arg schema
  · intro m k hk
    exact Json.mem_insert_of_ne (hne hk)

/-- A keyword that is an annotation changes nothing, beside a reference too. -/
theorem valid_annotate_iff {key : String} {arg : Json} (hkey : Keyword.ofName? key = none)
    {members : List (String × Json)} :
    Valid d defs (annotate d key arg (.obj members)) v ↔ Valid d defs (.obj members) v := by
  cases d with
  | draft2020 => exact valid_insert_iff hkey
  | draft07 =>
      unfold annotate
      by_cases href : (Json.get? (.obj members) "$ref").isSome = true
      · simp only [href, if_true]
        -- The older draft ignores what stands beside a reference, which is put into an `allOf`.
        have hallOf : Json.lookup "$ref" [("allOf", Json.arr [.obj members])] = none := by
          simp [Json.lookup]
        rw [valid_insert_iff hkey, valid_obj_iff, List.forall_mem_singleton,
          demands_iff rfl (by decide) hallOf, holds_allOf_iff, List.forall_mem_singleton]
      · simp only [href]
        exact valid_insert_iff hkey

/-! ## Listed values -/

/-- The common type of listed values follows from the values. -/
theorem hasKind_of_equal {w : Json} {word : String} (hw : kindOf w = some word)
    (heq : Json.equal w v = true) : ∃ kind : Json.Kind, kind.word = word ∧ Json.HasKind kind v := by
  -- Lists and objects have no common type, and for texts and truth values the kinds are plain.
  cases w with
  | null => simp [kindOf] at hw
  | arr items => simp [kindOf] at hw
  | obj members => simp [kindOf] at hw
  | bool b =>
      cases v with
      | bool b' => exact ⟨.boolean, by simpa [kindOf, Json.Kind.word] using hw, .boolean b'⟩
      | _ => simp [Json.equal] at heq
  | str s =>
      cases v with
      | str s' => exact ⟨.string, by simpa [kindOf, Json.Kind.word] using hw, .string s'⟩
      | _ => simp [Json.equal] at heq
  | num n =>
      cases v with
      | num n' =>
          have hunits : n.units = n'.units := by simpa [Json.equal] using heq
          cases n with
          | int i =>
              -- A whole number equals whole numbers only, however they are written.
              have hwhole : n'.IsWhole := by
                unfold Json.Number.IsWhole
                rw [← hunits]
                exact Json.Number.isWhole_int i
              exact ⟨.integer, by simpa [kindOf, Json.Kind.word] using hw, .integer hwhole⟩
          | float x => exact ⟨.number, by simpa [kindOf, Json.Kind.word] using hw, .number n'⟩
      | _ => simp [Json.equal] at heq

theorem kindOf_of_commonType {values : List Json} {word : String}
    (h : commonType values = some word) : ∀ w ∈ values, kindOf w = some word := by
  cases values with
  | nil => simp [commonType] at h
  | cons first rest =>
      cases hfirst : kindOf first with
      | none => simp [commonType, hfirst] at h
      | some kind =>
          have hall : ((first :: rest).all fun w => kindOf w == some kind) = true ∧ kind = word := by
            simpa [commonType, hfirst] using h
          intro w hw
          have := List.all_eq_true.1 hall.1 w hw
          rw [← hall.2]
          simpa using this

theorem valid_values_iff {values : List Json} :
    Valid d defs (.obj (valuesSchema values)) v ↔ ∃ w ∈ values, Json.equal w v := by
  unfold valuesSchema
  cases hcommon : commonType values with
  | none =>
      have href : Json.lookup "$ref" [("enum", Json.arr values)] = none := by simp [Json.lookup]
      rw [valid_obj_iff, List.forall_mem_singleton, demands_iff rfl (by decide) href,
        holds_enum_iff]
  | some word =>
      have href : Json.lookup "$ref" [("enum", Json.arr values), ("type", .str word)] = none := by
        simp [Json.lookup]
      rw [valid_obj_iff, List.forall_mem_cons, List.forall_mem_singleton,
        demands_iff rfl (by decide) href, demands_iff rfl (by decide) href, holds_enum_iff]
      constructor
      · intro h
        exact h.1
      · rintro ⟨w, hw, heq⟩
        -- The type is that of all listed values, and so it is the type of the value.
        rcases hasKind_of_equal (kindOf_of_commonType hcommon w hw) heq with ⟨kind, hword, hkind⟩
        exact ⟨⟨w, hw, heq⟩, .type hword hkind⟩

theorem valid_enumSchema_iff {e : Enumeration} :
    Valid d defs (enumSchema e) v ↔ ∃ w ∈ e.values, Json.equal w v := by
  have hfront : ∀ x ∈ ("title", Json.str e.name) ::
      (e.docs.map fun docs => ("description", Json.str docs)).toList,
      Keyword.ofName? x.1 = none := by
    intro x hx
    rcases List.mem_cons.1 hx with rfl | hdocs
    · rfl
    · cases hd : e.docs <;> simp [hd] at hdocs
      rw [hdocs]
      rfl
  have hschema : enumSchema e = .obj (("title", Json.str e.name) ::
      (e.docs.map fun docs => ("description", Json.str docs)).toList ++ valuesSchema e.values) := by
    unfold enumSchema
    cases e.docs <;> rfl
  rw [hschema, valid_append_iff hfront, valid_values_iff]

/-! ## Arrays -/

theorem holds_items_iff {members : List (String × Json)}
    (hordered : Json.lookup "prefixItems" schema = none) :
    Holds d defs schema .items (.obj members) v ↔
      ∀ values, v = .arr values → ∀ w ∈ values, Valid d defs (.obj members) w := by
  have hlength : prefixLength d schema = 0 := by
    unfold prefixLength
    rw [hordered]
    cases d <;> rfl
  constructor
  · intro h values hv w hw
    rcases List.mem_iff_getElem?.1 hw with ⟨i, hi⟩
    cases h with
    | items _ hall => exact hall values i w hv (by rw [hlength]; exact Nat.zero_le i) hi
  · intro h
    refine .items (fun schemas heq => by cases heq) ?_
    intro values i w hv _ hi
    exact h values hv w (List.mem_of_getElem? hi)

theorem holds_type_array_iff :
    Holds d defs schema .type (.str "array") v ↔ ∃ values, v = .arr values := by
  rw [show "array" = Json.Kind.array.word from rfl, holds_type_iff]
  constructor
  · intro h
    cases h with
    | array values => exact ⟨values, rfl⟩
  · rintro ⟨values, rfl⟩
    exact .array values

/-- An array of which something holds, where the keywords speak of all arrays. -/
theorem exists_array_iff {P : List Json → Prop} :
    ((∃ values, v = .arr values) ∧ ∀ values, v = .arr values → P values) ↔
      ∃ values, v = .arr values ∧ P values := by
  constructor
  · rintro ⟨⟨values, hv⟩, hall⟩
    exact ⟨values, hv, hall values hv⟩
  · rintro ⟨values, rfl, hP⟩
    refine ⟨⟨values, rfl⟩, ?_⟩
    intro values' heq
    cases heq
    exact hP

theorem valid_arrayOf_iff {members : List (String × Json)} :
    Valid d defs (.obj [("type", .str "array"), ("items", .obj members)]) v ↔
      ∃ values, v = .arr values ∧ ∀ w ∈ values, Valid d defs (.obj members) w := by
  have href : Json.lookup "$ref" [("type", Json.str "array"), ("items", .obj members)] = none := by
    simp [Json.lookup]
  have hordered :
      Json.lookup "prefixItems" [("type", Json.str "array"), ("items", .obj members)] = none := by
    simp [Json.lookup]
  rw [valid_obj_iff, List.forall_mem_cons, List.forall_mem_singleton,
    demands_iff rfl (by decide) href, demands_iff rfl (by decide) href, holds_type_array_iff,
    holds_items_iff hordered, exists_array_iff]

theorem holds_uniqueItems_iff :
    Holds d defs schema .uniqueItems (.bool true) v ↔
      ∀ values, v = .arr values → Json.Distinct values := by
  constructor
  · intro h
    cases h with
    | uniqueItems hall => exact fun values hv => hall values rfl hv
  · intro h
    exact .uniqueItems fun values _ hv => h values hv

theorem valid_setOf_iff {members : List (String × Json)} :
    Valid d defs
        (.obj [("type", .str "array"), ("items", .obj members), ("uniqueItems", .bool true)]) v ↔
      ∃ values, v = .arr values ∧ (∀ w ∈ values, Valid d defs (.obj members) w) ∧
        Json.Distinct values := by
  have href : Json.lookup "$ref"
      [("type", Json.str "array"), ("items", .obj members), ("uniqueItems", .bool true)] = none := by
    simp [Json.lookup]
  have hordered : Json.lookup "prefixItems"
      [("type", Json.str "array"), ("items", .obj members), ("uniqueItems", .bool true)] = none := by
    simp [Json.lookup]
  rw [valid_obj_iff, List.forall_mem_cons, List.forall_mem_cons, List.forall_mem_singleton,
    demands_iff rfl (by decide) href, demands_iff rfl (by decide) href,
    demands_iff rfl (by decide) href, holds_type_array_iff, holds_items_iff hordered,
    holds_uniqueItems_iff, ← exists_array_iff]
  simp only [imp_and, forall_and]

/-! ## Arrays of fixed length -/

/-- A schema for each of the first values. -/
def ValidInOrder (d : Draft) (defs : List (String × Json)) (schemas values : List Json) : Prop :=
  ∀ (i : Nat) inner w, schemas[i]? = some inner → values[i]? = some w → Valid d defs inner w

theorem holds_prefixItems_iff {schemas : List Json} :
    Holds d defs schema .prefixItems (.arr schemas) v ↔
      ∀ values, v = .arr values → ValidInOrder d defs schemas values := by
  constructor
  · intro h
    cases h with
    | prefixItems hall => exact fun values hv i inner w hi hw => hall values i inner w hv hi hw
  · intro h
    exact .prefixItems fun values i inner w hv hi hw => h values hv i inner w hi hw

theorem holds_itemsInOrder_iff {schemas : List Json} :
    Holds .draft07 defs schema .items (.arr schemas) v ↔
      ∀ values, v = .arr values → ValidInOrder .draft07 defs schemas values := by
  constructor
  · intro h
    cases h with
    | items hne _ => exact absurd rfl (hne schemas)
    | itemsInOrder _ hall => exact fun values hv i inner w hi hw => hall values i inner w hv hi hw
  · intro h
    exact .itemsInOrder rfl fun values i inner w hv hi hw => h values hv i inner w hi hw

theorem holds_minItems_iff {n : Nat} :
    Holds d defs schema .minItems (Json.ofNat n) v ↔ ∀ values, v = .arr values → n ≤ values.length := by
  constructor
  · intro h
    cases h with
    | minItems hall => exact fun values hv => Int.ofNat_le.1 (hall values hv)
  · intro h
    exact .minItems fun values hv => Int.ofNat_le.2 (h values hv)

theorem holds_maxItems_iff {n : Nat} :
    Holds d defs schema .maxItems (Json.ofNat n) v ↔ ∀ values, v = .arr values → values.length ≤ n := by
  constructor
  · intro h
    cases h with
    | maxItems hall => exact fun values hv => Int.ofNat_le.1 (hall values hv)
  · intro h
    exact .maxItems fun values hv => Int.ofNat_le.2 (h values hv)

theorem valid_tupleOf_iff {schemas : List Json} :
    Valid d defs (tupleOf d schemas) v ↔
      ∃ values, v = .arr values ∧ values.length = schemas.length ∧
        ValidInOrder d defs schemas values := by
  have hlength : ∀ values : List Json,
      values.length = schemas.length ∧ ValidInOrder d defs schemas values ↔
        ValidInOrder d defs schemas values ∧ schemas.length ≤ values.length ∧
          values.length ≤ schemas.length := by
    intro values
    rw [and_comm, and_congr_right_iff]
    intro _
    exact ⟨fun h => ⟨Nat.le_of_eq h.symm, Nat.le_of_eq h⟩, fun h => Nat.le_antisymm h.2 h.1⟩
  simp only [hlength]
  rw [← exists_array_iff]
  -- The drafts write the schemas of the items under different keywords.
  cases d with
  | draft2020 =>
      have hkeyword : ∀ {key : String} {arg : Json} {k : Keyword} {members : List (String × Json)},
          Keyword.ofName? key = some k →
            (Demands .draft2020 defs members (key, arg) v ↔ Holds .draft2020 defs members k arg v) :=
        fun hk => demands_keyword hk trivial
      show Valid .draft2020 defs (.obj [("type", .str "array"), ("prefixItems", .arr schemas),
        ("minItems", Json.ofNat schemas.length), ("maxItems", Json.ofNat schemas.length)]) v ↔ _
      rw [valid_obj_iff, List.forall_mem_cons, List.forall_mem_cons, List.forall_mem_cons,
        List.forall_mem_singleton, hkeyword rfl, hkeyword rfl, hkeyword rfl, hkeyword rfl,
        holds_type_array_iff, holds_prefixItems_iff, holds_minItems_iff, holds_maxItems_iff]
      simp only [imp_and, forall_and]
  | draft07 =>
      have href : Json.lookup "$ref" [("type", Json.str "array"), ("items", .arr schemas),
          ("minItems", Json.ofNat schemas.length), ("maxItems", Json.ofNat schemas.length)] = none := by
        simp [Json.lookup]
      show Valid .draft07 defs (.obj [("type", .str "array"), ("items", .arr schemas),
        ("minItems", Json.ofNat schemas.length), ("maxItems", Json.ofNat schemas.length)]) v ↔ _
      rw [valid_obj_iff, List.forall_mem_cons, List.forall_mem_cons, List.forall_mem_cons,
        List.forall_mem_singleton, demands_iff rfl (by decide) href,
        demands_iff rfl (by decide) href, demands_iff rfl (by decide) href,
        demands_iff rfl (by decide) href, holds_type_array_iff, holds_itemsInOrder_iff,
        holds_minItems_iff, holds_maxItems_iff]
      simp only [imp_and, forall_and]

/-! ## Objects -/

theorem holds_type_object_iff :
    Holds d defs schema .type (.str "object") v ↔ ∃ members, v = .obj members := by
  rw [show "object" = Json.Kind.object.word from rfl, holds_type_iff]
  constructor
  · intro h
    cases h with
    | object members => exact ⟨members, rfl⟩
  · rintro ⟨members, rfl⟩
    exact .object members

theorem holds_additionalProperties_iff :
    Holds d defs schema .additionalProperties j v ↔
      ∀ key w, v.get? key = some w → ¬ Declares schema key → Valid d defs j w := by
  constructor
  · intro h
    cases h with
    | additionalProperties hall => exact hall
  · exact .additionalProperties

theorem valid_mapOf_iff :
    Valid d defs (.obj [("type", .str "object"), ("additionalProperties", j)]) v ↔
      ∃ members, v = .obj members ∧ ∀ key w, Json.lookup key members = some w → Valid d defs j w := by
  have href : Json.lookup "$ref" [("type", Json.str "object"), ("additionalProperties", j)] = none := by
    simp [Json.lookup]
  have hnone : ∀ key, ¬ Declares [("type", Json.str "object"), ("additionalProperties", j)] key := by
    rintro key ⟨props, hprops, _⟩
    simp [Json.lookup] at hprops
  rw [valid_obj_iff, List.forall_mem_cons, List.forall_mem_singleton,
    demands_iff rfl (by decide) href, demands_iff rfl (by decide) href, holds_type_object_iff,
    holds_additionalProperties_iff]
  constructor
  · rintro ⟨⟨members, rfl⟩, hall⟩
    exact ⟨members, rfl, fun key w hw => hall key w hw (hnone key)⟩
  · rintro ⟨members, rfl, hall⟩
    exact ⟨⟨members, rfl⟩, fun key w hw _ => hall key w hw⟩

/-! ## Models -/

/-- The required names, if there are any. -/
def requiredMember (names : List String) : List (String × Json) :=
  if names.isEmpty then [] else [("required", Json.strings names)]

/-- The keywords of the schema of a model. -/
def modelKeywords (o : Options) (m : Model) (props : List (String × Json)) : List (String × Json) :=
  [("type", .str "object"), ("properties", .obj (Json.insertAll [] props))] ++
    (requiredMember ((m.fields.filter (isRequired o)).map (propertyName o)) ++
      additionalProperties o m.extra)

/-- Title and documentation stand in front of the keywords. -/
theorem valid_objectMembers_iff_keywords {o : Options} {m : Model} {titled : Bool}
    {props : List (String × Json)} :
    Valid d defs (.obj (objectMembers o m titled props)) v ↔
      Valid d defs (.obj (modelKeywords o m props)) v := by
  have hfront : ∀ x ∈ (if titled then [("title", Json.str m.name)] else []) ++
      (m.docs.map fun docs => ("description", Json.str docs)).toList,
      Keyword.ofName? x.1 = none := by
    intro x hx
    rcases List.mem_append.1 hx with htitle | hdocs
    · cases titled <;> simp at htitle
      rw [htitle]
      rfl
    · cases hd : m.docs <;> simp [hd] at hdocs
      rw [hdocs]
      rfl
  -- The schema is its annotations, followed by the keywords.
  have hmembers : objectMembers o m titled props =
      (if titled then [("title", Json.str m.name)] else []) ++
        (m.docs.map fun docs => ("description", Json.str docs)).toList ++
          modelKeywords o m props := by
    unfold objectMembers modelKeywords requiredMember
    cases m.docs <;> simp
  rw [hmembers, valid_append_iff hfront]

theorem lookup_ref_modelKeywords (o : Options) (m : Model) (props : List (String × Json)) :
    Json.lookup "$ref" (modelKeywords o m props) = none := by
  rw [Json.lookup_eq_none_iff]
  intro hmem
  rcases List.mem_map.1 hmem with ⟨x, hx, hkey⟩
  simp only [modelKeywords, List.mem_append] at hx
  -- None of the members of the schema of a model is a reference.
  rcases hx with hbody | hrequired | hadditional
  · rcases List.mem_pair.1 hbody with rfl | rfl <;> simp at hkey
  · unfold requiredMember at hrequired
    split at hrequired <;> simp at hrequired
    simp [hrequired] at hkey
  · have hname : x.1 = "additionalProperties" := by
      unfold additionalProperties at hadditional
      split at hadditional <;> (try split at hadditional) <;> simp at hadditional <;>
        simp [hadditional]
    simp [hname] at hkey

theorem holds_properties_iff {props : List (String × Json)} :
    Holds d defs schema .properties (.obj props) v ↔
      ∀ key inner w, Json.lookup key props = some inner → v.get? key = some w →
        Valid d defs inner w := by
  constructor
  · intro h
    cases h with
    | properties hall => exact hall
  · exact .properties

theorem holds_required_iff {names : List String} :
    Holds d defs schema .required (Json.strings names) v ↔
      ∀ members, v = .obj members → ∀ name ∈ names, (Json.lookup name members).isSome := by
  constructor
  · intro h members hv name hname
    cases h with
    | required hall =>
        have hsome := hall members name hv (List.mem_map.2 ⟨name, hname, rfl⟩)
        rw [hv] at hsome
        exact hsome
  · intro h
    refine .required ?_
    intro members name hv hname
    rcases List.mem_map.1 hname with ⟨name', hname', heq⟩
    cases heq
    rw [hv]
    exact h members hv name hname'

end

end Schema
end WireTypes
