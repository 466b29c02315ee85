import WireTypes.Proofs.Schema.DraftConformance

/-!
# Draft translation — schemas of draft 2020-12 in draft 07

A schema of draft 2020-12 becomes one of draft 07 if schemas for the first items stand under `items`, a
reference with keywords beside it is wrapped, and definitions are called by their older name. Each of the
shapes that are written in one draft has the same shape of the other as its translation.

- `translate`: the translation of a schema, at all its schema positions;
- `map_insert`, `map_insertAll`: members may be inserted before or after it;
- `translate_annotate`, `translate_decorate`: so may annotations and bounds;
- `translate_refTo`, `translate_tupleOf`, `translate_objectMembers`: the shapes in which the drafts differ,
  and those with schemas inside.
-/

namespace WireTypes
namespace Schema

open Synthesis

/-! ## Translation -/

/-- A target among the definitions, in the older draft. -/
def retarget (target : String) : String :=
  let front := "#/$defs/".toList
  if front.isPrefixOf target.toList then
    "#/definitions/" ++ String.ofList (target.toList.drop front.length)
  else target

/-- The name of a keyword in the older draft. -/
def olderKeyword : String → String
  | "prefixItems" => "items"
  | "$defs" => "definitions"
  | key => key

/-- A reference, wrapped if other keywords stand beside it. -/
def translateReference (alone : Bool) (target : Json) : String × Json :=
  let target :=
    match target with
    | .str target => .str (retarget target)
    | target => target
  if alone then ("$ref", target) else ("allOf", .arr [.obj [("$ref", target)]])

mutual

/-- A schema, or a list of schemas. -/
def translate : Json → Json
  | .obj members => .obj (translateMembers (members.length == 1) members)
  | .arr items => .arr (translateItems items)
  | j => j

def translateItems : List Json → List Json
  | [] => []
  | j :: rest => translate j :: translateItems rest

/-- Schemas by name. -/
def translateNames : Json → Json
  | .obj members => .obj (translateNamed members)
  | j => j

def translateNamed : List (String × Json) → List (String × Json)
  | [] => []
  | m :: rest => translateEntry m :: translateNamed rest

def translateEntry : String × Json → String × Json
  | (name, j) => (name, translate j)

def translateMembers (alone : Bool) : List (String × Json) → List (String × Json)
  | [] => []
  | m :: rest => translateMember alone m :: translateMembers alone rest

def translateMember (alone : Bool) : String × Json → String × Json
  | (key, value) =>
      if key = "$ref" then translateReference alone value
      else
        (olderKeyword key,
          match Applicator.ofName? key with
          | some .byName => translateNames value
          | some _ => translate value
          -- What is no schema stays, but for the name of the dialect.
          | none => if key = "$schema" then .str Draft.draft07.uri else value)

end

section

variable {alone : Bool} {key : String} {value j : Json} {js : List Json} {members : List (String × Json)}

theorem translateItems_eq_map (js : List Json) : translateItems js = js.map translate := by
  induction js with
  | nil => rfl
  | cons j rest ih => rw [translateItems, ih, List.map_cons]

theorem translateNamed_eq_map (members : List (String × Json)) :
    translateNamed members = members.map translateEntry := by
  induction members with
  | nil => rfl
  | cons m rest ih => rw [translateNamed, ih, List.map_cons]

theorem translateMembers_eq_map (alone : Bool) (members : List (String × Json)) :
    translateMembers alone members = members.map (translateMember alone) := by
  induction members with
  | nil => rfl
  | cons m rest ih => rw [translateMembers, ih, List.map_cons]

theorem translate_obj (members : List (String × Json)) :
    translate (.obj members) = .obj (members.map (translateMember (members.length == 1))) := by
  rw [translate, translateMembers_eq_map]

theorem translate_arr (js : List Json) : translate (.arr js) = .arr (js.map translate) := by
  rw [translate, translateItems_eq_map]

theorem retarget_reference (name : String) :
    retarget (Draft.draft2020.reference name) = Draft.draft07.reference name := by
  have split : (Draft.draft2020.reference name).toList = "#/$defs/".toList ++ name.toList := by
    simp [Draft.reference, Draft.defsKey]
  have later : Draft.draft07.reference name = "#/definitions/" ++ name := rfl
  simp [retarget, split, later]

/-! ### Members -/

theorem translateMember_of_isPlain (h : IsPlain key) (other : key ≠ "$schema") (value : Json) :
    translateMember alone (key, value) = (key, value) := by
  have name : olderKeyword key = key := by
    unfold olderKeyword
    split
    · exact absurd h.2 (by decide)
    · exact absurd h.2 (by decide)
    · rfl
  simp [translateMember, h.1, h.2, other, name]

theorem translateMember_byName (hkey : key ≠ "$ref") (holds : Applicator.ofName? key = some .byName)
    (members : List (String × Json)) :
    translateMember alone (key, .obj members)
      = (olderKeyword key, .obj (members.map translateEntry)) := by
  simp [translateMember, hkey, holds, translateNames, translateNamed_eq_map]

/-- Whether a reference stands alone matters to the reference only. -/
theorem translateMember_of_ne {m : String × Json} (h : m.1 ≠ "$ref") :
    translateMember true m = translateMember false m := by
  obtain ⟨key, value⟩ := m
  simp [translateMember, show key ≠ "$ref" from h]

/-- The keywords that are given up or taken up by the translation. -/
def movedKeywords : List String := ["$ref", "allOf", "prefixItems", "items", "$defs", "definitions"]

theorem fst_translateMember_eq_iff (h : key ∉ movedKeywords) (m : String × Json) :
    (translateMember alone m).1 = key ↔ m.1 = key := by
  obtain ⟨name, value⟩ := m
  simp only [movedKeywords, List.mem_cons, List.not_mem_nil, or_false, not_or] at h
  obtain ⟨href, hall, hprefix, hitems, hdefs, hdefinitions⟩ := h
  by_cases reference : name = "$ref"
  · cases alone <;> simp [translateMember, translateReference, reference, Ne.symm href, Ne.symm hall]
  · simp only [translateMember, reference, if_false]
    unfold olderKeyword
    split
    · exact iff_of_false (Ne.symm hitems) (Ne.symm hprefix)
    · exact iff_of_false (Ne.symm hdefinitions) (Ne.symm hdefs)
    · exact Iff.rfl

/-- The other keywords keep their names. -/
theorem fst_translateMember_of_notMem {m : String × Json} (h : m.1 ∉ movedKeywords) :
    (translateMember alone m).1 = m.1 := (fst_translateMember_eq_iff h m).mpr rfl

/-- An insertion before or after a change of the members. -/
theorem map_insert {f : String × Json → String × Json} {name : String} {changed : Json}
    (hself : f (key, value) = (name, changed)) (hkey : ∀ m ∈ members, (f m).1 = name ↔ m.1 = key) :
    (Json.insert key value members).map f = Json.insert name changed (members.map f) := by
  induction members with
  | nil => simp [Json.insert, hself]
  | cons m rest ih =>
      obtain ⟨here, others⟩ := List.forall_mem_cons.mp hkey
      by_cases same : m.1 = key
      · have found : (f m).1 = name := here.mpr same
        simp [Json.insert, same, hself, found]
      · have other : (f m).1 ≠ name := here.not.mpr same
        simp [Json.insert, same, other, ih others]

theorem map_insertAll {f : String × Json → String × Json} {new : List (String × Json)}
    (hkey : ∀ n ∈ new, ∀ m, (f m).1 = n.1 ↔ m.1 = n.1) (members : List (String × Json)) :
    (Json.insertAll members new).map f = Json.insertAll (members.map f) (new.map f) := by
  induction new generalizing members with
  | nil => rfl
  | cons n rest ih =>
      obtain ⟨here, others⟩ := List.forall_mem_cons.mp hkey
      have name : (f n).1 = n.1 := (here n).mpr rfl
      have first : (Json.insert n.1 n.2 members).map f
          = Json.insert (f n).1 (f n).2 (members.map f) :=
        map_insert rfl fun m _ => name.symm ▸ here m
      rw [List.map_cons, Json.insertAll_cons, Json.insertAll_cons, ih others, first]

theorem lookup_map {f : String × Json → String × Json}
    (hself : ∀ v, f (key, v) = (key, v)) (hkey : ∀ m, (f m).1 = key ↔ m.1 = key)
    (members : List (String × Json)) :
    Json.lookup key (members.map f) = Json.lookup key members := by
  induction members with
  | nil => rfl
  | cons m rest ih =>
      obtain ⟨name, old⟩ := m
      by_cases same : name = key
      · subst same
        simp [Json.lookup, hself]
      · have other : (f (name, old)).1 ≠ key := (hkey _).not.mpr same
        simp [Json.lookup, same, other, ih]

/-- Schemas under their names, put together before or after the translation. -/
theorem map_insertAll_entries (new : List (String × Json)) (members : List (String × Json)) :
    (Json.insertAll members new).map translateEntry
      = Json.insertAll (members.map translateEntry) (new.map translateEntry) :=
  map_insertAll (fun _ _ (_, _) => Iff.rfl) members

/-! ## Annotations and bounds -/

/-- The members are not those of a reference alone. -/
def NotAlone (members : List (String × Json)) : Prop := ∀ m, members = [m] → m.1 ≠ "$ref"

theorem translate_obj_of_notAlone (h : NotAlone members) :
    translate (.obj members) = .obj (members.map (translateMember false)) := by
  rw [translate_obj]
  match members with
  | [] => rfl
  | [m] => simp [translateMember_of_ne (h m rfl)]
  | _ :: _ :: _ => rfl

theorem get?_ref_of_notAlone (h : NotAlone members) :
    (translate (.obj members)).get? "$ref" = none := by
  rw [translate_obj_of_notAlone h, Json.get?, Json.lookup_eq_none_iff, List.map_map]
  intro there
  obtain ⟨⟨name, value⟩, _, same⟩ := List.mem_map.mp there
  by_cases reference : name = "$ref"
  · simp [translateMember, translateReference, reference] at same
  · simp only [Function.comp, translateMember, reference, if_false] at same
    unfold olderKeyword at same
    split at same
    · exact absurd same (by decide)
    · exact absurd same (by decide)
    · exact reference same

theorem notAlone_insert (h : key ≠ "$ref") (value : Json) (members : List (String × Json)) :
    NotAlone (Json.insert key value members) := by
  intro m alone
  have there : (key, value) ∈ Json.insert key value members :=
    Json.mem_of_lookup (Json.lookup_insert_self key value members)
  rw [alone, List.mem_singleton] at there
  rwa [← there]

theorem translate_annotation (hkey : key ∈ fieldKeywords) (value : Json) :
    translateMember false (key, value) = (key, value) ∧ key ≠ "$ref" ∧ key ∉ movedKeywords := by
  have plain : ∀ key ∈ fieldKeywords, IsPlain key ∧ key ≠ "$schema" ∧ key ∉ movedKeywords := by
    decide
  obtain ⟨hplain, hschema, hmoved⟩ := plain key hkey
  exact ⟨translateMember_of_isPlain hplain hschema value, hplain.1, hmoved⟩

theorem translate_annotate_of_notAlone (hkey : key ∈ fieldKeywords) (value : Json)
    (h : NotAlone members) :
    translate (annotate .draft2020 key value (.obj members))
      = annotate .draft07 key value (translate (.obj members)) := by
  obtain ⟨stays, href, hmoved⟩ := translate_annotation hkey value
  calc translate (annotate .draft2020 key value (.obj members))
      = .obj ((Json.insert key value members).map (translateMember false)) :=
        translate_obj_of_notAlone (notAlone_insert href value members)
    _ = .obj (Json.insert key value (members.map (translateMember false))) := by
        rw [map_insert stays fun m _ => fst_translateMember_eq_iff hmoved m]
    _ = annotate .draft07 key value (translate (.obj members)) := by
        simp only [annotate, get?_ref_of_notAlone h]
        rw [translate_obj_of_notAlone h]
        rfl

/-- Where an annotation stands beside a reference in one draft, the reference is wrapped in the other. -/
theorem translate_annotate_reference (hkey : key ∈ fieldKeywords) (value target : Json) :
    translate (annotate .draft2020 key value (.obj [("$ref", target)]))
      = annotate .draft07 key value (translate (.obj [("$ref", target)])) := by
  obtain ⟨stays, href, hmoved⟩ := translate_annotation hkey value
  have hwrapping : "allOf" ≠ key := fun same => hmoved (same ▸ by decide)
  have beside : Json.insert key value [("$ref", target)] = [("$ref", target), (key, value)] := by
    simp [Json.insert, Ne.symm href]
  have wrapped : Json.insert key value [translateReference false target]
      = [translateReference false target, (key, value)] := by
    simp [translateReference, Json.insert, hwrapping]
  calc translate (annotate .draft2020 key value (.obj [("$ref", target)]))
      = translate (.obj (Json.insert key value [("$ref", target)])) := rfl
    _ = .obj [translateReference false target, (key, value)] := by
        rw [beside, translate_obj]
        exact congrArg (fun m => Json.obj [_, m]) stays
    _ = .obj (Json.insert key value [translateReference false target]) := by rw [wrapped]
    _ = annotate .draft07 key value (translate (.obj [("$ref", target)])) := rfl

theorem translate_annotate (hkey : key ∈ fieldKeywords) (value j : Json) :
    translate (annotate .draft2020 key value j) = annotate .draft07 key value (translate j) := by
  cases j with
  | obj members =>
      by_cases h : NotAlone members
      · exact translate_annotate_of_notAlone hkey value h
      · obtain ⟨⟨_, target⟩, rfl, rfl⟩ : ∃ m, members = [m] ∧ m.1 = "$ref" := by
          simpa [NotAlone] using h
        exact translate_annotate_reference hkey value target
  | _ => rfl

example : translate (.obj [("$ref", .str "#/$defs/Colour"), ("description", .str "The colour.")])
    = .obj [("allOf", .arr [.obj [("$ref", .str "#/definitions/Colour")]]),
        ("description", .str "The colour.")] := by rfl

theorem translate_annotate? (hkey : key ∈ fieldKeywords) (value : Option Json) (j : Json) :
    translate (annotate? .draft2020 key value j) = annotate? .draft07 key value (translate j) := by
  cases value with
  | none => rfl
  | some value => exact translate_annotate hkey value j

theorem isStringSchema_translate (j : Json) : isStringSchema (translate j) = isStringSchema j := by
  cases j with
  | obj members =>
      have type (alone : Bool) : Json.lookup "type" (members.map (translateMember alone))
          = Json.lookup "type" members :=
        lookup_map (translateMember_of_isPlain (by decide) (by decide))
          (fst_translateMember_eq_iff (by decide)) members
      simp only [isStringSchema, translate_obj, Json.get?, type]
  | _ => rfl

theorem translate_constrain (c : Constraints) (j : Json) :
    translate (constrain .draft2020 c j) = constrain .draft07 c (translate j) := by
  have fold : ∀ (keywords : List (String × Option Json)) (s : Json),
      (∀ k ∈ keywords, k.1 ∈ fieldKeywords) →
      translate (keywords.foldl (fun s k => annotate? .draft2020 k.1 k.2 s) s)
        = keywords.foldl (fun s k => annotate? .draft07 k.1 k.2 s) (translate s) := by
    intro keywords
    induction keywords with
    | nil => exact fun _ _ => rfl
    | cons k rest ih =>
        intro s hkeys
        obtain ⟨here, others⟩ := List.forall_mem_cons.mp hkeys
        rw [List.foldl_cons, List.foldl_cons, ih _ others, translate_annotate? here]
  rw [constrain, constrain, isStringSchema_translate]
  exact fold _ j (constraintKeywords_subset c _)

theorem translate_nullable (j : Json) :
    translate (anyOf [j, typed "null"]) = anyOf [translate j, typed "null"] := rfl

/-- The options in another draft. -/
def inDraft (d : Draft) (o : Options) : Options := { o with draft := d }

/-- What follows the type of a field is the same in both drafts. -/
theorem translate_decorate (o : Options) (f : Field) (nullable : Bool) (j : Json) :
    translate (decorate (inDraft .draft2020 o) f nullable j)
      = decorate (inDraft .draft07 o) f nullable (translate j) := by
  let annotated (d : Draft) (s : Json) : Json :=
    annotate? d "default" (literalDefault? f.default)
      (annotate? d "description" (f.description.map .str) (nullableSchema o nullable s))
  have withNull (s : Json) : translate (nullableSchema o nullable s)
      = nullableSchema o nullable (translate s) := by
    unfold nullableSchema
    split
    · exact translate_nullable s
    · rfl
  have same (s : Json) : translate (annotated .draft2020 s) = annotated .draft07 (translate s) := by
    simp only [annotated]
    rw [translate_annotate? (by decide), translate_annotate? (by decide), withNull]
  have shape (d : Draft) (j : Json) : decorate (inDraft d o) f nullable j
      = if f.computed then annotate d "readOnly" (.bool true) (annotated d (constrain d f.constraints j))
        else annotated d (constrain d f.constraints j) := rfl
  rw [shape, shape, ← translate_constrain, ← same]
  split
  · exact translate_annotate (by decide) _ _
  · rfl

/-! ## Shapes -/

theorem translate_refTo (name : String) : translate (refTo .draft2020 name) = refTo .draft07 name := by
  have alone : translate (refTo .draft2020 name)
      = .obj [("$ref", .str (retarget (Draft.draft2020.reference name)))] := rfl
  rw [alone, retarget_reference, refTo]

theorem translate_anyOf (js : List Json) : translate (anyOf js) = anyOf (js.map translate) := by
  have inside : translate (anyOf js) = .obj [("anyOf", translate (.arr js))] := rfl
  rw [inside, translate_arr, anyOf]

theorem translate_arrayOf (j : Json) : translate (.obj [("type", .str "array"), ("items", j)])
    = .obj [("type", .str "array"), ("items", translate j)] := rfl

theorem translate_setOf (j : Json) :
    translate (.obj [("type", .str "array"), ("items", j), ("uniqueItems", .bool true)])
      = .obj [("type", .str "array"), ("items", translate j), ("uniqueItems", .bool true)] := rfl

theorem translate_mapOf (j : Json) :
    translate (.obj [("type", .str "object"), ("additionalProperties", j)])
      = .obj [("type", .str "object"), ("additionalProperties", translate j)] := rfl

theorem translate_tupleOf (js : List Json) :
    translate (tupleOf .draft2020 js) = tupleOf .draft07 (js.map translate) := by
  have inside : translate (tupleOf .draft2020 js)
      = .obj [("type", .str "array"), ("items", translate (.arr js)), ("minItems", Json.ofNat js.length),
        ("maxItems", Json.ofNat js.length)] := rfl
  rw [inside, translate_arr, tupleOf, List.length_map]

theorem translate_values (values : List Json) :
    translate (.obj (valuesSchema values)) = .obj (valuesSchema values) := by
  unfold valuesSchema
  cases commonType values <;> rfl

theorem translate_enumSchema (e : Enumeration) : translate (enumSchema e) = enumSchema e := by
  unfold enumSchema valuesSchema
  cases e.docs <;> cases commonType e.values <;> rfl

theorem translate_objectMembers (o : Options) (m : Model) (titled : Bool)
    (props : List (String × Json)) :
    translate (.obj (objectMembers o m titled props))
      = .obj (objectMembers o m titled (props.map translateEntry)) := by
  have together : NotAlone (objectMembers o m titled props) := by
    intro x alone reference
    have known : x.1 ∈ objectKeywords := key_objectMembers (alone ▸ List.mem_singleton_self x)
    exact absurd (reference ▸ known) (by decide)
  have title : (if titled then [("title", Json.str m.name)] else []).map (translateMember false)
      = if titled then [("title", Json.str m.name)] else [] := by
    split <;> rfl
  have body : [("type", Json.str "object"), ("properties", .obj (Json.insertAll [] props))].map
        (translateMember false)
      = [("type", .str "object"), ("properties", .obj (Json.insertAll [] (props.map translateEntry)))] := by
    rw [List.map_cons, List.map_cons, translateMember_byName (by decide) rfl, map_insertAll_entries]
    rfl
  have required (names : List String) :
      (if names.isEmpty then [] else [("required", Json.strings names)]).map (translateMember false)
        = if names.isEmpty then [] else [("required", Json.strings names)] := by
    split <;> rfl
  have additional : (additionalProperties o m.extra).map (translateMember false)
      = additionalProperties o m.extra := by
    unfold additionalProperties
    split
    · rfl
    · rfl
    · split <;> rfl
  rw [translate_obj_of_notAlone together, objectMembers, objectMembers, List.map_append,
    List.map_append, List.map_append, List.map_append, title, body, required, additional]
  cases m.docs <;> rfl

end

end Schema
end WireTypes
