import WireTypes.Proofs.Schema.Shapes
import WireTypes.Proofs.Schema.Written

/-!
# Meaning — a schema accepts the values of what it was written for

- `valid_field_iff`, `valid_model_iff`, `valid_type_iff`: the schema of a field, of a model and of a type
  accept the values that the catalog describes, if those of smaller values do;
- `valid_written_iff`: by induction on the size of the value, every written schema does.

References lead back to definitions, so that no induction on types or schemas ends; but a model looks at
smaller values only, namely those of its properties.
-/

namespace WireTypes
namespace Schema

open Synthesis

/-! ## Annotated schemas -/

def IsObject (j : Json) : Prop := ∃ members, j = .obj members

theorem Synthesis.Written.isObject {c : Context} {t : State} {ty : FieldType} {j : Json}
    (h : Written c t ty j) : IsObject j := by
  -- The model of an inlined type is an object too, and all other schemas are written out.
  cases h with
  | inlined _ _ _ hmodel =>
      cases hmodel with
      | object _ => exact ⟨_, rfl⟩
  | _ => exact ⟨_, rfl⟩

theorem isObject_annotate (d : Draft) (key : String) (value : Json) {j : Json} (h : IsObject j) :
    IsObject (annotate d key value j) := by
  rcases h with ⟨members, rfl⟩
  cases d with
  | draft2020 => exact ⟨_, rfl⟩
  | draft07 =>
      by_cases href : (Json.get? (.obj members) "$ref").isSome = true
      · simp only [annotate, href, if_true]
        exact ⟨_, rfl⟩
      · simp only [annotate, href]
        exact ⟨_, rfl⟩

section

variable {d : Draft} {defs : List (String × Json)} {v j : Json} {o : Options}

theorem isObject_annotate? (d : Draft) (key : String) (value : Option Json) (h : IsObject j) :
    IsObject (annotate? d key value j) := by
  cases value with
  | none => exact h
  | some value => exact isObject_annotate d key value h

theorem valid_annotate?_iff {key : String} {value : Option Json}
    (hkey : Keyword.ofName? key = none) (h : IsObject j) :
    Valid d defs (annotate? d key value j) v ↔ Valid d defs j v := by
  rcases h with ⟨members, rfl⟩
  cases value with
  | none => exact Iff.rfl
  | some value => exact valid_annotate_iff hkey

theorem constrain_of_isEmpty {c : Constraints} (h : c.isEmpty = true) (d : Draft) (j : Json) :
    constrain d c j = j := by
  simp only [Constraints.isEmpty, Bool.and_eq_true, Option.isNone_iff_eq_none] at h
  rcases h with ⟨⟨⟨⟨⟨⟨h₁, h₂⟩, h₃⟩, h₄⟩, h₅⟩, h₆⟩, h₇⟩
  simp [constrain, constraintKeywords, annotate?, h₁, h₂, h₃, h₄, h₅, h₆, h₇]

/-- The schema of a field before its annotations. -/
def nullableSchema (o : Options) (nullable : Bool) (j : Json) : Json :=
  match nullable, o.nullable with
  | true, .union => anyOf [j, typed "null"]
  | _, _ => j

theorem isObject_nullableSchema (o : Options) (nullable : Bool) (h : IsObject j) :
    IsObject (nullableSchema o nullable j) := by
  unfold nullableSchema
  split
  · exact ⟨_, rfl⟩
  · exact h

theorem valid_nullableSchema_iff {nullable : Bool} :
    Valid d defs (nullableSchema o nullable j) v ↔
      Valid d defs j v ∨ (nullable = true ∧ o.nullable = .union ∧ v = .null) := by
  unfold nullableSchema
  cases nullable with
  | false => simp
  | true =>
      cases ho : o.nullable with
      | optional => simp
      | union =>
          rw [valid_anyOf_iff]
          simp [valid_null_iff]

/-- Without bounds, what follows the type of a field adds `null` at most. -/
theorem valid_decorate_iff {f : Field} (hempty : f.constraints.isEmpty = true) {nullable : Bool}
    (h : IsObject j) :
    Valid o.draft defs (decorate o f nullable j) v ↔
      Valid o.draft defs j v ∨ (nullable = true ∧ o.nullable = .union ∧ v = .null) := by
  -- Description, default and the mark of computed fields are annotations, each of an object.
  have hbase := isObject_nullableSchema o nullable h
  have hdescribed := isObject_annotate? o.draft "description" (f.description.map .str) hbase
  have hdefaulted := isObject_annotate? o.draft "default" (literalDefault? f.default) hdescribed
  have hdecorate : decorate o f nullable j =
      annotate? o.draft "readOnly" (if f.computed then some (.bool true) else none)
        (annotate? o.draft "default" (literalDefault? f.default)
          (annotate? o.draft "description" (f.description.map .str)
            (nullableSchema o nullable j))) := by
    simp only [decorate, constrain_of_isEmpty hempty]
    cases f.computed <;> rfl
  rw [hdecorate, valid_annotate?_iff rfl hdefaulted, valid_annotate?_iff rfl hdescribed,
    valid_annotate?_iff rfl hbase, valid_nullableSchema_iff]

end

/-! ## Fields -/

section

variable {c : Context} {t : State} {world : Catalog} {defs : List (String × Json)} {v j : Json}

/-- Written schemas accept a value just if it is of the type that they were written for. -/
def Agrees (c : Context) (t : State) (world : Catalog) (defs : List (String × Json)) (v : Json) :
    Prop :=
  ∀ ty j, Written c t ty j → (Valid c.options.draft defs j v ↔ Inhabits world c.options ty v)

theorem valid_field_iff {f : Field} (hempty : f.constraints.isEmpty = true)
    (hwritten : WrittenField c t f j) (hagrees : Agrees c t world defs v) :
    Valid c.options.draft defs j v ↔ Carries world c.options f v := by
  cases hwritten with
  | optional htype hinner =>
      rw [valid_decorate_iff hempty hinner.isObject, hagrees _ _ hinner]
      constructor
      · rintro (hvalue | ⟨_, hunion, rfl⟩)
        · exact .optional htype hvalue
        · exact .null htype hunion
      -- The type decides how a field may carry its value.
      · intro hcarries
        cases hcarries with
        | plain hplain _ =>
            rw [htype] at hplain
            cases hplain
        | null _ hunion => exact Or.inr ⟨rfl, hunion, rfl⟩
        | optional htype' hvalue =>
            rw [htype] at htype'
            cases htype'
            exact Or.inl hvalue
  | plain hplain htype =>
      rw [valid_decorate_iff hempty htype.isObject, hagrees _ _ htype]
      constructor
      · rintro (hvalue | ⟨hfalse, _⟩)
        · exact .plain hplain hvalue
        · cases hfalse
      · intro hcarries
        cases hcarries with
        | plain _ hvalue => exact Or.inl hvalue
        | null htype' _ =>
            rw [htype'] at hplain
            cases hplain
        | optional htype' _ =>
            rw [htype'] at hplain
            cases hplain

/-! ## Models -/

theorem isRequired_iff {o : Options} {f : Field} : isRequired o f = true ↔ MustBePresent o f := by
  unfold isRequired MustBePresent Field.hasDefault
  cases f.computed <;> cases o.nullable <;> simp

theorem Synthesis.WrittenFields.map_fst {fields : List Field} {props : List (String × Json)}
    (h : WrittenFields c t fields props) :
    props.map Prod.fst = fields.map (propertyName c.options) := by
  induction fields generalizing props with
  | nil =>
      cases h
      rfl
  | cons f rest ih =>
      cases h with
      | cons _ hrest => simp [ih hrest]

/-- Every property is that of a field, and the other way round. -/
theorem Synthesis.WrittenFields.mem {fields : List Field} {props : List (String × Json)}
    (h : WrittenFields c t fields props) :
    (∀ key j, (key, j) ∈ props →
      ∃ f ∈ fields, propertyName c.options f = key ∧ WrittenField c t f j) ∧
    ∀ f ∈ fields, ∃ j, (propertyName c.options f, j) ∈ props ∧ WrittenField c t f j := by
  induction fields generalizing props with
  | nil =>
      cases h
      exact ⟨fun key j hmem => absurd hmem List.not_mem_nil, fun f hf => absurd hf List.not_mem_nil⟩
  | cons f rest ih =>
      cases h with
      | cons hfield hrest =>
          rcases ih hrest with ⟨hprops, hfields⟩
          constructor
          · intro key j hmem
            rcases List.mem_cons.1 hmem with heq | hmem
            · cases heq
              exact ⟨f, List.mem_cons_self, rfl, hfield⟩
            · rcases hprops key j hmem with ⟨g, hg, hname, hwritten⟩
              exact ⟨g, List.mem_cons_of_mem _ hg, hname, hwritten⟩
          · intro g hg
            rcases List.mem_cons.1 hg with rfl | hg
            · exact ⟨_, List.mem_cons_self, hfield⟩
            · rcases hfields g hg with ⟨j, hmem, hwritten⟩
              exact ⟨j, List.mem_cons_of_mem _ hmem, hwritten⟩

theorem forall_required_iff {d : Draft} {schema : List (String × Json)} {names : List String}
    (href : Json.lookup "$ref" schema = none) :
    (∀ x ∈ requiredMember names, Demands d defs schema x v) ↔
      ∀ members, v = .obj members → ∀ name ∈ names, (Json.lookup name members).isSome := by
  cases names with
  | nil => simp [requiredMember]
  | cons name rest =>
      rw [requiredMember, if_neg (by simp), List.forall_mem_singleton, demands_iff rfl (by decide) href,
        holds_required_iff]

theorem forall_additionalProperties_iff {d : Draft} {schema : List (String × Json)} {o : Options}
    {m : Model} (href : Json.lookup "$ref" schema = none) :
    (∀ x ∈ additionalProperties o m.extra, Demands d defs schema x v) ↔
      (IsClosed o m → ∀ key w, v.get? key = some w → Declares schema key) := by
  have hopen : (∀ x ∈ [("additionalProperties", Json.bool true)], Demands d defs schema x v) := by
    rw [List.forall_mem_singleton, demands_iff rfl (by decide) href, holds_additionalProperties_iff]
    intro key w _ _
    exact .anything
  have hclosed : (∀ x ∈ [("additionalProperties", Json.bool false)], Demands d defs schema x v) ↔
      ∀ key w, v.get? key = some w → Declares schema key := by
    rw [List.forall_mem_singleton, demands_iff rfl (by decide) href, holds_additionalProperties_iff]
    constructor
    · intro h key w hw
      by_contra hnot
      exact not_valid_false (h key w hw hnot)
    · intro h key w hw hnot
      exact absurd (h key w hw) hnot
  unfold IsClosed additionalProperties
  cases hextra : m.extra with
  | none =>
      cases o.forbidUnlessAllowed with
      | true => simpa using hclosed
      | false => simp
  | some extra =>
      cases extra with
      | allow => simpa using hopen
      | forbid => simpa using hclosed
      | ignore =>
          cases o.forbidUnlessAllowed with
          | true => simpa using hclosed
          | false => simp

/-- The schema of a model says of an object that its required properties are there, that its declared
properties have values of their schemas, and, if the model is closed, that there are no others. -/
theorem valid_objectMembers_iff {o : Options} {m : Model} {titled : Bool}
    {props : List (String × Json)} :
    Valid o.draft defs (.obj (objectMembers o m titled props)) v ↔
      ∃ members, v = .obj members ∧
        (∀ f ∈ m.fields, MustBePresent o f →
          (Json.lookup (propertyName o f) members).isSome) ∧
        (∀ key inner w, Json.lookup key (Json.insertAll [] props) = some inner →
          Json.lookup key members = some w → Valid o.draft defs inner w) ∧
        (IsClosed o m → ∀ key w, Json.lookup key members = some w →
          (Json.lookup key (Json.insertAll [] props)).isSome) := by
  have href := lookup_ref_modelKeywords o m props
  have hdeclared : ∀ key, Declares (modelKeywords o m props) key ↔
      (Json.lookup key (Json.insertAll [] props)).isSome := by
    intro key
    unfold Declares modelKeywords
    simp [Json.lookup]
  -- The schema consists of the type, the properties, the required names and the rule for other names.
  have hparts : ∀ P : String × Json → Prop, (∀ x ∈ modelKeywords o m props, P x) ↔
      (P ("type", .str "object") ∧ P ("properties", .obj (Json.insertAll [] props))) ∧
        (∀ x ∈ requiredMember ((m.fields.filter (isRequired o)).map (propertyName o)), P x) ∧
        (∀ x ∈ additionalProperties o m.extra, P x) := by
    intro P
    unfold modelKeywords
    simp only [List.forall_mem_append, List.forall_mem_cons, List.not_mem_nil, false_implies,
      implies_true, and_true]
  rw [valid_objectMembers_iff_keywords, valid_obj_iff, hparts, forall_required_iff href,
    forall_additionalProperties_iff href, demands_iff rfl (by decide) href,
    demands_iff rfl (by decide) href, holds_type_object_iff, holds_properties_iff]
  -- The required names are those of the fields that must be present.
  have hrequired : ∀ members : List (String × Json),
      (∀ name ∈ (m.fields.filter (isRequired o)).map (propertyName o),
          (Json.lookup name members).isSome) ↔
        ∀ f ∈ m.fields, MustBePresent o f →
          (Json.lookup (propertyName o f) members).isSome := by
    intro members
    simp only [List.mem_map, List.mem_filter, isRequired_iff]
    constructor
    · intro h f hf hpresent
      exact h _ ⟨f, ⟨hf, hpresent⟩, rfl⟩
    · rintro h _ ⟨f, ⟨hf, hpresent⟩, rfl⟩
      exact h f hf hpresent
  constructor
  · rintro ⟨⟨⟨members, rfl⟩, hproperties⟩, hnames, hclosed⟩
    refine ⟨members, rfl, (hrequired members).1 (hnames members rfl), hproperties, ?_⟩
    intro hc key w hw
    exact (hdeclared key).1 (hclosed hc key w hw)
  · rintro ⟨members, rfl, hnames, hproperties, hclosed⟩
    refine ⟨⟨⟨members, rfl⟩, hproperties⟩, ?_, ?_⟩
    · intro members' hmembers
      cases hmembers
      exact (hrequired members).2 hnames
    · intro hc key w hw
      exact (hdeclared key).2 (hclosed hc key w hw)

theorem valid_model_iff {m : Model} (hplain : ∀ f ∈ m.fields, f.constraints.isEmpty = true)
    (hdistinct : (m.fields.map (propertyName c.options)).Nodup) {titled : Bool}
    (hwritten : WrittenModel c t titled m j)
    (ih : ∀ w, sizeOf w < sizeOf v → Agrees c t world defs w) :
    Valid c.options.draft defs j v ↔ Instance world c.options m v := by
  cases hwritten with
  | object hfields =>
      rename_i props
      -- Properties have different names, so that each is found with the schema that was written for it.
      have hnodup : (props.map Prod.fst).Nodup := by
        rw [hfields.map_fst]
        exact hdistinct
      rcases hfields.mem with ⟨hprops, hmem⟩
      rw [valid_objectMembers_iff]
      constructor
      · rintro ⟨members, rfl, hrequired, hproperties, hclosed⟩
        refine .object hrequired ?_ ?_
        · intro f hf w hw
          rcases hmem f hf with ⟨inner, hinner, hwritten⟩
          have hlookup := Json.lookup_insertAll_of_nodup hnodup hinner []
          -- The value of a property is smaller than the object.
          have hagrees := ih w (Json.sizeOf_lt_of_lookup hw)
          exact (valid_field_iff (hplain f hf) hwritten hagrees).1 (hproperties _ inner w hlookup hw)
        · intro hc key w hw
          have hkey := Json.lookup_insertAll_nil_isSome.1 (hclosed hc key w hw)
          rw [hfields.map_fst] at hkey
          rcases List.mem_map.1 hkey with ⟨f, hf, hname⟩
          exact ⟨f, hf, hname⟩
      · intro hinstance
        cases hinstance with
        | object hrequired hcarries hclosed =>
            rename_i members
            refine ⟨members, rfl, hrequired, ?_, ?_⟩
            · intro key inner w hlookup hw
              rcases hprops key inner (Json.mem_of_lookup_insertAll_nil hlookup) with
                ⟨f, hf, rfl, hwritten⟩
              have hagrees := ih w (Json.sizeOf_lt_of_lookup hw)
              exact (valid_field_iff (hplain f hf) hwritten hagrees).2 (hcarries f hf w hw)
            · intro hc key w hw
              rcases hclosed hc key w hw with ⟨f, hf, rfl⟩
              rcases hmem f hf with ⟨inner, hinner, _⟩
              rw [Json.lookup_insertAll_of_nodup hnodup hinner []]
              rfl

/-! ## Types -/

/-- What is known of the definitions of a document when its schemas are read: the models and
enumerations of a catalog, without bounds and with different property names, are defined under the
names by which they are referred to. -/
structure Settled (c : Context) (t : State) (world : Catalog) (defs : List (String × Json)) :
    Prop where
  unique : world.UniqueIds
  unbounded : ∀ m ∈ world.allModels, ∀ f ∈ m.fields, f.constraints.isEmpty = true
  distinct : ∀ m ∈ world.allModels, (m.fields.map (propertyName c.options)).Nodup
  retained : ∀ id name, c.retained.lookup id = some name →
    ∃ m ∈ world.allModels, m.id = id ∧
      ∃ j, Json.lookup name defs = some j ∧ WrittenModel c t true m j
  enums : ∀ id e, c.catalog.enum? id = some e → t.owners.lookup e.name = some id →
    e.name ∈ t.enums.map Prod.fst →
    e ∈ world.enums ∧ e.id = id ∧ Json.lookup e.name defs = some (enumSchema e)
  inlined : ∀ id m, c.catalog.model? id = some m → m ∈ world.allModels ∧ m.id = id

theorem valid_reference_iff (h : Settled c t world defs) {id : DefinitionId}
    (hwritten : Written c t (.ref id) j)
    (ih : ∀ w, sizeOf w < sizeOf v → Agrees c t world defs w) :
    Valid c.options.draft defs j v ↔ Inhabits world c.options (.ref id) v := by
  -- A model is retained or inlined, and its own schema is read in both cases.
  cases hwritten with
  | scalar kind hty _ => cases hty
  | formatted hty => cases hty
  | retained hretained =>
      rcases h.retained _ _ hretained with ⟨m, hm, rfl, j, hlookup, hmodel⟩
      rw [valid_refTo_iff, inhabits_model_iff h.unique hm,
        ← valid_model_iff (h.unbounded m hm) (h.distinct m hm) hmodel ih]
      simp [hlookup]
  | enum _ henum howner hname =>
      rcases h.enums _ _ henum howner hname with ⟨he, rfl, hlookup⟩
      rw [valid_refTo_iff, inhabits_enum_iff h.unique he]
      simp [hlookup, valid_enumSchema_iff]
  | inlined _ _ hmodel hwritten =>
      rcases h.inlined _ _ hmodel with ⟨hm, rfl⟩
      rw [inhabits_model_iff h.unique hm]
      exact valid_model_iff (h.unbounded _ hm) (h.distinct _ hm) hwritten ih

theorem Synthesis.WrittenAll.getElem? {types : List FieldType} {js : List Json}
    (h : WrittenAll c t types js) :
    js.length = types.length ∧
      ∀ (i : Nat) ty j, types[i]? = some ty → js[i]? = some j → Written c t ty j := by
  induction types generalizing js with
  | nil =>
      cases h
      exact ⟨rfl, fun i ty j hty => by simp at hty⟩
  | cons first rest ih =>
      cases h with
      | cons hfirst hrest =>
          rcases ih hrest with ⟨hlength, hall⟩
          refine ⟨by simp [hlength], ?_⟩
          intro i ty j hty hj
          cases i with
          | zero =>
              cases hty
              cases hj
              exact hfirst
          | succ i => exact hall i ty j hty hj

/-- The schemas of a list of types, of which one accepts a value. -/
theorem Synthesis.WrittenAll.exists_iff {types : List FieldType} {js : List Json}
    (h : WrittenAll c t types js) {P : Json → Prop} {Q : FieldType → Prop}
    (hall : ∀ ty ∈ types, ∀ j, Written c t ty j → (P j ↔ Q ty)) :
    (∃ j ∈ js, P j) ↔ ∃ ty ∈ types, Q ty := by
  induction types generalizing js with
  | nil =>
      cases h
      simp
  | cons first rest ih =>
      cases h with
      | cons hfirst hrest =>
          have hhead := hall first List.mem_cons_self _ hfirst
          have htail := ih hrest fun ty hty => hall ty (List.mem_cons_of_mem _ hty)
          simp only [List.mem_cons, exists_eq_or_imp, hhead, htail]

theorem sizeOf_lt_of_mem_arr {values : List Json} {w : Json} (h : w ∈ values) :
    sizeOf w < sizeOf (Json.arr values) := by
  have := List.sizeOf_lt_of_mem h
  simp only [Json.arr.sizeOf_spec]
  omega

/-- A schema of arrays of the values of a type, and smaller values are agreed upon. -/
theorem forall_values_iff {item : FieldType} (hitem : Written c t item j) {values : List Json}
    (ih : ∀ w, sizeOf w < sizeOf (Json.arr values) → Agrees c t world defs w) :
    (∀ w ∈ values, Valid c.options.draft defs j w) ↔ ∀ w ∈ values, Inhabits world c.options item w := by
  constructor
  · intro h w hw
    exact (ih w (sizeOf_lt_of_mem_arr hw) item j hitem).1 (h w hw)
  · intro h w hw
    exact (ih w (sizeOf_lt_of_mem_arr hw) item j hitem).2 (h w hw)

theorem valid_sequence_iff {items : List FieldType} {js values : List Json}
    (hitems : WrittenAll c t items js)
    (ih : ∀ w, sizeOf w < sizeOf (Json.arr values) → Agrees c t world defs w) :
    ValidInOrder c.options.draft defs js values ↔
      ∀ (i : Nat) item w, items[i]? = some item → values[i]? = some w →
        Inhabits world c.options item w := by
  rcases hitems.getElem? with ⟨hlength, hwritten⟩
  -- The items are smaller than the array, and there are as many schemas as types.
  have hsmaller : ∀ {i : Nat} {w : Json}, values[i]? = some w → Agrees c t world defs w :=
    fun hw => ih _ (sizeOf_lt_of_mem_arr (List.mem_of_getElem? hw))
  constructor
  · intro h i item w hitem hw
    have hi : i < js.length := by
      rw [hlength]
      exact (List.getElem?_eq_some_iff.1 hitem).1
    have hj : js[i]? = some js[i] := List.getElem?_eq_getElem hi
    exact (hsmaller hw item _ (hwritten i item _ hitem hj)).1 (h i _ w hj hw)
  · intro h i j w hj hw
    have hi : i < items.length := by
      rw [← hlength]
      exact (List.getElem?_eq_some_iff.1 hj).1
    have hitem : items[i]? = some items[i] := List.getElem?_eq_getElem hi
    exact (hsmaller hw _ j (hwritten i _ j hitem hj)).2 (h i _ w hitem hw)

theorem forall_members_iff {value : FieldType} (hvalue : Written c t value j)
    {members : List (String × Json)}
    (ih : ∀ w, sizeOf w < sizeOf (Json.obj members) → Agrees c t world defs w) :
    (∀ key w, Json.lookup key members = some w → Valid c.options.draft defs j w) ↔
      ∀ key w, Json.lookup key members = some w → Inhabits world c.options value w := by
  constructor
  · intro h key w hw
    exact (ih w (Json.sizeOf_lt_of_lookup hw) value j hvalue).1 (h key w hw)
  · intro h key w hw
    exact (ih w (Json.sizeOf_lt_of_lookup hw) value j hvalue).2 (h key w hw)

/-- Both sides speak of the values of an array, or of an object. -/
theorem exists_congr_of_eq {α : Type} {f : α → Json} {P Q : α → Prop}
    (h : ∀ a, v = f a → (P a ↔ Q a)) : (∃ a, v = f a ∧ P a) ↔ ∃ a, v = f a ∧ Q a := by
  constructor
  · rintro ⟨a, hv, hP⟩
    exact ⟨a, hv, (h a hv).1 hP⟩
  · rintro ⟨a, hv, hQ⟩
    exact ⟨a, hv, (h a hv).2 hQ⟩

/-- The schema of a type accepts its values if the schemas of smaller values do. Only unions and optional
types speak of the value itself again, by types inside them. -/
theorem valid_type_iff (h : Settled c t world defs)
    (ih : ∀ w, sizeOf w < sizeOf v → Agrees c t world defs w) (ty : FieldType) (j : Json)
    (hwritten : Written c t ty j) :
    Valid c.options.draft defs j v ↔ Inhabits world c.options ty v := by
  -- Lists, tuples and dictionaries speak of smaller values, and so do the models behind references.
  cases hwritten with
  | any =>
      rw [valid_obj_iff]
      exact iff_of_true (fun m hm => absurd hm List.not_mem_nil) .any
  | scalar kind hty _ => rw [valid_typed_iff, inhabits_scalar_iff hty]
  | formatted hty =>
      rw [valid_formatted_iff, inhabits_scalar_iff (FieldType.scalarKind?_of_format? hty)]
  | list hitem =>
      rcases hitem.isObject with ⟨members, rfl⟩
      rw [valid_arrayOf_iff, inhabits_list_iff]
      exact exists_congr_of_eq fun values hv => forall_values_iff hitem (hv ▸ ih)
  | set hitem =>
      rcases hitem.isObject with ⟨members, rfl⟩
      rw [valid_setOf_iff, inhabits_set_iff]
      exact exists_congr_of_eq fun values hv =>
        and_congr_left fun _ => forall_values_iff hitem (hv ▸ ih)
  | variadicNil =>
      rw [valid_arrayOf_iff, inhabits_variadic_iff]
      refine exists_congr_of_eq fun values hv => iff_of_true ?_ ?_
      · intro w hw
        rw [valid_obj_iff]
        exact fun m hm => absurd hm List.not_mem_nil
      · intro w hw item hitem
        cases hitem
  | variadicCons hitem =>
      rcases hitem.isObject with ⟨members, rfl⟩
      rw [valid_arrayOf_iff, inhabits_variadic_iff]
      refine exists_congr_of_eq fun values hv => ?_
      rw [forall_values_iff hitem (hv ▸ ih)]
      simp
  | tuple hitems =>
      rw [valid_tupleOf_iff, inhabits_tuple_iff, hitems.getElem?.1]
      exact exists_congr_of_eq fun values hv =>
        and_congr_right fun _ => valid_sequence_iff hitems (hv ▸ ih)
  | dictOfAny _ =>
      rw [valid_mapOf_iff, inhabits_dict_iff]
      exact exists_congr_of_eq fun members hv =>
        iff_of_true (fun key w _ => .anything) fun key w _ => .any
  | dict _ hvalue =>
      rw [valid_mapOf_iff, inhabits_dict_iff]
      exact exists_congr_of_eq fun members hv => forall_members_iff hvalue (hv ▸ ih)
  -- Here the value stays the same, and the type gets smaller.
  | @optional inner innerSchema hinner =>
      have hnull : Valid c.options.draft defs (typed "null") v ↔ v = .null := valid_null_iff
      rw [valid_anyOf_iff, inhabits_optional_iff, ← valid_type_iff h ih inner innerSchema hinner, ← hnull]
      simp
  | @union members js hmembers =>
      rw [valid_anyOf_iff, inhabits_union_iff]
      exact hmembers.exists_iff fun ty hty j hj => valid_type_iff h ih ty j hj
  | literal => rw [valid_values_iff, inhabits_literal_iff]
  | retained hretained => exact valid_reference_iff h (.retained hretained) ih
  | enum hnone henum howner hname =>
      exact valid_reference_iff h (.enum hnone henum howner hname) ih
  | inlined hnone henum hmodel hmodelWritten =>
      exact valid_reference_iff h (.inlined hnone henum hmodel hmodelWritten) ih
termination_by sizeOf ty
decreasing_by
  · simp
  · have := List.sizeOf_lt_of_mem hty
    simp only [FieldType.union.sizeOf_spec]
    omega

/-- Every written schema accepts the values of its type: by induction on the size of the value. -/
theorem valid_written_iff (h : Settled c t world defs) (v : Json) : Agrees c t world defs v := by
  -- A type may contain itself, and so may a schema. What gets smaller on the way is the value.
  induction hsize : sizeOf v using Nat.strongRecOn generalizing v with
  | ind n ih =>
      subst hsize
      exact valid_type_iff h fun w hw => ih (sizeOf w) hw w rfl

theorem valid_definition_iff (h : Settled c t world defs) {m : Model} (hm : m ∈ world.allModels)
    {titled : Bool} (hwritten : WrittenModel c t titled m j) :
    Valid c.options.draft defs j v ↔ Instance world c.options m v :=
  valid_model_iff (h.unbounded m hm) (h.distinct m hm) hwritten fun w _ => valid_written_iff h w

end

end Schema
end WireTypes
