import WireTypes.Proofs.Schema.Meaning

/-!
# Property names — whether every field of a model becomes a property

The schema of a model has an object of properties and a list of required names, which are written side by
side. A property overwrites one of the same name, and the list does not.

- `KeepsFields`: every field is a property with its own schema, in order, and the required names are
  different;
- `objectSchema_keeps_fields_iff`: this is so just if the emitted names of the fields are different, as
  they are without camel case if the names on the wire are.
-/

namespace WireTypes
namespace Schema

open Synthesis

/-! ## Members of the schema of a model -/

section

variable {o : Options} {m : Model} {titled : Bool} {props : List (String × Json)}

/-- The emitted names of the required fields. -/
def requiredNames (o : Options) (m : Model) : List String :=
  (m.fields.filter (isRequired o)).map (propertyName o)

theorem lookup_properties_objectMembers :
    Json.lookup "properties" (objectMembers o m titled props) =
      some (.obj (Json.insertAll [] props)) := by
  unfold objectMembers
  cases titled <;> cases m.docs <;> simp [Json.lookup]

theorem lookup_additionalProperties (extra : Option ExtraFields) {key : String}
    (h : key ≠ "additionalProperties") : Json.lookup key (additionalProperties o extra) = none := by
  apply Json.lookup_eq_none_iff.2
  unfold additionalProperties
  split
  · simpa using h
  · simpa using h
  · split <;> simp [h]

theorem lookup_required_objectMembers :
    Json.lookup "required" (objectMembers o m titled props) =
      if (requiredNames o m).isEmpty then none else some (Json.strings (requiredNames o m)) := by
  have hadditional : Json.lookup "required" (additionalProperties o m.extra) = none :=
    lookup_additionalProperties m.extra (by decide)
  have hnames : (m.fields.filter (isRequired o)).map (propertyName o) = requiredNames o m := rfl
  simp only [objectMembers, hnames]
  cases titled <;> cases m.docs <;> cases requiredNames o m <;> simp [Json.lookup, hadditional]

/-! ## Names of properties -/

/-- Without camel case a property has the name of its field on the wire. -/
theorem propertyName_of_plain (h : o.toCamel = false) (f : Field) : propertyName o f = f.wireName := by
  unfold propertyName Field.wireName
  cases f.alias? <;> simp [h]

theorem nodup_requiredNames (h : (m.fields.map (propertyName o)).Nodup) :
    (requiredNames o m).Nodup :=
  h.sublist (List.filter_sublist.map (propertyName o))

end

/-! ## Fields that are kept -/

/-- Every field is a property with a schema of its own, in the order of the fields, and the required names
are those of the required fields, in order and without repetitions. -/
structure KeepsFields (c : Context) (t : State) (m : Model) (j : Json) : Prop where
  properties : ∃ props, j.get? "properties" = some (.obj props) ∧ WrittenFields c t m.fields props
  required : j.get? "required" =
    if (requiredNames c.options m).isEmpty then none
    else some (Json.strings (requiredNames c.options m))
  distinct : (requiredNames c.options m).Nodup

section

variable {c : Context} {s t : State} {m : Model} {j : Json} {titled : Bool} {depth : Nat}
  {stack : List DefinitionId}

theorem keepsFields_of_nodup (hwritten : WrittenModel c t titled m j)
    (h : (m.fields.map (propertyName c.options)).Nodup) : KeepsFields c t m j := by
  cases hwritten with
  | @object _ _ props hfields =>
      have hkept : Json.insertAll [] props = props := by
        apply Json.insertAll_nil_of_nodup
        rw [hfields.map_fst]
        exact h
      refine ⟨⟨props, ?_, hfields⟩, lookup_required_objectMembers, nodup_requiredNames h⟩
      have hlookup : Json.get? (.obj (objectMembers c.options m titled props)) "properties" =
          some (.obj (Json.insertAll [] props)) := lookup_properties_objectMembers
      rw [hlookup, hkept]

/-- An object has a name once, so that as many names are different as there are fields. -/
theorem KeepsFields.nodup (hwritten : WrittenModel c t titled m j) (h : KeepsFields c t m j) :
    (m.fields.map (propertyName c.options)).Nodup := by
  cases hwritten with
  | @object _ _ written hfields =>
      rcases h.properties with ⟨props, hlookup, hprops⟩
      have hinserted : Json.get? (.obj (objectMembers c.options m titled written)) "properties" =
          some (.obj (Json.insertAll [] written)) := lookup_properties_objectMembers
      rw [hinserted] at hlookup
      cases hlookup
      rw [← hprops.map_fst]
      exact Json.nodup_keys_insertAll_nil written

/-- A model that is written, retained or in place, keeps its fields just if their emitted names are
different; without camel case it does if the names on the wire are. -/
theorem objectSchema_keeps_fields_iff
    (hrun : (objectSchema c titled stack m depth).run s = .ok (j, t)) :
    (KeepsFields c t m j ↔ (m.fields.map (propertyName c.options)).Nodup) ∧
      (c.options.toCamel = false → (m.fields.map Field.wireName).Nodup → KeepsFields c t m j) := by
  have hwritten : WrittenModel c t titled m j :=
    (objectSchema_yields c depth titled stack m s j t hrun).2 t (.refl t)
  have hiff : KeepsFields c t m j ↔ (m.fields.map (propertyName c.options)).Nodup :=
    ⟨KeepsFields.nodup hwritten, keepsFields_of_nodup hwritten⟩
  refine ⟨hiff, fun hplain hnames => hiff.2 ?_⟩
  have hsame : propertyName c.options = Field.wireName :=
    funext fun f => propertyName_of_plain hplain f
  rwa [hsame]

end

/-! ## Two fields of one name -/

namespace Sample

/-- In camel case both fields have the name of the second one. -/
def twins : Model where
  id := ⟨"m.py", "M"⟩
  name := "M"
  qualname := "m.M"
  docs := none
  fields := [.required "a_b" .int, .required "aB" .str]
  extra := none

def camel : Context := contextOf [twins] ⟨[twins], [], []⟩ { Options.standard with toCamel := true }

def plain : Context := contextOf [twins] ⟨[twins], [], []⟩ .standard

end Sample

theorem twins_keep_fields :
    ∃ j t, (objectSchema Sample.plain true [] Sample.twins 1).run ⟨[], []⟩ = .ok (j, t) ∧
      (Sample.twins.fields.map Field.wireName).Nodup ∧ KeepsFields Sample.plain t Sample.twins j := by
  cases hrun : (objectSchema Sample.plain true [] Sample.twins 1).run ⟨[], []⟩ with
  | error e => cases hrun
  | ok r =>
      have hnames : (Sample.twins.fields.map Field.wireName).Nodup := by decide
      exact ⟨r.1, r.2, rfl, hnames, (objectSchema_keeps_fields_iff hrun).2 rfl hnames⟩

/-- The names on the wire are different, and the first field is lost. -/
theorem camel_loses_field :
    (Sample.twins.fields.map Field.wireName).Nodup ∧
      ∃ j t, (objectSchema Sample.camel true [] Sample.twins 1).run ⟨[], []⟩ = .ok (j, t) ∧
        j.get? "properties" = some (.obj [("aB", typed "string")]) ∧
        j.get? "required" = some (Json.strings ["aB", "aB"]) ∧
        ¬ KeepsFields Sample.camel t Sample.twins j := by
  refine ⟨by decide, _, _, rfl, ?_, ?_, ?_⟩
  · cbv
  · cbv
  · intro h
    exact absurd h.distinct (by decide)

end Schema
end WireTypes
