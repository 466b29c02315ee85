import WireTypes.Proofs.Schema.Acceptance
import WireTypes.Proofs.Schema.PropertyNames

/-!
# Length bounds — which values the bounds on a length hold for

A length is bounded by keywords for texts where the schema of the type says that values are texts, and
else by keywords for arrays. So an array is always bounded, a text only where the type has no other
values, and an object never.

- `Counted`: the values of a type whose length the keywords speak of;
- `isStringSchema_iff`: which types are taken for texts;
- `accepts_constrained_iff`: what the bounds add to the schema of a type;
- `fieldSchema_enforces_length_iff`: when the schema of a field enforces its bounds.
-/

namespace WireTypes

/-! ## Lengths -/

/-- The length of a text in characters, of an array in items, of an object in members. -/
inductive Json.HasLength : Json → Nat → Prop
  | str (s : String) : HasLength (.str s) s.length
  | arr (items : List Json) : HasLength (.arr items) items.length
  | obj (members : List (String × Json)) : HasLength (.obj members) members.length

namespace Constraints

structure LengthWithin (c : Constraints) (n : Nat) : Prop where
  least : ∀ least, c.minLength = some least → least ≤ n
  most : ∀ most, c.maxLength = some most → n ≤ most

def withoutLengths (c : Constraints) : Constraints := { c with minLength := .none, maxLength := .none }

end Constraints

def Field.withoutLengths (f : Field) : Field := { f with constraints := f.constraints.withoutLengths }

namespace FieldType

/-- The type without the `null` of an optional one. -/
def nonNull : FieldType → FieldType
  | .optional inner => inner
  | ty => ty

/-- All values of the type are texts, as its schema shows. -/
inductive IsText : FieldType → Prop
  | scalar {ty : FieldType} : ty.scalarKind? = some .string → IsText ty
  | literal {values : List Json} :
      values ≠ [] → (∀ w ∈ values, ∃ s, w = .str s) → IsText (.literal values)

end FieldType

namespace Schema

open Synthesis

/-- A value of the type whose length the keywords of its schema speak of. -/
inductive Counted (ty : FieldType) : Json → Prop
  | items (values : List Json) : Counted ty (.arr values)
  | text (s : String) : ty.IsText → Counted ty (.str s)

/-! ## Schemas of texts -/

section

variable {c : Context} {t : State} {ty : FieldType} {j v : Json} {schema : List (String × Json)}

theorem isStringSchema_of_lookup {word : String}
    (h : Json.lookup "type" schema = some (.str word)) :
    isStringSchema (.obj schema) = true ↔ word = "string" := by
  have hget : Json.get? (.obj schema) "type" = some (.str word) := h
  rw [isStringSchema, hget]
  constructor
  · intro hstring
    split at hstring
    · rename_i heq
      cases heq
      rfl
    · cases hstring
  · rintro rfl
    rfl

theorem isStringSchema_of_no_type (h : Json.lookup "type" schema = none) :
    isStringSchema (.obj schema) = false := by
  have hget : Json.get? (.obj schema) "type" = none := h
  rw [isStringSchema, hget]

theorem not_isText (hkind : ty.scalarKind? = none) (hliteral : ∀ values, ty ≠ .literal values) :
    ¬ ty.IsText := by
  intro h
  cases h with
  | scalar hstring =>
      rw [hkind] at hstring
      cases hstring
  | literal _ _ => exact hliteral _ rfl

theorem isText_iff_of_scalar {kind : Json.Kind} (hty : ty.scalarKind? = some kind) :
    ty.IsText ↔ kind = .string := by
  constructor
  · intro h
    cases h with
    | scalar hstring => exact Option.some.inj (hty.symm.trans hstring)
    | literal _ _ => cases hty
  · rintro rfl
    exact .scalar hty

theorem lookup_type_objectMembers {o : Options} {m : Model} {titled : Bool}
    {props : List (String × Json)} :
    Json.lookup "type" (objectMembers o m titled props) = some (.str "object") := by
  unfold objectMembers
  cases titled <;> cases m.docs <;> simp [Json.lookup]

theorem commonType_eq_string_iff {values : List Json} :
    commonType values = some "string" ↔ values ≠ [] ∧ ∀ w ∈ values, ∃ s, w = .str s := by
  have hkind : ∀ w : Json, kindOf w = some "string" ↔ ∃ s, w = .str s := by
    intro w
    cases w with
    | num n => cases n <;> simp [kindOf]
    | _ => simp [kindOf]
  constructor
  · intro h
    refine ⟨?_, fun w hw => (hkind w).1 (kindOf_of_commonType h w hw)⟩
    rintro rfl
    cases h
  · rintro ⟨hne, hall⟩
    have hkinds : ∀ w ∈ values, kindOf w = some "string" := fun w hw => (hkind w).2 (hall w hw)
    cases values with
    | nil => exact absurd rfl hne
    | cons first rest =>
        have hrest : ((first :: rest).all fun w => kindOf w == some "string") = true :=
          List.all_eq_true.2 fun w hw => by simp [hkinds w hw]
        simp only [commonType, hkinds first List.mem_cons_self, hrest, if_true]

theorem lookup_type_valuesSchema (values : List Json) :
    Json.lookup "type" (valuesSchema values) = (commonType values).map .str := by
  unfold valuesSchema
  cases commonType values <;> simp [Json.lookup]

theorem isText_literal_iff {values : List Json} :
    (FieldType.literal values).IsText ↔ values ≠ [] ∧ ∀ w ∈ values, ∃ s, w = .str s := by
  constructor
  · intro h
    cases h with
    | scalar hkind => cases hkind
    | literal hne hall => exact ⟨hne, hall⟩
  · rintro ⟨hne, hall⟩
    exact .literal hne hall

/-- The type keyword of a schema shows whether it is one of texts. -/
theorem isStringSchema_iff (h : Written c t ty j) : isStringSchema j = true ↔ ty.IsText := by
  have hother : ∀ {schema : List (String × Json)},
      (Json.lookup "type" schema = none ∨
        ∃ word, Json.lookup "type" schema = some (.str word) ∧ word ≠ "string") →
      ¬ ty.IsText → (isStringSchema (.obj schema) = true ↔ ty.IsText) := by
    rintro schema (hnone | ⟨word, hword, hne⟩) hnot
    · rw [isStringSchema_of_no_type hnone]
      exact iff_of_false Bool.false_ne_true hnot
    · rw [isStringSchema_of_lookup hword]
      exact iff_of_false hne hnot
  have harray : ("array" : String) ≠ "string" := by decide
  have hobject : ("object" : String) ≠ "string" := by decide
  -- Only scalars and listed values can be texts; other schemas have another type, or none.
  cases h with
  | scalar kind hkind _ =>
      rw [typed, isStringSchema_of_lookup rfl, isText_iff_of_scalar hkind]
      constructor
      · intro hword
        exact Json.Kind.word_injective hword
      · rintro rfl
        rfl
  | formatted hformat => exact iff_of_true rfl (.scalar (FieldType.scalarKind?_of_format? hformat))
  | @literal values =>
      rw [isText_literal_iff, ← commonType_eq_string_iff]
      have hlookup := lookup_type_valuesSchema values
      cases hcommon : commonType values with
      | none =>
          rw [hcommon] at hlookup
          rw [isStringSchema_of_no_type hlookup]
          simp
      | some word =>
          rw [hcommon] at hlookup
          rw [isStringSchema_of_lookup hlookup]
          simp
  | any => exact hother (.inl rfl) (not_isText rfl (by simp))
  | optional _ => exact hother (.inl rfl) (not_isText rfl (by simp))
  | union _ => exact hother (.inl rfl) (not_isText rfl (by simp))
  | retained _ => exact hother (.inl rfl) (not_isText rfl (by simp))
  | enum _ _ _ _ => exact hother (.inl rfl) (not_isText rfl (by simp))
  | list _ => exact hother (.inr ⟨_, rfl, harray⟩) (not_isText rfl (by simp))
  | set _ => exact hother (.inr ⟨_, rfl, harray⟩) (not_isText rfl (by simp))
  | variadicNil => exact hother (.inr ⟨_, rfl, harray⟩) (not_isText rfl (by simp))
  | variadicCons _ => exact hother (.inr ⟨_, rfl, harray⟩) (not_isText rfl (by simp))
  | tuple _ => exact hother (.inr ⟨_, rfl, harray⟩) (not_isText rfl (by simp))
  | dictOfAny _ => exact hother (.inr ⟨_, rfl, hobject⟩) (not_isText rfl (by simp))
  | dict _ _ => exact hother (.inr ⟨_, rfl, hobject⟩) (not_isText rfl (by simp))
  | inlined _ _ _ hmodel =>
      cases hmodel with
      | object _ => exact hother (.inr ⟨_, lookup_type_objectMembers, hobject⟩) (not_isText rfl (by simp))

/-- The values of a type of texts are texts. -/
theorem exists_text_of_isText {world : Catalog} {o : Options} (hty : ty.IsText)
    (hv : Inhabits world o ty v) : ∃ s, v = .str s := by
  cases hty with
  | scalar hkind =>
      cases (inhabits_scalar_iff hkind).1 hv with
      | string s => exact ⟨s, rfl⟩
  | literal _ hall =>
      obtain ⟨w, hw, hequal⟩ := inhabits_literal_iff.1 hv
      obtain ⟨s, rfl⟩ := hall w hw
      cases v with
      | str s => exact ⟨s, rfl⟩
      | _ => simp [Json.equal] at hequal

/-! ## Bounds that are there already -/

/-- A schema without any of the keywords of constraints. -/
def Unbounded (schema : List (String × Json)) : Prop :=
  ∀ m ∈ schema, Bound.ofName? m.1 = none ∧ m.1 ≠ "minItems" ∧ m.1 ≠ "maxItems"

theorem unbounded_objectMembers {o : Options} {m : Model} {titled : Bool}
    {props : List (String × Json)} : Unbounded (objectMembers o m titled props) := by
  have hrequired : ∀ names, Unbounded (requiredMember names) := by
    intro names
    unfold requiredMember
    split <;> simp [Unbounded, Bound.ofName?]
  have hadditional : Unbounded (additionalProperties o m.extra) := by
    unfold additionalProperties
    split
    · simp [Unbounded, Bound.ofName?]
    · simp [Unbounded, Bound.ofName?]
    · split <;> simp [Unbounded, Bound.ofName?]
  have happend : ∀ {front rest : List (String × Json)}, Unbounded front → Unbounded rest →
      Unbounded (front ++ rest) := fun hfront hrest => List.forall_mem_append.2 ⟨hfront, hrest⟩
  unfold objectMembers
  refine happend (happend (happend (happend ?_ ?_) ?_) (hrequired _)) hadditional
  · cases titled <;> simp [Unbounded, Bound.ofName?]
  · cases m.docs <;> simp [Unbounded, Bound.ofName?]
  · simp [Unbounded, Bound.ofName?]

theorem unbounded_valuesSchema (values : List Json) : Unbounded (valuesSchema values) := by
  unfold valuesSchema
  cases commonType values <;> simp [Unbounded, Bound.ofName?]

/-- Only the schema of a list of fixed length has bounds of its own. -/
theorem unbounded_of_written (h : Written c t ty (.obj schema))
    (htuple : ∀ items, ty ≠ .tuple items false) : Unbounded schema := by
  cases h with
  | inlined _ _ _ hmodel =>
      cases hmodel with
      | object _ => exact unbounded_objectMembers
  | literal => exact unbounded_valuesSchema _
  | tuple _ => exact absurd rfl (htuple _)
  | _ => simp [Unbounded, Bound.ofName?]

end

/-! ## Keywords of constraints -/

section

variable {e : Setting} {v : Json} {schema : List (String × Json)}

theorem name_of_constraint (k : Constraints) (isString : Bool) :
    ∀ x ∈ constraintKeywords k isString,
      (Bound.ofName? x.1).isSome ∨ x.1 = "minItems" ∨ x.1 = "maxItems" := by
  cases isString <;> simp [constraintKeywords, Bound.ofName?]

theorem isShallow_constraint (k : Constraints) (isString : Bool) :
    ∀ x ∈ constraintKeywords k isString, IsShallow x.1 := by
  cases isString <;> simp [constraintKeywords, IsShallow, Keyword.ofName?]

theorem nodup_constraintKeywords (k : Constraints) (isString : Bool) :
    ((constraintKeywords k isString).map Prod.fst).Nodup := by
  cases isString <;> simp [constraintKeywords]

theorem accepts_bound_iff {key : String} {b : Bound} {arg : Json} (hb : Bound.ofName? key = some b)
    (hkey : Keyword.ofName? key = none) : Accepts e (.obj [(key, arg)]) v ↔ b.Means e v arg := by
  have hplain : IsShallow key := by
    intro k hk
    rw [hkey] at hk
    cases hk
  rw [accepts_obj_iff, List.forall_mem_singleton]
  constructor
  · intro h
    exact h.bound b hb (counts_singleton hplain)
  · exact .of_bound hkey hb

theorem accepts_minLength_iff {n : Nat} :
    Accepts e (.obj [("minLength", Json.ofNat n)]) v ↔ ∀ s, v = .str s → n ≤ s.length := by
  rw [accepts_bound_iff (b := .minLength) rfl rfl]
  simp [Bound.Means, Json.ofNat]

theorem accepts_maxLength_iff {n : Nat} :
    Accepts e (.obj [("maxLength", Json.ofNat n)]) v ↔ ∀ s, v = .str s → s.length ≤ n := by
  rw [accepts_bound_iff (b := .maxLength) rfl rfl]
  simp [Bound.Means, Json.ofNat]

theorem accepts_items_iff {key : String} {k : Keyword} {arg : Json} (hk : Keyword.ofName? key = some k)
    (hitems : k = .minItems ∨ k = .maxItems) (hb : Bound.ofName? key = none) :
    Accepts e (.obj [(key, arg)]) v ↔ k.Means e (Accepts e) [(key, arg)] v arg := by
  have hplain : IsShallow key := by
    intro k' hk'
    rw [hk] at hk'
    cases hk'
    exact hitems
  have happlies : k.AppliesIn e.draft [(key, arg)] := hplain.appliesIn hk (counts_singleton hplain)
  rw [accepts_obj_iff, List.forall_mem_singleton]
  constructor
  · intro h
    exact h.keyword k hk happlies
  · exact .of_keyword hk hb

theorem accepts_minItems_iff {n : Nat} :
    Accepts e (.obj [("minItems", Json.ofNat n)]) v ↔
      ∀ values, v = .arr values → n ≤ values.length := by
  rw [accepts_items_iff rfl (.inl rfl) rfl]
  simp [Keyword.Means, Json.ofNat]

theorem accepts_maxItems_iff {n : Nat} :
    Accepts e (.obj [("maxItems", Json.ofNat n)]) v ↔
      ∀ values, v = .arr values → values.length ≤ n := by
  rw [accepts_items_iff rfl (.inr rfl) rfl]
  simp [Keyword.Means, Json.ofNat]

end

/-! ## What the bounds add -/

section

variable {c : Context} {t : State} {e : Setting} {ty : FieldType} {v : Json} {n : Nat}
  {schema : List (String × Json)} {world : Catalog} {o : Options}

/-- A bound on the length, under the keyword for texts or the one for arrays, speaks of the values that
are counted. -/
theorem accepts_length_iff {P : Nat → Prop} {textKey itemsKey : String} {arg : Json} {isString : Bool}
    (htext : Accepts e (.obj [(textKey, arg)]) v ↔ ∀ s : String, v = .str s → P s.length)
    (hitems : Accepts e (.obj [(itemsKey, arg)]) v ↔
      ∀ values : List Json, v = .arr values → P values.length)
    (hty : isString = true ↔ ty.IsText) (hv : Inhabits world o ty v) (hlength : v.HasLength n) :
    Accepts e (.obj [(if isString then textKey else itemsKey, arg)]) v ↔ (Counted ty v → P n) := by
  cases isString with
  | true =>
      obtain ⟨s, rfl⟩ := exists_text_of_isText (hty.1 rfl) hv
      cases hlength
      rw [if_pos rfl, htext]
      constructor
      · exact fun h _ => h s rfl
      · intro h s' heq
        cases heq
        exact h (.text s (hty.1 rfl))
  | false =>
      have hnot : ¬ ty.IsText := fun h => by cases hty.2 h
      rw [if_neg (by decide), hitems]
      cases hlength with
      | str s =>
          refine iff_of_true nofun fun hcounted => ?_
          cases hcounted with
          | text _ htext => exact absurd htext hnot
      | arr items =>
          constructor
          · exact fun h _ => h items rfl
          · intro h items' heq
            cases heq
            exact h (.items items)
      | obj members => exact iff_of_true nofun nofun

/-- A value of the type keeps to the bounds that the schema of the type has already. -/
theorem keeps_of_written (hwritten : Written c t ty (.obj schema)) (hv : Inhabits world o ty v)
    (k : Constraints) (isString : Bool) :
    ∀ x ∈ constraintKeywords k isString, Keeps e schema x.1 v := by
  intro x hx arg hmem
  by_cases htuple : ∃ items, ty = .tuple items false
  · obtain ⟨items, rfl⟩ := htuple
    obtain ⟨values, rfl, hlength, -⟩ := inhabits_tuple_iff.1 hv
    -- The length of the list is the one that both of its own bounds give.
    cases hwritten with
    | tuple hitems =>
        have hitemsLength := hitems.getElem?.1
        have hname := name_of_constraint k isString x hx
        simp only [List.mem_cons, Prod.mk.injEq, List.not_mem_nil, or_false] at hmem
        rcases hmem with ⟨htype, -⟩ | ⟨hkey, -⟩ | ⟨hmin, rfl⟩ | ⟨hmax, rfl⟩
        · rw [htype] at hname
          simp [Bound.ofName?] at hname
        · rw [hkey] at hname
          cases hdraft : c.options.draft <;> simp [Bound.ofName?, hdraft] at hname
        · rw [hmin, accepts_minItems_iff]
          rintro _ ⟨⟩
          omega
        · rw [hmax, accepts_maxItems_iff]
          rintro _ ⟨⟩
          omega
    | scalar _ hkind _ => cases hkind
    | formatted hformat => cases hformat
  · obtain ⟨hbound, hmin, hmax⟩ :=
      unbounded_of_written hwritten (fun items h => htuple ⟨items, h⟩) _ hmem
    rcases name_of_constraint k isString x hx with hsome | hname | hname
    · rw [hbound] at hsome
      cases hsome
    · exact absurd hname hmin
    · exact absurd hname hmax

/-- The bounds on the length add to the others that the length of what is counted is within them. -/
theorem accepts_constrained_iff (hwritten : Written c t ty (.obj schema)) (hv : Inhabits world o ty v)
    (hlength : v.HasLength n) (k : Constraints) :
    Accepts e (annotateAll e.draft (constraintKeywords k (isStringSchema (.obj schema)))
        (.obj schema)) v ↔
      Accepts e (annotateAll e.draft
        (constraintKeywords k.withoutLengths (isStringSchema (.obj schema))) (.obj schema)) v ∧
      (Counted ty v → k.LengthWithin n) := by
  have hty := isStringSchema_iff hwritten
  have hleast : ∀ least : Nat, Accepts e (.obj [(if isStringSchema (.obj schema) then "minLength"
      else "minItems", Json.ofNat least)]) v ↔ (Counted ty v → least ≤ n) := fun least =>
    accepts_length_iff accepts_minLength_iff accepts_minItems_iff hty hv hlength
  have hmost : ∀ most : Nat, Accepts e (.obj [(if isStringSchema (.obj schema) then "maxLength"
      else "maxItems", Json.ofNat most)]) v ↔ (Counted ty v → n ≤ most) := fun most =>
    accepts_length_iff (P := (· ≤ most)) accepts_maxLength_iff accepts_maxItems_iff hty hv hlength
  have hall : ∀ k : Constraints,
      Accepts e (annotateAll e.draft (constraintKeywords k (isStringSchema (.obj schema)))
          (.obj schema)) v ↔
        Accepts e (.obj schema) v ∧ ∀ x ∈ constraintKeywords k (isStringSchema (.obj schema)),
          ∀ arg, x.2 = some arg → Accepts e (.obj [(x.1, arg)]) v := fun k =>
    accepts_annotateAll_iff _ (nodup_constraintKeywords k _) (isShallow_constraint k _)
      (keeps_of_written hwritten hv k _)
  have hwithin : (Counted ty v → k.LengthWithin n) ↔
      (∀ least, k.minLength = some least → Counted ty v → least ≤ n) ∧
        ∀ most, k.maxLength = some most → Counted ty v → n ≤ most :=
    ⟨fun h => ⟨fun least hk hv => (h hv).least least hk, fun most hk hv => (h hv).most most hk⟩,
      fun h hv => ⟨fun least hk => h.1 least hk hv, fun most hk => h.2 most hk hv⟩⟩
  rw [hall, hall, hwithin]
  simp only [constraintKeywords, Constraints.withoutLengths, List.forall_mem_cons, Option.map_none,
    Option.map_eq_some_iff, forall_exists_index, and_imp, forall_apply_eq_imp_iff₂, hleast, hmost,
    reduceCtorEq, List.not_mem_nil, false_implies, implies_true, true_and]
  tauto

end

/-! ## Fields -/

/-- How a model inside the schema of a field is written in place. -/
def inPlace (c : Context) (stack : List DefinitionId) (depth : Nat) (m : Model) : Build Json :=
  objectSchema c false (m.id :: stack) m depth

/-- A schema enforces a bound that a value may be within: it does not accept the value outside of the
bound, and within the bound it accepts the value where the schema without the bound does. -/
structure Enforces (e : Setting) (j j₀ : Json) (within : Prop) (v : Json) : Prop where
  rejects : ¬ within → ¬ Accepts e j v
  leaves : within → (Accepts e j v ↔ Accepts e j₀ v)

section

variable {c : Context} {stack : List DefinitionId} {depth n : Nat} {model : String} {f : Field}
  {s t : State} {e : Setting} {j v : Json}

/-- The schema of a field is the one of its type, without `null`, and what follows the type. -/
theorem fieldSchema_eq (inline : Model → Build Json) :
    fieldSchema c inline stack model f =
      typeSchema c inline stack ⟨model, f.name⟩ f.type.nonNull >>= fun j =>
        pure (decorate c.options f f.type.isOptional j) := by
  unfold fieldSchema
  cases f.type <;> rfl

/-- The bounds on the length do not matter before the schema of the type is there. -/
theorem fieldSchema_run
    (hrun : (fieldSchema c (inPlace c stack depth) stack model f).run s = .ok (j, t)) :
    ∃ schema, j = decorate c.options f f.type.isOptional (.obj schema) ∧
      Written c t f.type.nonNull (.obj schema) ∧
      (fieldSchema c (inPlace c stack depth) stack model f.withoutLengths).run s
        = .ok (decorate c.options f.withoutLengths f.type.isOptional (.obj schema), t) := by
  have hinline : ∀ m, Yields c (inPlace c stack depth m) fun t j => WrittenModel c t false m j :=
    fun m => objectSchema_yields c depth false (m.id :: stack) m
  rw [fieldSchema_eq] at hrun
  obtain ⟨j₁, t₁, htype, hpure⟩ := run_bind_ok hrun
  cases hpure
  have hwritten := (typeSchema_yields hinline f.type.nonNull s j₁ t htype).2 t (.refl t)
  obtain ⟨schema, rfl⟩ := hwritten.isObject
  refine ⟨schema, rfl, hwritten, ?_⟩
  have htype₀ : (typeSchema c (inPlace c stack depth) stack ⟨model, f.withoutLengths.name⟩
      f.withoutLengths.type.nonNull).run s = .ok (.obj schema, t) := htype
  rw [fieldSchema_eq, StateT.run_bind, htype₀]
  rfl

/-- The schema of a field enforces the bounds on the length of a value of its type exactly if the value
is within them, or counted, or not accepted for another reason. -/
theorem fieldSchema_enforces_length_iff (hdraft : e.draft = c.options.draft)
    (hrun : (fieldSchema c (inPlace c stack depth) stack model f).run s = .ok (j, t))
    (hv : Inhabits c.catalog c.options f.type.nonNull v) (hlength : v.HasLength n) :
    ∃ j₀, (fieldSchema c (inPlace c stack depth) stack model f.withoutLengths).run s = .ok (j₀, t) ∧
      (Accepts e j v ↔
        Accepts e j₀ v ∧ (Counted f.type.nonNull v → f.constraints.LengthWithin n)) ∧
      (Enforces e j j₀ (f.constraints.LengthWithin n) v ↔
        f.constraints.LengthWithin n ∨ Counted f.type.nonNull v ∨ ¬ Accepts e j₀ v) := by
  obtain ⟨schema, rfl, hwritten, hrun₀⟩ := fieldSchema_run hrun
  refine ⟨_, hrun₀, ?_⟩
  have hnull : v ≠ .null := by
    rintro rfl
    cases hlength
  have hiff : Accepts e (decorate c.options f f.type.isOptional (.obj schema)) v ↔
      Accepts e (decorate c.options f.withoutLengths f.type.isOptional (.obj schema)) v ∧
        (Counted f.type.nonNull v → f.constraints.LengthWithin n) := by
    rw [accepts_decorate_iff hdraft hnull, accepts_decorate_iff hdraft hnull, ← hdraft]
    exact accepts_constrained_iff hwritten hv hlength f.constraints
  refine ⟨hiff, ⟨fun h => ?_, fun h => ?_⟩⟩
  · by_contra hnot
    simp only [not_or, not_not] at hnot
    obtain ⟨hwithin, hcounted, haccepts⟩ := hnot
    exact h.rejects hwithin (hiff.2 ⟨haccepts, fun hc => absurd hc hcounted⟩)
  · constructor
    · intro hwithin haccepts
      obtain ⟨haccepts₀, himplies⟩ := hiff.1 haccepts
      rcases h with h | h | h
      · exact hwithin h
      · exact hwithin (himplies h)
      · exact h haccepts₀
    · intro hwithin
      rw [hiff]
      exact and_iff_left fun _ => hwithin

end

/-! ## A dictionary that may not be empty -/

namespace Sample

/-- A dictionary with at least one entry. -/
def scores : Field :=
  { Field.required "d" (.dict .str .int) with
    constraints := { Constraints.none with minLength := some 1 } }

def ledger : Model where
  id := ⟨"m.py", "M"⟩
  name := "M"
  qualname := "m.M"
  docs := none
  fields := [scores]
  extra := none

def ledgerContext : Context := contextOf [ledger] ⟨[ledger], [], []⟩ .standard

/-- A setting without definitions, where every pattern fits. -/
def ledgerSetting : Setting := ⟨.draft2020, [], fun _ _ => True⟩

def scoresMembers : List (String × Json) :=
  [("type", .str "object"), ("additionalProperties", typed "integer"), ("minItems", Json.ofNat 1)]

theorem fieldSchema_scores :
    (fieldSchema ledgerContext (inPlace ledgerContext [] 1) [] "M" scores).run ⟨[], []⟩
      = .ok (.obj scoresMembers, ⟨[], []⟩) := rfl

theorem inhabits_scores :
    Inhabits ledgerContext.catalog ledgerContext.options scores.type.nonNull (.obj []) :=
  .dict nofun

theorem not_lengthWithin_scores : ¬ scores.constraints.LengthWithin 0 := by
  intro h
  exact absurd (h.least 1 rfl) (by decide)

/-- The bound is one on items, which the empty dictionary does not have. -/
theorem accepts_scores : Accepts ledgerSetting (.obj scoresMembers) (.obj []) := by
  rw [accepts_obj_iff, scoresMembers, List.forall_mem_cons, List.forall_mem_cons,
    List.forall_mem_singleton]
  refine ⟨.of_keyword (k := .type) rfl rfl ⟨.object, rfl, .object []⟩, ?_, ?_⟩
  · exact .of_keyword (k := .additionalProperties) rfl rfl nofun
  · exact .of_keyword (k := .minItems) rfl rfl nofun

end Sample

theorem scores_enforce_length_iff :
    Sample.ledgerSetting.draft = Sample.ledgerContext.options.draft ∧
    (fieldSchema Sample.ledgerContext (inPlace Sample.ledgerContext [] 1) [] "M" Sample.scores).run
      ⟨[], []⟩ = .ok (.obj Sample.scoresMembers, ⟨[], []⟩) ∧
    Inhabits Sample.ledgerContext.catalog Sample.ledgerContext.options Sample.scores.type.nonNull
      (.obj []) ∧
    (Json.obj []).HasLength 0 ∧
    ∃ j₀, Enforces Sample.ledgerSetting (.obj Sample.scoresMembers) j₀
        (Sample.scores.constraints.LengthWithin 0) (.obj []) ↔
      Sample.scores.constraints.LengthWithin 0 ∨ Counted Sample.scores.type.nonNull (.obj []) ∨
        ¬ Accepts Sample.ledgerSetting j₀ (.obj []) := by
  obtain ⟨j₀, -, -, hiff⟩ := fieldSchema_enforces_length_iff (e := Sample.ledgerSetting) rfl
    Sample.fieldSchema_scores Sample.inhabits_scores (.obj [])
  exact ⟨rfl, Sample.fieldSchema_scores, Sample.inhabits_scores, .obj [], j₀, hiff⟩

/-- The empty dictionary is shorter than the bound, and it is accepted. -/
theorem empty_dictionary_is_accepted :
    (fieldSchema Sample.ledgerContext (inPlace Sample.ledgerContext [] 1) [] "M" Sample.scores).run
      ⟨[], []⟩ = .ok (.obj Sample.scoresMembers, ⟨[], []⟩) ∧
    Inhabits Sample.ledgerContext.catalog Sample.ledgerContext.options Sample.scores.type.nonNull
      (.obj []) ∧
    (Json.obj []).HasLength 0 ∧ ¬ Sample.scores.constraints.LengthWithin 0 ∧
    Accepts Sample.ledgerSetting (.obj Sample.scoresMembers) (.obj []) :=
  ⟨Sample.fieldSchema_scores, Sample.inhabits_scores, .obj [], Sample.not_lengthWithin_scores,
    Sample.accepts_scores⟩

end Schema
end WireTypes
