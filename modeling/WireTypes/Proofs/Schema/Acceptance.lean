import WireTypes.Proofs.Schema.Meaning

/-!
# Acceptance — what a schema with bounds says about a value

`Valid` leaves out what bounds a number or a text. Here these keywords count as well.

- `Keyword.Means` and `Bound.Means` give the meaning of a keyword, where `V` says which values the
  schemas inside it accept;
- `Accepts` is the least relation with these meanings; `accepts_obj_iff` reads it keyword by keyword;
- `Accepts.valid`: what is accepted is valid;
- `accepts_annotate_iff`: a keyword that is added says beside the others what it says alone.
-/

namespace WireTypes
namespace Schema

open Synthesis

/-! ## Bounds -/

/-- The keywords that bound a number or a text. -/
inductive Bound
  | minimum
  | exclusiveMinimum
  | maximum
  | exclusiveMaximum
  | minLength
  | maxLength
  | pattern
  deriving DecidableEq, Repr

def Bound.ofName? : String → Option Bound
  | "minimum" => some .minimum
  | "exclusiveMinimum" => some .exclusiveMinimum
  | "maximum" => some .maximum
  | "exclusiveMaximum" => some .exclusiveMaximum
  | "minLength" => some .minLength
  | "maxLength" => some .maxLength
  | "pattern" => some .pattern
  | _ => none

/-- What validation depends on besides the schema. -/
structure Setting where
  draft : Draft
  definitions : List (String × Json)
  /-- Whether a pattern fits a text. -/
  fits : String → String → Prop

/-! ## The meaning of keywords -/

/-- A bound speaks of numbers or of texts, and other values are free. -/
def Bound.Means (e : Setting) (v : Json) : Bound → Json → Prop
  | .minimum, .num limit => ∀ n, v = .num n → limit.units ≤ n.units
  | .exclusiveMinimum, .num limit => ∀ n, v = .num n → limit.units < n.units
  | .maximum, .num limit => ∀ n, v = .num n → n.units ≤ limit.units
  | .exclusiveMaximum, .num limit => ∀ n, v = .num n → n.units < limit.units
  | .minLength, .num (.int n) => ∀ s : String, v = .str s → n ≤ s.length
  | .maxLength, .num (.int n) => ∀ s : String, v = .str s → s.length ≤ n
  | .pattern, .str text => ∀ s, v = .str s → e.fits text s
  | _, _ => False

/-- The meaning of a keyword with its argument in a schema. -/
def Keyword.Means (e : Setting) (V : Json → Json → Prop) (schema : List (String × Json)) (v : Json) :
    Keyword → Json → Prop
  | .type, .str word => ∃ kind : Json.Kind, kind.word = word ∧ Json.HasKind kind v
  | .enum, .arr values => ∃ w ∈ values, Json.equal w v
  | .properties, .obj props =>
      ∀ key inner w, Json.lookup key props = some inner → v.get? key = some w → V inner w
  | .required, .arr names =>
      ∀ members name, v = .obj members → .str name ∈ names → (v.get? name).isSome
  | .additionalProperties, inner => ∀ key w, v.get? key = some w → ¬ Declares schema key → V inner w
  -- In the older draft a list has a schema for each of the first items.
  | .items, .arr schemas =>
      e.draft = .draft07 ∧ ∀ values (i : Nat) inner w, v = .arr values → schemas[i]? = some inner →
        values[i]? = some w → V inner w
  | .items, inner =>
      ∀ values i w, v = .arr values → prefixLength e.draft schema ≤ i → values[i]? = some w → V inner w
  | .prefixItems, .arr schemas =>
      ∀ values (i : Nat) inner w, v = .arr values → schemas[i]? = some inner →
        values[i]? = some w → V inner w
  | .minItems, .num (.int n) => ∀ values : List Json, v = .arr values → n ≤ values.length
  | .maxItems, .num (.int n) => ∀ values : List Json, v = .arr values → values.length ≤ n
  | .uniqueItems, .bool wanted => ∀ values, wanted = true → v = .arr values → Json.Distinct values
  | .anyOf, .arr schemas => ∃ inner ∈ schemas, V inner v
  | .allOf, .arr schemas => ∀ inner ∈ schemas, V inner v
  | .ref, .str target =>
      ∃ name inner, e.draft.reference name = target ∧ Json.lookup name e.definitions = some inner ∧
        V inner v
  | _, _ => False

/-- What a member of a schema asks of a value. In draft 07 nothing beside a reference counts. -/
structure Asks (e : Setting) (V : Json → Json → Prop) (schema : List (String × Json))
    (m : String × Json) (v : Json) : Prop where
  keyword : ∀ k, Keyword.ofName? m.1 = some k → k.AppliesIn e.draft schema → k.Means e V schema v m.2
  bound : ∀ b, Bound.ofName? m.1 = some b →
    (e.draft = .draft07 → Json.lookup "$ref" schema = none) → b.Means e v m.2

/-- What a schema asks of a value. -/
def Checks (e : Setting) (V : Json → Json → Prop) : Json → Json → Prop
  | .bool accepted, _ => accepted = true
  | .obj schema, v => ∀ m ∈ schema, Asks e V schema m v
  | _, _ => False

/-- A value is accepted if a schema asks for nothing else, given values that the schemas inside it
accept. -/
inductive Accepts (e : Setting) : Json → Json → Prop
  | intro {V : Json → Json → Prop} {j v : Json} :
      (∀ j v, V j v → Accepts e j v) → Checks e V j v → Accepts e j v

section

variable {e : Setting} {V W : Json → Json → Prop} {schema schema' : List (String × Json)} {v j : Json}

/-! ## The least relation -/

/-- The number of items is a matter of the value alone. -/
theorem Keyword.Means.of_items {k : Keyword} (hk : k = .minItems ∨ k = .maxItems) {arg : Json}
    (h : k.Means e V schema v arg) : k.Means e W schema' v arg := by
  rcases hk with rfl | rfl
  all_goals
    cases arg with
    | num n => cases n <;> exact h
    | _ => exact h

theorem Keyword.Means.mono (h : ∀ j v, V j v → W j v) {k : Keyword} {arg : Json}
    (hmeans : k.Means e V schema v arg) : k.Means e W schema v arg := by
  -- Some keywords speak of the schemas inside their argument, and the others of the value alone.
  cases k with
  | type | enum | required | uniqueItems => cases arg <;> exact hmeans
  | minItems => exact hmeans.of_items (.inl rfl)
  | maxItems => exact hmeans.of_items (.inr rfl)
  | properties =>
      cases arg with
      | obj props => exact fun key inner w hinner hw => h _ _ (hmeans key inner w hinner hw)
      | _ => exact hmeans
  | additionalProperties => exact fun key w hw hnot => h _ _ (hmeans key w hw hnot)
  | items =>
      have hrest : (∀ values i w, v = .arr values → prefixLength e.draft schema ≤ i →
          values[i]? = some w → V arg w) → ∀ values i w, v = .arr values →
          prefixLength e.draft schema ≤ i → values[i]? = some w → W arg w :=
        fun hall values i w hv hi hw => h _ _ (hall values i w hv hi hw)
      cases arg with
      | arr schemas =>
          exact ⟨hmeans.1, fun values i inner w hv hi hw => h _ _ (hmeans.2 values i inner w hv hi hw)⟩
      | _ => exact hrest hmeans
  | prefixItems =>
      cases arg with
      | arr schemas =>
          exact fun values i inner w hv hi hw => h _ _ (hmeans values i inner w hv hi hw)
      | _ => exact hmeans
  | anyOf =>
      cases arg with
      | arr schemas =>
          obtain ⟨inner, hmem, hinner⟩ := hmeans
          exact ⟨inner, hmem, h _ _ hinner⟩
      | _ => exact hmeans
  | allOf =>
      cases arg with
      | arr schemas => exact fun inner hmem => h _ _ (hmeans inner hmem)
      | _ => exact hmeans
  | ref =>
      cases arg with
      | str target =>
          obtain ⟨name, inner, hname, hlookup, hinner⟩ := hmeans
          exact ⟨name, inner, hname, hlookup, h _ _ hinner⟩
      | _ => exact hmeans

theorem Checks.mono (h : ∀ j v, V j v → W j v) (hchecks : Checks e V j v) : Checks e W j v := by
  cases j with
  | obj schema =>
      intro m hm
      obtain ⟨hkeyword, hbound⟩ := hchecks m hm
      exact ⟨fun k hk happlies => (hkeyword k hk happlies).mono h, hbound⟩
  | _ => exact hchecks

theorem accepts_iff : Accepts e j v ↔ Checks e (Accepts e) j v := by
  constructor
  · intro h
    cases h with
    | intro hinner hchecks => exact hchecks.mono hinner
  · exact .intro fun _ _ h => h

theorem accepts_obj_iff :
    Accepts e (.obj schema) v ↔ ∀ m ∈ schema, Asks e (Accepts e) schema m v := accepts_iff

/-- Where the schemas inside it mean validity, a keyword has the meaning it has there. -/
theorem Keyword.Means.holds {k : Keyword} {arg : Json}
    (h : k.Means e (Valid e.draft e.definitions) schema v arg) :
    Holds e.draft e.definitions schema k arg v := by
  cases k with
  | additionalProperties => exact .additionalProperties h
  | items =>
      cases arg with
      | arr schemas => exact .itemsInOrder h.1 h.2
      | _ => exact .items (fun _ heq => by cases heq) h
  | type =>
      cases arg with
      | str word => exact .type h.choose_spec.1 h.choose_spec.2
      | _ => cases h
  | enum =>
      cases arg with
      | arr values => exact .enum h.choose_spec.1 h.choose_spec.2
      | _ => cases h
  | properties =>
      cases arg with
      | obj props => exact .properties h
      | _ => cases h
  | required =>
      cases arg with
      | arr names => exact .required h
      | _ => cases h
  | prefixItems =>
      cases arg with
      | arr schemas => exact .prefixItems h
      | _ => cases h
  | minItems =>
      cases arg with
      | num n =>
          cases n with
          | int n => exact .minItems h
          | float x => cases h
      | _ => cases h
  | maxItems =>
      cases arg with
      | num n =>
          cases n with
          | int n => exact .maxItems h
          | float x => cases h
      | _ => cases h
  | uniqueItems =>
      cases arg with
      | bool wanted => exact .uniqueItems h
      | _ => cases h
  | anyOf =>
      cases arg with
      | arr schemas => exact .anyOf h.choose_spec.1 h.choose_spec.2
      | _ => cases h
  | allOf =>
      cases arg with
      | arr schemas => exact .allOf h
      | _ => cases h
  | ref =>
      cases arg with
      | str target =>
          obtain ⟨name, inner, hname, hlookup, hinner⟩ := h
          exact .ref hname hlookup hinner
      | _ => cases h

/-- What is accepted is valid, as if no bounds were there. -/
theorem Accepts.valid (h : Accepts e j v) : Valid e.draft e.definitions j v := by
  induction h with
  | @intro V j v _ hchecks ih =>
      have hvalid := hchecks.mono ih
      cases j with
      | bool accepted =>
          cases hvalid
          exact .anything
      | obj schema =>
          exact .object fun k m hm hk happlies => ((hvalid m hm).keyword k hk happlies).holds
      | _ => cases hvalid

/-! ## Keywords alone -/

theorem Asks.of_keyword {key : String} {k : Keyword} {arg : Json}
    (hkey : Keyword.ofName? key = some k) (hbound : Bound.ofName? key = none)
    (h : k.Means e V schema v arg) : Asks e V schema (key, arg) v := by
  refine ⟨fun k' hk' _ => ?_, fun b hb => ?_⟩
  · rw [hkey] at hk'
    cases hk'
    exact h
  · rw [hbound] at hb
    cases hb

theorem Asks.of_bound {key : String} {b : Bound} {arg : Json} (hkey : Keyword.ofName? key = none)
    (hbound : Bound.ofName? key = some b) (h : b.Means e v arg) : Asks e V schema (key, arg) v := by
  refine ⟨fun k hk => ?_, fun b' hb' _ => ?_⟩
  · rw [hkey] at hk
    cases hk
  · rw [hbound] at hb'
    cases hb'
    exact h

/-- A keyword that speaks of the value as a whole, or an annotation. -/
def IsShallow (key : String) : Prop :=
  ∀ k, Keyword.ofName? key = some k → k = .minItems ∨ k = .maxItems

/-- Whether keywords beside each other count. -/
def Counts (e : Setting) (schema : List (String × Json)) : Prop :=
  e.draft = .draft07 → Json.lookup "$ref" schema = none

theorem IsShallow.appliesIn {key : String} {k : Keyword} (hkey : IsShallow key)
    (hk : Keyword.ofName? key = some k) (hcounts : Counts e schema) : k.AppliesIn e.draft schema := by
  unfold Keyword.AppliesIn
  split
  · trivial
  · refine ⟨?_, .inr (hcounts ‹_›)⟩
    rcases hkey k hk with rfl | rfl <;> decide

/-- A shallow keyword says the same in all schemas. -/
theorem Asks.congr {key : String} {arg : Json} (hkey : IsShallow key) (hcounts : Counts e schema)
    (h : Asks e V schema (key, arg) v) : Asks e W schema' (key, arg) v :=
  ⟨fun k hk _ => (h.keyword k hk (hkey.appliesIn hk hcounts)).of_items (hkey k hk),
    fun b hb _ => h.bound b hb hcounts⟩

theorem IsShallow.ne {key other : String} {k : Keyword} (hkey : IsShallow key)
    (hother : Keyword.ofName? other = some k) (hk : k ≠ .minItems ∧ k ≠ .maxItems) : other ≠ key := by
  rintro rfl
  rcases hkey k hother with rfl | rfl
  · exact hk.1 rfl
  · exact hk.2 rfl

theorem counts_singleton {key : String} {arg : Json} (hkey : IsShallow key) : Counts e [(key, arg)] := by
  intro _
  have hne : "$ref" ≠ key := hkey.ne (k := .ref) rfl (by decide)
  simp [Json.lookup, hne.symm]

/-- What a shallow keyword asks is what it says alone. -/
theorem asks_iff_accepts {key : String} {arg : Json} (hkey : IsShallow key) (hcounts : Counts e schema) :
    Asks e V schema (key, arg) v ↔ Accepts e (.obj [(key, arg)]) v := by
  rw [accepts_obj_iff, List.forall_mem_singleton]
  exact ⟨.congr hkey hcounts, .congr hkey (counts_singleton hkey)⟩

/-! ## Keywords that are added -/

/-- Only three of its neighbours matter to a keyword. -/
theorem asks_iff_of_lookups {m : String × Json}
    (hprops : Json.lookup "properties" schema' = Json.lookup "properties" schema)
    (hordered : Json.lookup "prefixItems" schema' = Json.lookup "prefixItems" schema)
    (href : Json.lookup "$ref" schema' = Json.lookup "$ref" schema) :
    Asks e V schema' m v ↔ Asks e V schema m v := by
  have hdeclares : Declares schema' = Declares schema := by
    unfold Declares
    rw [hprops]
  have hlength : prefixLength e.draft schema' = prefixLength e.draft schema := by
    unfold prefixLength
    rw [hordered]
  have hmeans : ∀ k : Keyword, k.Means e V schema' v = k.Means e V schema v := by
    intro k
    funext arg
    unfold Keyword.Means
    rw [hdeclares, hlength]
  constructor
  · rintro ⟨hkeyword, hbound⟩
    refine ⟨fun k hk happlies => ?_, fun b hb hcounts => hbound b hb (by rwa [href])⟩
    rw [← hmeans]
    exact hkeyword k hk ((appliesIn_iff_of_lookup href).2 happlies)
  · rintro ⟨hkeyword, hbound⟩
    refine ⟨fun k hk happlies => ?_, fun b hb hcounts => hbound b hb (by rwa [← href])⟩
    rw [hmeans]
    exact hkeyword k hk ((appliesIn_iff_of_lookup href).1 happlies)

/-- A value keeps to what a schema says under a name. -/
def Keeps (e : Setting) (schema : List (String × Json)) (key : String) (v : Json) : Prop :=
  ∀ arg, (key, arg) ∈ schema → Accepts e (.obj [(key, arg)]) v

theorem mem_insert_self (key : String) (arg : Json) (schema : List (String × Json)) :
    (key, arg) ∈ Json.insert key arg schema :=
  Json.mem_of_lookup (Json.lookup_insert_self key arg schema)

/-- A keyword is added to others, or takes the place of one that the value keeps to. -/
theorem accepts_insert_iff {key : String} {arg : Json} (hkey : IsShallow key) (hcounts : Counts e schema)
    (hkeeps : Keeps e schema key v) :
    Accepts e (.obj (Json.insert key arg schema)) v ↔
      Accepts e (.obj schema) v ∧ Accepts e (.obj [(key, arg)]) v := by
  have hprops :
      Json.lookup "properties" (Json.insert key arg schema) = Json.lookup "properties" schema :=
    Json.lookup_insert_of_ne (hkey.ne (k := .properties) rfl (by decide)) arg schema
  have hordered :
      Json.lookup "prefixItems" (Json.insert key arg schema) = Json.lookup "prefixItems" schema :=
    Json.lookup_insert_of_ne (hkey.ne (k := .prefixItems) rfl (by decide)) arg schema
  have href : Json.lookup "$ref" (Json.insert key arg schema) = Json.lookup "$ref" schema :=
    Json.lookup_insert_of_ne (hkey.ne (k := .ref) rfl (by decide)) arg schema
  have hcounts' : Counts e (Json.insert key arg schema) := by
    unfold Counts
    rwa [href]
  rw [accepts_obj_iff, accepts_obj_iff]
  constructor
  · intro h
    refine ⟨fun m hm => ?_, (asks_iff_accepts hkey hcounts').1 (h _ (mem_insert_self key arg schema))⟩
    by_cases hname : m.1 = key
    · obtain ⟨name, old⟩ := m
      cases hname
      exact (asks_iff_accepts hkey hcounts).2 (hkeeps old hm)
    · exact (asks_iff_of_lookups hprops hordered href).1 (h m ((Json.mem_insert_of_ne hname).2 hm))
  · rintro ⟨hschema, halone⟩ m hm
    rcases Json.mem_of_mem_insert hm with rfl | hold
    · exact (asks_iff_accepts hkey hcounts').2 halone
    · exact (asks_iff_of_lookups hprops hordered href).2 (hschema m hold)

/-- In the older draft a reference is put into an `allOf`, beside which keywords count. -/
theorem accepts_wrapped_iff : Accepts e (.obj [("allOf", .arr [j])]) v ↔ Accepts e j v := by
  have happlies : Keyword.AppliesIn e.draft [("allOf", Json.arr [j])] .allOf :=
    appliesIn_of_no_ref (by decide) (by simp [Json.lookup])
  rw [accepts_obj_iff, List.forall_mem_singleton]
  constructor
  · intro h
    exact h.keyword .allOf rfl happlies j (List.mem_singleton_self j)
  · intro h
    refine .of_keyword (k := .allOf) rfl rfl fun inner hmem => ?_
    rwa [List.mem_singleton.1 hmem]

/-- What an added keyword leaves of a schema, besides the keyword. -/
theorem annotate_members (d : Draft) (key : String) (arg : Json) (schema : List (String × Json)) :
    ∃ members, annotate d key arg (.obj schema) = .obj members ∧
      ∀ m ∈ members, m.1 = key ∨ m ∈ schema ∨ m.1 = "allOf" := by
  have hinsert : ∀ front : List (String × Json), ∀ m ∈ Json.insert key arg front,
      m.1 = key ∨ m ∈ front := by
    intro front m hm
    exact (Json.mem_of_mem_insert hm).imp_left fun h => by rw [h]
  have hplain : ∃ members, Json.obj (Json.insert key arg schema) = .obj members ∧
      ∀ m ∈ members, m.1 = key ∨ m ∈ schema ∨ m.1 = "allOf" :=
    ⟨_, rfl, fun m hm => (hinsert schema m hm).imp_right .inl⟩
  cases d with
  | draft2020 => exact hplain
  | draft07 =>
      unfold annotate
      by_cases href : (Json.get? (.obj schema) "$ref").isSome = true
      · simp only [href, if_true]
        refine ⟨_, rfl, fun m hm => (hinsert _ m hm).imp_right fun hmem => .inr ?_⟩
        rw [List.mem_singleton.1 hmem]
      · simp only [href]
        exact hplain

/-- A keyword that is added says beside the others what it says alone. -/
theorem accepts_annotate_iff {key : String} {arg : Json} (hkey : IsShallow key)
    (hkeeps : Keeps e schema key v) :
    Accepts e (annotate e.draft key arg (.obj schema)) v ↔
      Accepts e (.obj schema) v ∧ Accepts e (.obj [(key, arg)]) v := by
  unfold annotate
  cases hdraft : e.draft with
  | draft2020 => exact accepts_insert_iff hkey (fun h => by rw [hdraft] at h; cases h) hkeeps
  | draft07 =>
      by_cases href : (Json.get? (.obj schema) "$ref").isSome = true
      · simp only [href, if_true]
        have hne : "allOf" ≠ key := hkey.ne (k := .allOf) rfl (by decide)
        have hkeeps' : Keeps e [("allOf", Json.arr [.obj schema])] key v := by
          intro old hold
          exact absurd (congrArg Prod.fst (List.mem_singleton.1 hold)).symm hne
        rw [accepts_insert_iff hkey (fun _ => by simp [Json.lookup]) hkeeps', accepts_wrapped_iff]
      · simp only [href]
        have hcounts : Counts e schema := by
          intro _
          simpa [Json.get?] using href
        exact accepts_insert_iff hkey hcounts hkeeps

theorem Keeps.annotate {key other : String} {arg : Json} (d : Draft) (hother : IsShallow other)
    (hne : other ≠ key) {members : List (String × Json)} (hkeeps : Keeps e schema other v)
    (hmembers : annotate d key arg (.obj schema) = .obj members) : Keeps e members other v := by
  obtain ⟨members', heq, hall⟩ := annotate_members d key arg schema
  cases hmembers.symm.trans heq
  intro old hold
  rcases hall _ hold with hname | hmem | hname
  · exact absurd hname hne
  · exact hkeeps old hmem
  · exact absurd hname.symm (hother.ne (k := .allOf) rfl (by decide))

/-- Keywords that are added one after the other. -/
def annotateAll (d : Draft) (keywords : List (String × Option Json)) (schema : Json) : Json :=
  keywords.foldl (fun s k => annotate? d k.1 k.2 s) schema

/-- Keywords of different names say together what each of them says alone. -/
theorem accepts_annotateAll_iff : ∀ (keywords : List (String × Option Json))
    {schema : List (String × Json)}, (keywords.map Prod.fst).Nodup → (∀ k ∈ keywords, IsShallow k.1) →
    (∀ k ∈ keywords, Keeps e schema k.1 v) →
    (Accepts e (annotateAll e.draft keywords (.obj schema)) v ↔
      Accepts e (.obj schema) v ∧
        ∀ k ∈ keywords, ∀ arg, k.2 = some arg → Accepts e (.obj [(k.1, arg)]) v) := by
  intro keywords
  induction keywords with
  | nil =>
      intro schema _ _ _
      exact ⟨fun h => ⟨h, fun _ hmem => absurd hmem List.not_mem_nil⟩, fun h => h.1⟩
  | cons k rest ih =>
      intro schema hnodup hplain hkeeps
      obtain ⟨hfresh, hrest⟩ := List.nodup_cons.1 hnodup
      have hkey := hplain k List.mem_cons_self
      have hplain' : ∀ k ∈ rest, IsShallow k.1 := fun x hx => hplain x (List.mem_cons_of_mem _ hx)
      have hkeeps' : ∀ k ∈ rest, Keeps e schema k.1 v :=
        fun x hx => hkeeps x (List.mem_cons_of_mem _ hx)
      obtain ⟨key, arg?⟩ := k
      rw [List.forall_mem_cons]
      cases arg? with
      | none =>
          rw [show annotateAll e.draft ((key, none) :: rest) (.obj schema)
            = annotateAll e.draft rest (.obj schema) from rfl, ih hrest hplain' hkeeps']
          simp
      | some arg =>
          obtain ⟨members, hmembers, -⟩ := annotate_members e.draft key arg schema
          have hnext : ∀ k ∈ rest, Keeps e members k.1 v := by
            intro x hx
            have hne : x.1 ≠ key := fun h => hfresh (List.mem_map.2 ⟨x, hx, h⟩)
            exact (hkeeps' x hx).annotate e.draft (hplain' x hx) hne hmembers
          have hfirst : Accepts e (annotate e.draft key arg (.obj schema)) v ↔
              Accepts e (.obj schema) v ∧ Accepts e (.obj [(key, arg)]) v :=
            accepts_annotate_iff hkey (hkeeps _ List.mem_cons_self)
          rw [show annotateAll e.draft ((key, some arg) :: rest) (.obj schema)
              = annotateAll e.draft rest (annotate e.draft key arg (.obj schema)) from rfl,
            hmembers, ih hrest hplain' hnext, ← hmembers, hfirst, and_assoc]
          simp

/-! ## Schemas of fields -/

theorem accepts_annotation {key : String} {arg : Json} (hkeyword : Keyword.ofName? key = none)
    (hbound : Bound.ofName? key = none) : Accepts e (.obj [(key, arg)]) v := by
  rw [accepts_obj_iff, List.forall_mem_singleton]
  refine ⟨fun k hk => ?_, fun b hb => ?_⟩
  · rw [hkeyword] at hk
    cases hk
  · rw [hbound] at hb
    cases hb

theorem accepts_annotate?_iff {key : String} {value : Option Json}
    (hkeyword : Keyword.ofName? key = none) (hbound : Bound.ofName? key = none) (h : IsObject j) :
    Accepts e (annotate? e.draft key value j) v ↔ Accepts e j v := by
  obtain ⟨schema, rfl⟩ := h
  cases value with
  | none => exact Iff.rfl
  | some arg =>
      have hplain : IsShallow key := by
        intro k hk
        rw [hkeyword] at hk
        cases hk
      have halone : ∀ arg, Accepts e (.obj [(key, arg)]) v :=
        fun arg => accepts_annotation hkeyword hbound
      rw [annotate?, accepts_annotate_iff hplain fun old _ => halone old]
      simp [halone]

theorem accepts_anyOf_iff {schemas : List Json} :
    Accepts e (anyOf schemas) v ↔ ∃ inner ∈ schemas, Accepts e inner v := by
  have happlies : Keyword.AppliesIn e.draft [("anyOf", Json.arr schemas)] .anyOf :=
    appliesIn_of_no_ref (by decide) (by simp [Json.lookup])
  rw [anyOf, accepts_obj_iff, List.forall_mem_singleton]
  constructor
  · intro h
    exact h.keyword .anyOf rfl happlies
  · intro h
    exact .of_keyword (k := .anyOf) rfl rfl h

/-- The schema of a field accepts a value other than `null` exactly if the bounded schema of its type
does. -/
theorem accepts_decorate_iff {o : Options} (hdraft : e.draft = o.draft) {f : Field} {nullable : Bool}
    {schema : List (String × Json)} (hv : v ≠ .null) :
    Accepts e (decorate o f nullable (.obj schema)) v ↔
      Accepts e (annotateAll o.draft
        (constraintKeywords f.constraints (isStringSchema (.obj schema))) (.obj schema)) v := by
  have hbounded : ∀ (keywords : List (String × Option Json)) {j : Json}, IsObject j →
      IsObject (annotateAll o.draft keywords j) := by
    intro keywords
    induction keywords with
    | nil => exact fun h => h
    | cons k rest ih => exact fun h => ih (isObject_annotate? o.draft k.1 k.2 h)
  have hbase := isObject_nullableSchema o nullable (hbounded
    (constraintKeywords f.constraints (isStringSchema (.obj schema))) ⟨schema, rfl⟩)
  have hdescribed := isObject_annotate? o.draft "description" (f.description.map .str) hbase
  have hdefaulted := isObject_annotate? o.draft "default" (literalDefault? f.default) hdescribed
  have hdecorate : decorate o f nullable (.obj schema) =
      annotate? o.draft "readOnly" (if f.computed then some (.bool true) else none)
        (annotate? o.draft "default" (literalDefault? f.default)
          (annotate? o.draft "description" (f.description.map .str)
            (nullableSchema o nullable (annotateAll o.draft
              (constraintKeywords f.constraints (isStringSchema (.obj schema))) (.obj schema))))) := by
    cases hcomputed : f.computed <;> simp only [decorate, hcomputed] <;> rfl
  rw [hdecorate, ← hdraft] at *
  rw [accepts_annotate?_iff rfl rfl hdefaulted, accepts_annotate?_iff rfl rfl hdescribed,
    accepts_annotate?_iff rfl rfl hbase]
  unfold nullableSchema
  split
  · rw [accepts_anyOf_iff]
    constructor
    · rintro ⟨inner, hmem, hinner⟩
      rcases List.mem_pair.1 hmem with rfl | rfl
      · exact hinner
      -- The other schema is that of `null`.
      · exact absurd (valid_null_iff.1 hinner.valid) hv
    · intro h
      exact ⟨_, List.mem_cons_self, h⟩
  · exact Iff.rfl

end

end Schema
end WireTypes
