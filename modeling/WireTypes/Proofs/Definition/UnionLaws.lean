import WireTypes.Proofs.Definition.Unions

/-!
# Union laws — the algebra of unions of well-formed types

In a well-formed type `null` is said in one way, by `optional` around what else is allowed, and a union
has several different members, none of which is a union again.

- `Formed`: what one layer of a type must look like; `FormedOutside`, `FormedThroughout`: the outermost
  layers do, and those at every depth;
- `choices_unionOf`: a union has the alternatives of its members, each at its first occurrence;
- `formedThroughout_unionOf`: unions of well-formed types are well-formed;
- `unionOf_nest`: members may stand in a union of their own;
- `unionOf_algebra`: all laws of unions together.
-/

namespace WireTypes
namespace FieldType

/-! ## Well-formed types -/

/-- No member equals an earlier one. -/
def Different (types : List FieldType) : Prop := types.Pairwise fun a b => same a b = false

/-- What the outermost layer of a type must look like. -/
def Formed : FieldType → Prop
  | .optional inner => inner.allowsNull = false
  | .union members =>
      2 ≤ members.length ∧ Different members ∧ ∀ t ∈ members, t.isSingle = true
  | _ => True

/-- The type is formed, and so is what stands in it beside `null`. -/
structure FormedOutside (ty : FieldType) : Prop where
  self : ty.Formed
  inner : ∀ {inner : FieldType}, ty = .optional inner → inner.Formed

/-- The types that a type is put together from. -/
def components : FieldType → List FieldType
  | .list item => [item]
  | .set item => [item]
  | .tuple items _ => items
  | .dict key value => [key, value]
  | .optional inner => [inner]
  | .union members => members
  | _ => []

/-- The types that stand in a type at any depth, itself among them. -/
inductive Part : FieldType → FieldType → Prop
  | self (ty : FieldType) : Part ty ty
  | inside {part component ty : FieldType} :
      component ∈ ty.components → Part part component → Part part ty

/-- Every type that stands in the type is formed. -/
def FormedThroughout (ty : FieldType) : Prop := ∀ part, Part part ty → part.Formed

section

variable {ty : FieldType} {members : List FieldType}

theorem formedThroughout_iff :
    ty.FormedThroughout ↔ ty.Formed ∧ ∀ t ∈ ty.components, t.FormedThroughout := by
  constructor
  · intro h
    exact ⟨h ty (.self ty), fun t ht part hpart => h part (.inside ht hpart)⟩
  · rintro ⟨hself, hcomponents⟩ part hpart
    cases hpart with
    | self => exact hself
    | inside hmem hinside => exact hcomponents _ hmem part hinside

theorem FormedThroughout.formed (h : ty.FormedThroughout) : ty.Formed := (formedThroughout_iff.1 h).1

theorem FormedThroughout.component (h : ty.FormedThroughout) {t : FieldType}
    (ht : t ∈ ty.components) : t.FormedThroughout := (formedThroughout_iff.1 h).2 t ht

theorem FormedThroughout.outside (h : ty.FormedThroughout) : ty.FormedOutside := by
  refine ⟨h.formed, ?_⟩
  rintro inner rfl
  exact (h.component List.mem_cons_self).formed

theorem formed_of_single (h : ty.isSingle = true) : ty.Formed := by
  cases ty <;> first | exact trivial | cases h

theorem formedOutside_of_single (h : ty.isSingle = true) : ty.FormedOutside := by
  refine ⟨formed_of_single h, ?_⟩
  rintro inner rfl
  cases h

theorem formedOutside_null : FieldType.null.FormedOutside :=
  ⟨trivial, fun h => by cases h⟩

/-! ### Alternatives of well-formed types -/

/-- A type that allows no `null` is single or a union. -/
theorem single_or_union (h : ty.allowsNull = false) :
    ty.isSingle = true ∨ ∃ members, ty = .union members := by
  cases ty with
  | union members => exact Or.inr ⟨members, rfl⟩
  | null | optional => cases h
  | _ => exact Or.inl rfl

theorem FormedOutside.flat (h : ty.FormedOutside) : ty.IsFlat := by
  have hunion : ∀ {members : List FieldType}, (FieldType.union members).Formed → members ≠ [] := by
    rintro members ⟨hlength, -⟩ rfl
    exact absurd hlength (by decide)
  cases ty with
  | null => exact isFlat_null
  | union members => exact ⟨h.self.2.2, fun hnil => absurd hnil (hunion h.self)⟩
  | optional inner =>
      rcases single_or_union h.self with hsingle | ⟨members, rfl⟩
      · refine ⟨fun t ht => ?_, fun hnil => ?_⟩
        · rw [choices_optional hsingle, List.mem_singleton] at ht
          exact ht ▸ hsingle
        · rw [choices_optional hsingle] at hnil
          cases hnil
      · have hinner := h.inner rfl
        exact ⟨hinner.2.2, fun hnil => absurd hnil (hunion hinner)⟩
  | _ => exact isFlat_of_single rfl

theorem different_addNew {acc : List FieldType} (h : Different acc) (ty : FieldType) :
    Different (addNew acc ty) := by
  unfold addNew
  split
  · exact h
  · rename_i hnew
    refine List.pairwise_append.2 ⟨h, List.pairwise_singleton _ _, fun t ht u hu => ?_⟩
    rw [List.mem_singleton.1 hu, ← Bool.not_eq_true]
    exact fun hsame => hnew (List.any_eq_true.2 ⟨t, ht, hsame⟩)

theorem different_addAllNew {acc : List FieldType} (h : Different acc) (types : List FieldType) :
    Different (addAllNew acc types) :=
  List.foldlRecOn types addNew h fun _ hacc ty _ => different_addNew hacc ty

theorem different_alternatives (h : ∀ t ∈ members, t.IsFlat) : Different (alternatives members) := by
  rw [alternatives_of_flat h]
  exact different_addAllNew .nil _

/-- Adding what is new keeps every type at its first occurrence. -/
theorem addAllNew_eq_eraseDupsBy (types : List FieldType) :
    addAllNew [] types = types.eraseDupsBy fun later earlier => same earlier later := by
  -- What was kept so far is listed backwards.
  have hloop : ∀ kept : List FieldType, addAllNew kept.reverse types
      = List.eraseDupsBy.loop (fun later earlier => same earlier later) types kept := by
    induction types with
    | nil => exact fun _ => rfl
    | cons ty rest ih =>
        intro kept
        have hamong : ty.among kept.reverse = kept.any fun earlier => same earlier ty :=
          List.any_reverse
        have hstep : addAllNew kept.reverse (ty :: rest) = addAllNew (addNew kept.reverse ty) rest := rfl
        rw [hstep, addNew, List.eraseDupsBy.loop, hamong]
        cases hany : kept.any fun earlier => same earlier ty with
        | true => exact ih kept
        | false => simpa using ih (ty :: kept)
  exact hloop []

/-! ## Unions -/

theorem choices_unionOf (h : ∀ t ∈ members, t.IsFlat) :
    (unionOf members).choices
      = (members.flatMap choices).eraseDupsBy fun later earlier => same earlier later := by
  rw [(unionOf_spec h).1, alternatives_of_flat h, addAllNew_eq_eraseDupsBy]

/-- The three forms of a union, by its alternatives. -/
theorem unionOf_cases (members : List FieldType) :
    alternatives members = [] ∧ unionOf members = .null ∨
      ∃ ty : FieldType, (alternatives members = [ty] ∨
          2 ≤ (alternatives members).length ∧ ty = .union (alternatives members)) ∧
        unionOf members = if members.any allowsNull then .optional ty else ty := by
  unfold unionOf
  cases halternatives : alternatives members with
  | nil => exact Or.inl ⟨rfl, rfl⟩
  | cons first rest =>
      cases rest with
      | nil => exact Or.inr ⟨first, Or.inl rfl, rfl⟩
      | cons second rest => exact Or.inr ⟨_, Or.inr ⟨by simp, rfl⟩, rfl⟩

/-- What stands in a union beside `null`. -/
theorem formed_of_alternatives (h : ∀ t ∈ members, t.IsFlat) {ty : FieldType}
    (hty : alternatives members = [ty] ∨
      2 ≤ (alternatives members).length ∧ ty = .union (alternatives members)) :
    ty.Formed ∧ ty.allowsNull = false := by
  have hsingle := single_of_alternatives h
  rcases hty with hone | ⟨hlength, rfl⟩
  · have hfirst : ty.isSingle = true := hsingle ty (by simp [hone])
    exact ⟨formed_of_single hfirst, allowsNull_of_single hfirst⟩
  · exact ⟨⟨hlength, different_alternatives h, hsingle⟩, rfl⟩

theorem formedOutside_unionOf (h : ∀ t ∈ members, t.IsFlat) : (unionOf members).FormedOutside := by
  rcases unionOf_cases members with ⟨_, hnull⟩ | ⟨ty, hty, hunion⟩
  · rw [hnull]
    exact formedOutside_null
  · rcases formed_of_alternatives h hty with ⟨hformed, hno⟩
    rw [hunion]
    split
    · refine ⟨hno, fun hinner => ?_⟩
      cases hinner
      exact hformed
    · refine ⟨hformed, ?_⟩
      rintro inner rfl
      cases hno

/-- The alternatives of a type stand in it. -/
theorem FormedThroughout.choice (h : ty.FormedThroughout) {t : FieldType} (ht : t ∈ ty.choices) :
    t.FormedThroughout := by
  cases ty with
  | null => cases ht
  | union members => exact h.component ht
  | optional inner =>
      have hinner : inner.FormedThroughout := h.component List.mem_cons_self
      cases inner with
      | union members => exact hinner.component ht
      | _ => exact List.mem_singleton.1 ht ▸ hinner
  | _ => exact List.mem_singleton.1 ht ▸ h

theorem formedThroughout_unionOf (h : ∀ t ∈ members, t.FormedThroughout) :
    (unionOf members).FormedThroughout := by
  have hflat : ∀ t ∈ members, t.IsFlat := fun t ht => (h t ht).outside.flat
  have halternative : ∀ t ∈ alternatives members, t.FormedThroughout := by
    intro t ht
    rw [alternatives_of_flat hflat] at ht
    rcases mem_of_mem_addAllNew ht with hnone | hmem
    · cases hnone
    · rcases List.mem_flatMap.1 hmem with ⟨member, hmember, hchoice⟩
      exact (h member hmember).choice hchoice
  have houtside := formedOutside_unionOf hflat
  rcases unionOf_cases members with ⟨_, hnull⟩ | ⟨ty, hty, hunion⟩
  · rw [hnull]
    exact formedThroughout_iff.2 ⟨trivial, fun _ hnone => absurd hnone List.not_mem_nil⟩
  · have hinside : ty.FormedThroughout := by
      have hformed := (formed_of_alternatives hflat hty).1
      rcases hty with hone | ⟨_, rfl⟩
      · exact halternative ty (by simp [hone])
      · exact formedThroughout_iff.2 ⟨hformed, halternative⟩
    rw [hunion] at houtside ⊢
    cases hnull : members.any allowsNull with
    | true =>
        rw [hnull, if_pos rfl] at houtside
        refine formedThroughout_iff.2 ⟨houtside.self, fun t ht => ?_⟩
        rwa [List.mem_singleton.1 ht]
    | false => exact hinside

/-! ### Flattening -/

theorem forall₂_standsFor (types : List FieldType) :
    List.Forall₂ StandsFor types (types.map fun ty => [ty]) := by
  induction types with
  | nil => exact .nil
  | cons ty rest ih => exact .cons (Or.inl rfl) ih

/-- Some of the members may stand in a union of their own. -/
theorem unionOf_nest {before inner after : List FieldType} (hne : inner ≠ [])
    (h : ∀ t ∈ before ++ inner ++ after, t.IsFlat) :
    unionOf (before ++ unionOf inner :: after) = unionOf (before ++ inner ++ after) := by
  let parted := before.map (fun ty => [ty]) ++ inner :: after.map fun ty => [ty]
  have hflatten : parted.flatten = before ++ inner ++ after := by simp [parted, ← List.flatMap_def]
  have hstands : List.Forall₂ StandsFor (before ++ unionOf inner :: after) parted :=
    List.rel_append (forall₂_standsFor before) (.cons (Or.inr ⟨hne, rfl⟩) (forall₂_standsFor after))
  rw [← hflatten]
  refine unionOf_flatten hstands fun part hpart t ht => h t ?_
  rw [← hflatten]
  exact List.mem_flatten.2 ⟨part, hpart, ht⟩

theorem unionOf_append {members more : List FieldType} (hne : members ≠ []) (hne' : more ≠ [])
    (h : ∀ t ∈ members ++ more, t.IsFlat) :
    unionOf (members ++ more) = unionOf [unionOf members, unionOf more] := by
  have hfirst : unionOf (unionOf members :: more) = unionOf (members ++ more) := by
    simpa using @unionOf_nest [] members more hne (by simpa using h)
  have hsecond : unionOf [unionOf members, unionOf more] = unionOf (unionOf members :: more) := by
    have hflat : ∀ t ∈ [unionOf members] ++ more ++ [], t.IsFlat := by
      intro t ht
      rw [List.append_nil, List.singleton_append, List.mem_cons] at ht
      rcases ht with rfl | ht
      · exact isFlat_unionOf fun u hu => h u (List.mem_append_left _ hu)
      · exact h t (List.mem_append_right _ ht)
    simpa using @unionOf_nest [unionOf members] more [] hne' hflat
  rw [hsecond, hfirst]

theorem orNull_orNull (h : ty.IsFlat) : ty.orNull.orNull = ty.orNull := by
  have hflat : ∀ t ∈ [] ++ [ty, .null] ++ [.null], t.IsFlat := by
    simp [h, isFlat_null]
  calc
    ty.orNull.orNull = unionOf ([] ++ unionOf [ty, .null] :: [.null]) := rfl
    _ = unionOf [ty, .null, .null] := unionOf_nest (List.cons_ne_nil _ _) hflat
    -- `null` once more adds no alternative.
    _ = ty.orNull := unionOf_congr rfl (by simp)

theorem allowsNull_unionOf (h : ∀ t ∈ members, t.IsFlat) :
    (unionOf members).allowsNull = true ↔ members = [] ∨ ∃ t ∈ members, t.allowsNull = true := by
  by_cases hne : members = []
  · rw [hne]
    exact ⟨fun _ => Or.inl rfl, fun _ => rfl⟩
  · rw [(unionOf_spec h).2.2 hne, List.any_eq_true]
    exact ⟨Or.inr, fun h => h.resolve_left hne⟩

/-- The union of well-formed types is well-formed. It has the alternatives of its members, each at its
first occurrence, and allows `null` if a member does; members may be put together in any groups, and
`null` is allowed but once. -/
theorem unionOf_algebra {members more : List FieldType} (h : ∀ t ∈ members, t.FormedOutside)
    (hmore : ∀ t ∈ more, t.FormedOutside) :
    (unionOf members).FormedOutside ∧
      ((∀ t ∈ members, t.FormedThroughout) → (unionOf members).FormedThroughout) ∧
      (members ≠ [] → more ≠ [] →
        unionOf (members ++ more) = unionOf [unionOf members, unionOf more]) ∧
      (unionOf members).choices
        = (members.flatMap choices).eraseDupsBy (fun later earlier => same earlier later) ∧
      ((unionOf members).allowsNull = true ↔ members = [] ∨ ∃ t ∈ members, t.allowsNull = true) ∧
      ∀ t ∈ members, t.orNull.orNull = t.orNull := by
  have hflat : ∀ t ∈ members, t.IsFlat := fun t ht => (h t ht).flat
  refine ⟨formedOutside_unionOf hflat, formedThroughout_unionOf, fun hne hne' => ?_,
    choices_unionOf hflat, allowsNull_unionOf hflat, fun t ht => orNull_orNull (hflat t ht)⟩
  refine unionOf_append hne hne' fun t ht => ?_
  rcases List.mem_append.1 ht with ht | ht
  · exact hflat t ht
  · exact (hmore t ht).flat

namespace Sample

/-- `Union[int, str, None]` and `Union[str, bytes]`. -/
def labels : List FieldType := [.optional (.union [.int, .str]), .union [.str, .bytes]]

/-- `None` and `List[int]`. -/
def lists : List FieldType := [.null, .list .int]

theorem labels_formed : ∀ t ∈ labels, t.FormedOutside := by
  have hunion : ∀ {a b : FieldType}, same a b = false → a.isSingle = true → b.isSingle = true →
      (FieldType.union [a, b]).Formed := by
    intro a b hdiffer ha hb
    refine ⟨Nat.le_refl 2, by simp [Different, hdiffer], ?_⟩
    simp [ha, hb]
  intro t ht
  rcases List.mem_pair.1 ht with rfl | rfl
  · refine ⟨rfl, fun hinner => ?_⟩
    cases hinner
    exact hunion rfl rfl rfl
  · exact ⟨hunion rfl rfl rfl, fun h => by cases h⟩

theorem lists_formed : ∀ t ∈ lists, t.FormedOutside := by
  intro t ht
  rcases List.mem_pair.1 ht with rfl | rfl
  · exact formedOutside_null
  · exact formedOutside_of_single rfl

end Sample

/-- The alternatives of all members, with `str` once and `null` outside. -/
theorem labels_and_lists_algebra :
    (∀ t ∈ Sample.labels, t.FormedOutside) ∧ (∀ t ∈ Sample.lists, t.FormedOutside) ∧
      (unionOf Sample.labels).choices = [.int, .str, .bytes] ∧
      unionOf (Sample.labels ++ Sample.lists)
        = unionOf [unionOf Sample.labels, unionOf Sample.lists] ∧
      (unionOf Sample.labels).allowsNull = true := by
  rcases unionOf_algebra Sample.labels_formed Sample.lists_formed with
    ⟨_, _, happend, hchoices, hnull, _⟩
  refine ⟨Sample.labels_formed, Sample.lists_formed, hchoices.trans rfl,
    happend (List.cons_ne_nil _ _) (List.cons_ne_nil _ _), hnull.2 (Or.inr ?_)⟩
  exact ⟨_, List.mem_cons_self, rfl⟩

end

end FieldType
end WireTypes
