import WireTypes.Definition.FieldType

/-!
# References — the definitions that types refer to

`RefsIn P ty` says that all references of a type satisfy a condition.

- `refsIn_unionOf`: a union refers to nothing but what its members refer to, although they are flattened
  and repetitions are left out.
-/

namespace WireTypes

namespace FieldType

/-! ## References of types -/

/-- All references of a type satisfy a condition. -/
def RefsIn (P : DefinitionId → Prop) (ty : FieldType) : Prop := ∀ id ∈ ty.refs, P id

section

variable {P Q : DefinitionId → Prop}

theorem RefsIn.mono {ty : FieldType} (h : ty.RefsIn P) (hPQ : ∀ id, P id → Q id) : ty.RefsIn Q :=
  fun id hid => hPQ id (h id hid)

theorem mem_refsAll {types : List FieldType} {id : DefinitionId} :
    id ∈ refsAll types ↔ ∃ ty ∈ types, id ∈ ty.refs := by
  induction types with
  | nil => simp [refsAll]
  | cons ty rest ih => simp [refsAll, ih]

theorem refsIn_of_refs_eq_nil {ty : FieldType} (h : ty.refs = []) : ty.RefsIn P := by
  intro id hid
  rw [h] at hid
  cases hid

theorem refsIn_ref {id : DefinitionId} (h : P id) : (FieldType.ref id).RefsIn P := by
  intro id' hid
  rw [List.mem_singleton.1 hid]
  exact h

theorem refsIn_tuple {items : List FieldType} {variadic : Bool} (h : ∀ ty ∈ items, ty.RefsIn P) :
    (FieldType.tuple items variadic).RefsIn P := by
  intro id hid
  rcases mem_refsAll.1 hid with ⟨ty, hty, hmem⟩
  exact h ty hty id hmem

theorem refsIn_union_iff {members : List FieldType} :
    (FieldType.union members).RefsIn P ↔ ∀ ty ∈ members, ty.RefsIn P := by
  constructor
  · intro h ty hty id hid
    exact h id (mem_refsAll.2 ⟨ty, hty, hid⟩)
  · intro h id hid
    rcases mem_refsAll.1 hid with ⟨ty, hty, hmem⟩
    exact h ty hty id hmem

theorem refsIn_dict {key value : FieldType} (hkey : key.RefsIn P) (hvalue : value.RefsIn P) :
    (FieldType.dict key value).RefsIn P := by
  intro id hid
  rcases List.mem_append.1 hid with hid | hid
  · exact hkey id hid
  · exact hvalue id hid

/-! ## Unions -/

/-- A type that is no union is added as it is, or it is there already. -/
theorem refsIn_insert {acc : List FieldType} {ty : FieldType} (hacc : ∀ t ∈ acc, t.RefsIn P)
    (hty : ty.RefsIn P) : ∀ t ∈ (if ty.among acc then acc else acc ++ [ty]), t.RefsIn P := by
  split
  · exact hacc
  · intro t ht
    rcases List.mem_append.1 ht with ht | ht
    · exact hacc t ht
    · rw [List.mem_singleton.1 ht]
      exact hty

mutual

theorem refsIn_addAlternatives : ∀ (ty : FieldType) (acc : List FieldType), (∀ t ∈ acc, t.RefsIn P) →
    ty.RefsIn P → ∀ t ∈ addAlternatives acc ty, t.RefsIn P
  | .union members, acc, hacc, hty => refsIn_addAll members acc hacc (refsIn_union_iff.1 hty)
  | .any, _, hacc, hty => refsIn_insert hacc hty
  | .null, _, hacc, hty => refsIn_insert hacc hty
  | .bool, _, hacc, hty => refsIn_insert hacc hty
  | .int, _, hacc, hty => refsIn_insert hacc hty
  | .float, _, hacc, hty => refsIn_insert hacc hty
  | .str, _, hacc, hty => refsIn_insert hacc hty
  | .bytes, _, hacc, hty => refsIn_insert hacc hty
  | .decimal, _, hacc, hty => refsIn_insert hacc hty
  | .formatted _, _, hacc, hty => refsIn_insert hacc hty
  | .list _, _, hacc, hty => refsIn_insert hacc hty
  | .set _, _, hacc, hty => refsIn_insert hacc hty
  | .tuple _ _, _, hacc, hty => refsIn_insert hacc hty
  | .dict _ _, _, hacc, hty => refsIn_insert hacc hty
  | .optional _, _, hacc, hty => refsIn_insert hacc hty
  | .literal _, _, hacc, hty => refsIn_insert hacc hty
  | .ref _, _, hacc, hty => refsIn_insert hacc hty
  | .unresolved _, _, hacc, hty => refsIn_insert hacc hty

theorem refsIn_addAll : ∀ (types acc : List FieldType), (∀ t ∈ acc, t.RefsIn P) →
    (∀ ty ∈ types, ty.RefsIn P) → ∀ t ∈ addAll acc types, t.RefsIn P
  | [], _, hacc, _ => hacc
  | ty :: rest, acc, hacc, htypes =>
      refsIn_addAll rest (addAlternatives acc ty)
        (refsIn_addAlternatives ty acc hacc (htypes ty List.mem_cons_self))
        fun t ht => htypes t (List.mem_cons_of_mem _ ht)

end

theorem refsIn_alternatives {members : List FieldType} (h : ∀ ty ∈ members, ty.RefsIn P) :
    ∀ t ∈ alternatives members, t.RefsIn P := by
  -- What was gathered before stays within the condition.
  refine List.foldlRecOn (motive := fun acc => ∀ t ∈ acc, RefsIn P t) members _ ?_ ?_
  · exact fun t ht => absurd ht List.not_mem_nil
  · intro acc hacc ty hmem
    have hty := h ty hmem
    cases ty with
    | null => exact hacc
    | optional inner => exact refsIn_addAlternatives inner acc hacc hty
    | _ => exact refsIn_addAlternatives _ acc hacc hty

/-- A union refers to nothing but what its members refer to. -/
theorem refsIn_unionOf {members : List FieldType} (h : ∀ ty ∈ members, ty.RefsIn P) :
    (unionOf members).RefsIn P := by
  have hall := refsIn_alternatives h
  -- An optional type has the references of the type inside.
  have hwrap : ∀ {ty : FieldType}, ty.RefsIn P →
      (if members.any allowsNull then FieldType.optional ty else ty).RefsIn P := by
    intro ty hty
    split
    · exact hty
    · exact hty
  unfold unionOf
  cases hmembers : alternatives members with
  | nil => exact refsIn_of_refs_eq_nil rfl
  | cons first rest =>
      rw [hmembers] at hall
      cases rest with
      | nil => exact hwrap (hall first List.mem_cons_self)
      | cons second rest => exact hwrap (refsIn_union_iff.2 hall)

theorem refsIn_orNull {ty : FieldType} (h : ty.RefsIn P) : ty.orNull.RefsIn P := by
  refine refsIn_unionOf ?_
  intro t ht
  rcases List.mem_cons.1 ht with rfl | ht
  · exact h
  · rw [List.mem_singleton.1 ht]
    exact refsIn_of_refs_eq_nil rfl

end

end FieldType

end WireTypes
