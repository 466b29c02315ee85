import Mathlib.Data.List.Forall2
import Mathlib.Data.List.Induction
import WireTypes.Definition.FieldType

/-!
# Unions — unions inside unions

A union keeps one of several equal alternatives, the first one. Whether alternatives stand in the union
itself or in a union inside it makes no difference.

- `Json.same_trans`, `FieldType.same_trans`: equality is transitive, so that the first of several equal
  alternatives stands for all of them;
- `IsFlat`: types with no unions inside unions, such as unions themselves (`isFlat_unionOf`);
- `unionOf_flatten`: a member that is a union can be replaced by its members.
-/

namespace WireTypes

/-! ## Equality -/

namespace Json

theorem Number.same_trans {a b c : Number} (h : a.same b = true) (h' : b.same c = true) :
    a.same c = true := by
  cases a <;> cases b <;> simp only [same, Bool.false_eq_true] at h <;>
    cases c <;> simp only [same, Bool.false_eq_true] at h' ⊢
  · simp_all
  · -- Two zeros are equal, and other doubles only to themselves.
    simp only [Binary64.same, Bool.or_eq_true, Bool.and_eq_true, beq_iff_eq] at h h' ⊢
    rcases h with ⟨ha, hb⟩ | rfl
    · rcases h' with ⟨_, hc⟩ | rfl
      · exact Or.inl ⟨ha, hc⟩
      · exact Or.inl ⟨ha, hb⟩
    · exact h'

/-- Every member on the left has an equal one on the right. -/
theorem exists_lookup_of_sameMembers {key : String} {v : Json} {members others : List (String × Json)}
    (h : sameMembers members others = true) (hlookup : lookup key members = some v) :
    ∃ w, lookup key others = some w ∧ same v w = true := by
  induction members with
  | nil => cases hlookup
  | cons member rest ih =>
      rcases member with ⟨k, u⟩
      simp only [sameMembers, Bool.and_eq_true] at h
      by_cases hk : k = key
      · subst hk
        obtain rfl : u = v := by simpa [lookup] using hlookup
        cases hother : lookup k others with
        | none => simp [hother] at h
        | some w =>
            rw [hother] at h
            exact ⟨w, rfl, h.1⟩
      · exact ih h.2 (by simpa [lookup, hk] using hlookup)

mutual

theorem same_trans : ∀ (a : Json) {b c : Json}, same a b = true → same b c = true → same a c = true
  | .null, b, c, h, h' => by
      cases b <;> simp only [same, Bool.false_eq_true] at h
      exact h'
  | .bool x, b, c, h, h' => by
      cases b <;> simp only [same, Bool.false_eq_true] at h
      simpa [beq_iff_eq.1 h] using h'
  | .num n, b, c, h, h' => by
      cases b <;> simp only [same, Bool.false_eq_true] at h
      cases c <;> simp only [same, Bool.false_eq_true] at h' ⊢
      exact Number.same_trans h h'
  | .str s, b, c, h, h' => by
      cases b <;> simp only [same, Bool.false_eq_true] at h
      simpa [beq_iff_eq.1 h] using h'
  | .arr items, b, c, h, h' => by
      cases b <;> simp only [same, Bool.false_eq_true] at h
      cases c <;> simp only [same, Bool.false_eq_true] at h' ⊢
      exact sameItems_trans items h h'
  | .obj members, b, c, h, h' => by
      cases b <;> simp only [same, Bool.false_eq_true] at h
      cases c <;> simp only [same, Bool.false_eq_true, Bool.and_eq_true, beq_iff_eq] at h h' ⊢
      exact ⟨h.1.trans h'.1, sameMembers_trans members h.2 h'.2⟩

theorem sameItems_trans : ∀ (as : List Json) {bs cs : List Json},
    sameItems as bs = true → sameItems bs cs = true → sameItems as cs = true
  | [], bs, cs, h, h' => by
      cases bs <;> simp only [sameItems, Bool.false_eq_true] at h
      exact h'
  | a :: as, bs, cs, h, h' => by
      cases bs <;> simp only [sameItems, Bool.false_eq_true, Bool.and_eq_true] at h
      cases cs <;> simp only [sameItems, Bool.false_eq_true, Bool.and_eq_true] at h' ⊢
      exact ⟨same_trans a h.1 h'.1, sameItems_trans as h.2 h'.2⟩

theorem sameMembers_trans : ∀ (as : List (String × Json)) {bs cs : List (String × Json)},
    sameMembers as bs = true → sameMembers bs cs = true → sameMembers as cs = true
  | [], bs, cs, h, h' => rfl
  | (key, v) :: as, bs, cs, h, h' => by
      simp only [sameMembers, Bool.and_eq_true] at h ⊢
      refine ⟨?_, sameMembers_trans as h.2 h'⟩
      cases hlookup : lookup key bs with
      | none => simp [hlookup] at h
      | some w =>
          rw [hlookup] at h
          rcases exists_lookup_of_sameMembers h' hlookup with ⟨u, hu, hsame⟩
          rw [hu]
          exact same_trans v h.1 hsame

end

end Json

namespace FieldType

mutual

theorem same_trans : ∀ (a : FieldType) {b c : FieldType},
    same a b = true → same b c = true → same a c = true
  | .list item, b, c, h, h' => by
      cases b <;> simp only [same, Bool.false_eq_true] at h
      cases c <;> simp only [same, Bool.false_eq_true] at h' ⊢
      exact same_trans item h h'
  | .set item, b, c, h, h' => by
      cases b <;> simp only [same, Bool.false_eq_true] at h
      cases c <;> simp only [same, Bool.false_eq_true] at h' ⊢
      exact same_trans item h h'
  | .tuple items variadic, b, c, h, h' => by
      cases b <;> simp only [same, Bool.false_eq_true, Bool.and_eq_true, beq_iff_eq] at h
      cases c <;> simp only [same, Bool.false_eq_true, Bool.and_eq_true, beq_iff_eq] at h' ⊢
      exact ⟨h.1.trans h'.1, sameTypes_trans items h.2 h'.2⟩
  | .dict key value, b, c, h, h' => by
      cases b <;> simp only [same, Bool.false_eq_true, Bool.and_eq_true] at h
      cases c <;> simp only [same, Bool.false_eq_true, Bool.and_eq_true] at h' ⊢
      exact ⟨same_trans key h.1 h'.1, same_trans value h.2 h'.2⟩
  | .optional inner, b, c, h, h' => by
      cases b <;> simp only [same, Bool.false_eq_true] at h
      cases c <;> simp only [same, Bool.false_eq_true] at h' ⊢
      exact same_trans inner h h'
  | .union members, b, c, h, h' => by
      cases b <;> simp only [same, Bool.false_eq_true] at h
      cases c <;> simp only [same, Bool.false_eq_true] at h' ⊢
      exact sameTypes_trans members h h'
  | .literal values, b, c, h, h' => by
      cases b <;> simp only [same, Bool.false_eq_true] at h
      cases c <;> simp only [same, Bool.false_eq_true] at h' ⊢
      exact Json.sameItems_trans values h h'
  | .formatted f, b, c, h, h' => by
      cases b <;> simp only [same, Bool.false_eq_true] at h
      simpa [beq_iff_eq.1 h] using h'
  | .ref id, b, c, h, h' => by
      cases b <;> simp only [same, Bool.false_eq_true] at h
      simpa [beq_iff_eq.1 h] using h'
  | .unresolved name, b, c, h, h' => by
      cases b <;> simp only [same, Bool.false_eq_true] at h
      simpa [beq_iff_eq.1 h] using h'
  | .any, b, c, h, h' => by
      cases b <;> simp only [same, Bool.false_eq_true] at h
      exact h'
  | .null, b, c, h, h' => by
      cases b <;> simp only [same, Bool.false_eq_true] at h
      exact h'
  | .bool, b, c, h, h' => by
      cases b <;> simp only [same, Bool.false_eq_true] at h
      exact h'
  | .int, b, c, h, h' => by
      cases b <;> simp only [same, Bool.false_eq_true] at h
      exact h'
  | .float, b, c, h, h' => by
      cases b <;> simp only [same, Bool.false_eq_true] at h
      exact h'
  | .str, b, c, h, h' => by
      cases b <;> simp only [same, Bool.false_eq_true] at h
      exact h'
  | .bytes, b, c, h, h' => by
      cases b <;> simp only [same, Bool.false_eq_true] at h
      exact h'
  | .decimal, b, c, h, h' => by
      cases b <;> simp only [same, Bool.false_eq_true] at h
      exact h'

theorem sameTypes_trans : ∀ (as : List FieldType) {bs cs : List FieldType},
    sameTypes as bs = true → sameTypes bs cs = true → sameTypes as cs = true
  | [], bs, cs, h, h' => by
      cases bs <;> simp only [sameTypes, Bool.false_eq_true] at h
      exact h'
  | a :: as, bs, cs, h, h' => by
      cases bs <;> simp only [sameTypes, Bool.false_eq_true, Bool.and_eq_true] at h
      cases cs <;> simp only [sameTypes, Bool.false_eq_true, Bool.and_eq_true] at h' ⊢
      exact ⟨same_trans a h.1 h'.1, sameTypes_trans as h.2 h'.2⟩

end

/-! ## Alternatives -/

/-- Whether a type stands for one alternative. -/
def isSingle : FieldType → Bool
  | .null => false
  | .optional _ => false
  | .union _ => false
  | _ => true

/-- The alternatives of a type other than `null`. -/
def choices : FieldType → List FieldType
  | .null => []
  | .optional (.union members) => members
  | .optional ty => [ty]
  | .union members => members
  | ty => [ty]

/-- A type with no unions inside unions, and with `null` on the outside only. -/
structure IsFlat (ty : FieldType) : Prop where
  single : ∀ t ∈ ty.choices, t.isSingle = true
  null : ty.choices = [] → ty = .null

/-- Appends a type unless an equal one is there. -/
def addNew (acc : List FieldType) (ty : FieldType) : List FieldType :=
  if ty.among acc then acc else acc ++ [ty]

def addAllNew (acc types : List FieldType) : List FieldType := types.foldl addNew acc

section

variable {acc types members : List FieldType} {ty : FieldType}

theorem choices_of_single (h : ty.isSingle = true) : ty.choices = [ty] := by
  cases ty <;> first | rfl | cases h

theorem choices_optional (h : ty.isSingle = true) : (FieldType.optional ty).choices = [ty] := by
  cases ty <;> first | rfl | cases h

theorem allowsNull_of_single (h : ty.isSingle = true) : ty.allowsNull = false := by
  cases ty <;> first | rfl | cases h

/-! ### Adding alternatives -/

theorem subset_addNew (acc : List FieldType) (ty : FieldType) : acc ⊆ addNew acc ty := by
  intro t ht
  unfold addNew
  split
  · exact ht
  · exact List.mem_append_left _ ht

theorem subset_addAllNew (acc types : List FieldType) : acc ⊆ addAllNew acc types := by
  induction types generalizing acc with
  | nil => exact fun _ h => h
  | cons ty rest ih => exact fun t ht => ih (addNew acc ty) (subset_addNew acc ty ht)

theorem mem_of_mem_addAllNew {t : FieldType} (h : t ∈ addAllNew acc types) : t ∈ acc ∨ t ∈ types := by
  induction types generalizing acc with
  | nil => exact Or.inl h
  | cons ty rest ih =>
      rcases ih h with hadd | hrest
      · unfold addNew at hadd
        split at hadd
        · exact Or.inl hadd
        · rcases List.mem_append.1 hadd with hacc | hnew
          · exact Or.inl hacc
          · rw [List.mem_singleton.1 hnew]
            exact Or.inr List.mem_cons_self
      · exact Or.inr (List.mem_cons_of_mem _ hrest)

theorem addAllNew_append (acc types more : List FieldType) :
    addAllNew acc (types ++ more) = addAllNew (addAllNew acc types) more := List.foldl_append

/-- A type that is added is there afterwards, or an equal one is. -/
theorem mem_or_among_addAllNew (acc : List FieldType) (h : ty ∈ types) :
    ty ∈ addAllNew acc types ∨ ty.among (addAllNew acc types) = true := by
  induction types generalizing acc with
  | nil => cases h
  | cons first rest ih =>
      rcases List.mem_cons.1 h with rfl | hrest
      · by_cases hamong : ty.among acc = true
        · rcases List.any_eq_true.1 hamong with ⟨t, ht, hsame⟩
          have hkept := subset_addAllNew (addNew acc ty) rest (subset_addNew acc ty ht)
          exact Or.inr (List.any_eq_true.2 ⟨t, hkept, hsame⟩)
        · refine Or.inl (subset_addAllNew (addNew acc ty) rest ?_)
          rw [addNew, if_neg hamong]
          simp
      · exact ih (addNew acc first) hrest

/-- Alternatives that were put together before add the same as one by one: what was left out is equal to
one that was kept. -/
theorem addAllNew_addAllNew (acc kept types : List FieldType) :
    addAllNew acc (addAllNew kept types) = addAllNew (addAllNew acc kept) types := by
  induction types generalizing kept with
  | nil => rfl
  | cons ty rest ih =>
      have hadd : addAllNew acc (addNew kept ty) = addNew (addAllNew acc kept) ty := by
        by_cases hamong : ty.among kept = true
        · have hamong' : ty.among (addAllNew acc kept) = true := by
            rcases List.any_eq_true.1 hamong with ⟨t, ht, hsame⟩
            rcases mem_or_among_addAllNew acc ht with hmem | hother
            · exact List.any_eq_true.2 ⟨t, hmem, hsame⟩
            · rcases List.any_eq_true.1 hother with ⟨u, hu, hsame'⟩
              exact List.any_eq_true.2 ⟨u, hu, same_trans u hsame' hsame⟩
          rw [addNew, if_pos hamong, addNew, if_pos hamong']
        · rw [addNew, if_neg hamong, addAllNew_append]
          rfl
      calc
        addAllNew acc (addAllNew kept (ty :: rest))
          = addAllNew acc (addAllNew (addNew kept ty) rest) := rfl
        _ = addAllNew (addAllNew acc (addNew kept ty)) rest := ih (addNew kept ty)
        _ = addAllNew (addAllNew acc kept) (ty :: rest) := by
            rw [hadd]
            rfl

/-! ### Alternatives of flat types -/

theorem addAlternatives_of_single (h : ty.isSingle = true) : addAlternatives acc ty = addNew acc ty := by
  cases ty <;> first | rfl | cases h

theorem addAll_of_single (h : ∀ t ∈ types, t.isSingle = true) : addAll acc types = addAllNew acc types := by
  induction types generalizing acc with
  | nil => rfl
  | cons ty rest ih =>
      rw [addAll, addAlternatives_of_single (h ty List.mem_cons_self),
        ih fun t ht => h t (List.mem_cons_of_mem _ ht)]
      rfl

/-- One more member adds its alternatives. -/
theorem alternatives_concat (h : ty.IsFlat) :
    alternatives (members ++ [ty]) = addAllNew (alternatives members) ty.choices := by
  unfold alternatives
  rw [List.foldl_append, List.foldl_cons, List.foldl_nil]
  cases ty with
  | null => rfl
  | union members => exact addAll_of_single h.single
  | optional inner =>
      cases inner with
      | union members => exact addAll_of_single h.single
      | null => cases h.single _ List.mem_cons_self
      | optional inner => cases h.single _ List.mem_cons_self
      | _ => rfl
  | _ => rfl

/-- The alternatives of flat types are those of the types one after the other. -/
theorem alternatives_of_flat (h : ∀ t ∈ members, t.IsFlat) :
    alternatives members = addAllNew [] (members.flatMap choices) := by
  induction members using List.reverseRecOn with
  | nil => rfl
  | append_singleton members ty ih =>
      have hmembers := ih fun t ht => h t (List.mem_append_left _ ht)
      have hty := h ty (List.mem_append_right _ List.mem_cons_self)
      rw [alternatives_concat hty, hmembers, List.flatMap_append, addAllNew_append,
        List.flatMap_singleton]

theorem single_of_alternatives (h : ∀ t ∈ members, t.IsFlat) :
    ∀ t ∈ alternatives members, t.isSingle = true := by
  intro t ht
  rw [alternatives_of_flat h] at ht
  rcases mem_of_mem_addAllNew ht with hnone | hmem
  · cases hnone
  · rcases List.mem_flatMap.1 hmem with ⟨ty, hty, hpart⟩
    exact (h ty hty).single t hpart

/-! ## Unions of flat types -/

/-- Types without alternatives are `null`. -/
theorem any_allowsNull_of_no_alternatives (h : ∀ t ∈ members, t.IsFlat) (hne : members ≠ [])
    (halternatives : alternatives members = []) : members.any allowsNull = true := by
  rcases List.exists_mem_of_ne_nil members hne with ⟨ty, hty⟩
  have hchoices : ty.choices = [] := by
    rw [List.eq_nil_iff_forall_not_mem]
    intro t ht
    have hmem := mem_or_among_addAllNew [] (List.mem_flatMap.2 ⟨ty, hty, ht⟩)
    rw [← alternatives_of_flat h, halternatives] at hmem
    rcases hmem with hmem | hmem <;> cases hmem
  rw [List.any_eq_true]
  exact ⟨ty, hty, by rw [(h ty hty).null hchoices]; rfl⟩

/-- What a union is made of. -/
theorem unionOf_spec (h : ∀ t ∈ members, t.IsFlat) :
    (unionOf members).choices = alternatives members ∧ (unionOf members).IsFlat ∧
      (members ≠ [] → (unionOf members).allowsNull = members.any allowsNull) := by
  have hsingle := single_of_alternatives h
  have hempty := any_allowsNull_of_no_alternatives h
  unfold unionOf
  cases halternatives : alternatives members with
  | nil =>
      refine ⟨rfl, ⟨fun t ht => (by cases ht), fun _ => rfl⟩, fun hne => ?_⟩
      rw [hempty hne halternatives]
      rfl
  | cons first rest =>
      rw [halternatives] at hsingle
      have hchoices : ∀ ty : FieldType, ty.choices = first :: rest → ty.IsFlat := by
        intro ty hty
        exact ⟨by rw [hty]; exact hsingle, fun hnil => by rw [hty] at hnil; cases hnil⟩
      -- One alternative stands for itself, and several stand in a union; `null` is put around them.
      cases rest with
      | nil =>
          have hfirst := hsingle first List.mem_cons_self
          cases hnull : members.any allowsNull with
          | true => exact ⟨choices_optional hfirst, hchoices _ (choices_optional hfirst), fun _ => rfl⟩
          | false =>
              exact ⟨choices_of_single hfirst, hchoices _ (choices_of_single hfirst),
                fun _ => allowsNull_of_single hfirst⟩
      | cons second rest =>
          cases hnull : members.any allowsNull with
          | true => exact ⟨rfl, hchoices _ rfl, fun _ => rfl⟩
          | false => exact ⟨rfl, hchoices _ rfl, fun _ => rfl⟩

theorem isFlat_unionOf (h : ∀ t ∈ members, t.IsFlat) : (unionOf members).IsFlat := (unionOf_spec h).2.1

theorem isFlat_of_single (h : ty.isSingle = true) : ty.IsFlat := by
  refine ⟨fun t ht => ?_, fun hnil => ?_⟩
  · rw [choices_of_single h] at ht
    exact List.mem_singleton.1 ht ▸ h
  · rw [choices_of_single h] at hnil
    cases hnil

theorem isFlat_null : FieldType.null.IsFlat := ⟨fun t ht => (by cases ht), fun _ => rfl⟩

/-- A type stands for others: it is the only one of them, or their union. -/
def StandsFor (ty : FieldType) (types : List FieldType) : Prop :=
  types = [ty] ∨ types ≠ [] ∧ ty = unionOf types

section

variable (h : ty.StandsFor types) (hflat : ∀ t ∈ types, t.IsFlat)

include h hflat

theorem StandsFor.isFlat : ty.IsFlat := by
  rcases h with rfl | ⟨_, rfl⟩
  · exact hflat ty List.mem_cons_self
  · exact isFlat_unionOf hflat

/-- It adds what they add. -/
theorem StandsFor.addAllNew (acc : List FieldType) :
    FieldType.addAllNew acc ty.choices = FieldType.addAllNew acc (types.flatMap choices) := by
  rcases h with rfl | ⟨_, rfl⟩
  · rw [List.flatMap_singleton]
  · calc
      FieldType.addAllNew acc (unionOf types).choices
        = FieldType.addAllNew acc (FieldType.addAllNew [] (types.flatMap choices)) := by
          rw [(unionOf_spec hflat).1, alternatives_of_flat hflat]
      _ = FieldType.addAllNew acc (types.flatMap choices) := addAllNew_addAllNew acc [] _

theorem StandsFor.allowsNull : ty.allowsNull = types.any FieldType.allowsNull := by
  rcases h with rfl | ⟨hne, rfl⟩
  · simp
  · exact (unionOf_spec hflat).2.2 hne

end

theorem unionOf_congr {others : List FieldType} (h : alternatives members = alternatives others)
    (hnull : members.any allowsNull = others.any allowsNull) : unionOf members = unionOf others := by
  rw [unionOf, unionOf, h, hnull]

/-- Members that stand for others can be replaced by them. -/
theorem unionOf_flatten {parted : List (List FieldType)} (h : List.Forall₂ StandsFor members parted)
    (hflat : ∀ types ∈ parted, ∀ t ∈ types, t.IsFlat) : unionOf members = unionOf parted.flatten := by
  have hall : ∀ t ∈ parted.flatten, t.IsFlat := by
    intro t ht
    rcases List.mem_flatten.1 ht with ⟨types, htypes, hmem⟩
    exact hflat types htypes t hmem
  -- Member by member, the same alternatives are added, and `null` is allowed alike.
  have hboth : (∀ ty ∈ members, ty.IsFlat) ∧
      (∀ acc, addAllNew acc (members.flatMap choices) = addAllNew acc (parted.flatten.flatMap choices)) ∧
        members.any allowsNull = parted.flatten.any allowsNull := by
    clear hall
    induction h with
    | nil => exact ⟨fun t ht => absurd ht List.not_mem_nil, fun _ => rfl, rfl⟩
    | @cons ty types members parted hstands _ ih =>
        have htypes := hflat types List.mem_cons_self
        rcases ih fun others hothers => hflat others (List.mem_cons_of_mem _ hothers) with
          ⟨hmembers, hadds, hnull⟩
        refine ⟨?_, fun acc => ?_, ?_⟩
        · intro t ht
          rcases List.mem_cons.1 ht with rfl | ht
          · exact hstands.isFlat htypes
          · exact hmembers t ht
        · rw [List.flatMap_cons, List.flatten_cons, List.flatMap_append, addAllNew_append,
            addAllNew_append, hstands.addAllNew htypes, hadds]
        · rw [List.any_cons, List.flatten_cons, List.any_append, hstands.allowsNull htypes, hnull]
  rcases hboth with ⟨hmembers, hadds, hnull⟩
  refine unionOf_congr ?_ hnull
  rw [alternatives_of_flat hmembers, alternatives_of_flat hall, hadds]

end

end FieldType

end WireTypes
