import Mathlib
import WireTypes.Json.Basic

/-!
# Members — what can be read from an object after members were inserted

Objects are read through `Json.lookup`. Main statements:

- `lookup_insert_self`, `lookup_insert_of_ne`: an inserted member is found, and the others stay;
- `mem_insert_of_ne`: an insertion keeps the members of other names;
- `lookup_insertAll_of_mem`, `lookup_insertAll_of_not_mem`: of several inserted members of one name some
  member is found, and names that are not inserted keep their value.
-/

namespace WireTypes
namespace Json

/-! ## One member -/

theorem mem_of_lookup {key : String} {v : Json} :
    ∀ {members : List (String × Json)}, lookup key members = some v → (key, v) ∈ members := by
  intro members
  induction members with
  | nil =>
      intro h
      simp [lookup] at h
  | cons m rest ih =>
      intro h
      by_cases hk : m.1 = key
      · have hv : m.2 = v := by simpa [lookup, hk] using h
        rw [← hk, ← hv]
        exact List.mem_cons_self
      · have hrest : lookup key rest = some v := by simpa [lookup, hk] using h
        exact List.mem_cons_of_mem _ (ih hrest)

theorem lookup_eq_none_iff {key : String} {members : List (String × Json)} :
    lookup key members = none ↔ key ∉ members.map Prod.fst := by
  induction members with
  | nil => simp [lookup]
  | cons m rest ih =>
      by_cases hk : m.1 = key
      · simp [lookup, hk]
      · have hk' : ¬ key = m.1 := fun h => hk h.symm
        simp only [lookup, hk, if_false, List.map_cons, List.mem_cons, hk', false_or]
        exact ih

@[simp] theorem lookup_insert_self (key : String) (v : Json) (members : List (String × Json)) :
    lookup key (insert key v members) = some v := by
  induction members with
  | nil => simp [insert, lookup]
  | cons m rest ih =>
      by_cases hk : m.1 = key
      · simp [insert, lookup, hk]
      · simp [insert, lookup, hk, ih]

theorem lookup_insert_of_ne {key other : String} (h : other ≠ key) (v : Json)
    (members : List (String × Json)) :
    lookup other (insert key v members) = lookup other members := by
  have h' : key ≠ other := fun e => h e.symm
  induction members with
  | nil => simp [insert, lookup, h']
  | cons m rest ih =>
      by_cases hk : m.1 = key
      · simp [insert, lookup, hk, h']
      · simp [insert, lookup, hk, ih]

/-- A member of another name is there after an insertion if it was there before. -/
theorem mem_insert_of_ne {key : String} {v : Json} {m : String × Json} (h : m.1 ≠ key) :
    ∀ {members : List (String × Json)}, m ∈ insert key v members ↔ m ∈ members := by
  intro members
  have hm : m ≠ (key, v) := fun e => h (by rw [e])
  induction members with
  | nil => simp [insert, hm]
  | cons n rest ih =>
      -- A member of the same name is replaced where it stands.
      by_cases hk : n.1 = key
      · have hn : m ≠ n := fun e => h (by rw [e, hk])
        simp [insert, hk, hm, hn]
      · simp [insert, hk, ih]

theorem lookup_append_of_not_mem {key : String} {front members : List (String × Json)}
    (h : key ∉ front.map Prod.fst) : lookup key (front ++ members) = lookup key members := by
  induction front with
  | nil => rfl
  | cons m rest ih =>
      have hne : m.1 ≠ key := fun e => h (by simp [e])
      have hrest : key ∉ rest.map Prod.fst := fun e => h (by simp [e])
      rw [List.cons_append, lookup, if_neg hne, ih hrest]

/-- The value of a member is smaller than the object. -/
theorem sizeOf_lt_of_lookup {key : String} {v : Json} {members : List (String × Json)}
    (h : lookup key members = some v) : sizeOf v < sizeOf (Json.obj members) := by
  have hmem := List.sizeOf_lt_of_mem (mem_of_lookup h)
  simp only [Prod.mk.sizeOf_spec] at hmem
  simp only [Json.obj.sizeOf_spec]
  omega

/-! ## Several members -/

theorem insertAll_cons (members : List (String × Json)) (m : String × Json)
    (new : List (String × Json)) :
    insertAll members (m :: new) = insertAll (insert m.1 m.2 members) new := rfl

theorem lookup_insertAll_of_not_mem {key : String} {new : List (String × Json)}
    (h : key ∉ new.map Prod.fst) (members : List (String × Json)) :
    lookup key (insertAll members new) = lookup key members := by
  induction new generalizing members with
  | nil => rfl
  | cons m rest ih =>
      have hne : key ≠ m.1 := fun e => h (by simp [e])
      have hrest : key ∉ rest.map Prod.fst := fun e => h (by simp [e])
      rw [insertAll_cons, ih hrest, lookup_insert_of_ne hne]

theorem lookup_insertAll_of_mem {key : String} {new : List (String × Json)}
    (h : key ∈ new.map Prod.fst) (members : List (String × Json)) :
    ∃ v, lookup key (insertAll members new) = some v ∧ (key, v) ∈ new := by
  induction new generalizing members with
  | nil => simp at h
  | cons m rest ih =>
      rw [insertAll_cons]
      -- The last of the members with this name is found.
      by_cases hrest : key ∈ rest.map Prod.fst
      · rcases ih hrest (insert m.1 m.2 members) with ⟨v, hv, hmem⟩
        exact ⟨v, hv, List.mem_cons_of_mem _ hmem⟩
      · have hkey : key = m.1 := by simpa [hrest] using h
        refine ⟨m.2, ?_, ?_⟩
        · rw [lookup_insertAll_of_not_mem hrest, hkey, lookup_insert_self]
        · rw [hkey]
          exact List.mem_cons_self

theorem mem_of_mem_insert {key : String} {v : Json} {m : String × Json}
    {members : List (String × Json)} (h : m ∈ insert key v members) : m = (key, v) ∨ m ∈ members := by
  induction members with
  | nil => simpa [insert] using h
  | cons n rest ih =>
      by_cases hk : n.1 = key
      · simp only [insert, hk, if_true, List.mem_cons] at h
        rcases h with rfl | hrest
        · exact Or.inl rfl
        · exact Or.inr (List.mem_cons_of_mem _ hrest)
      · simp only [insert, hk, if_false, List.mem_cons] at h
        rcases h with rfl | hrest
        · exact Or.inr List.mem_cons_self
        · exact (ih hrest).imp_right (List.mem_cons_of_mem _)

theorem mem_of_mem_insertAll {m : String × Json} {new : List (String × Json)} :
    ∀ {members : List (String × Json)}, m ∈ insertAll members new → m ∈ members ∨ m ∈ new := by
  induction new with
  | nil => exact fun h => Or.inl h
  | cons n rest ih =>
      intro members h
      rcases ih h with hmem | hrest
      · rcases mem_of_mem_insert hmem with rfl | hold
        · exact Or.inr List.mem_cons_self
        · exact Or.inl hold
      · exact Or.inr (List.mem_cons_of_mem _ hrest)

theorem mem_of_mem_insertAll_nil {m : String × Json} {new : List (String × Json)}
    (h : m ∈ insertAll [] new) : m ∈ new :=
  (mem_of_mem_insertAll h).resolve_left List.not_mem_nil

/-- A member of a name that is not there yet goes to the end. -/
theorem insert_of_not_mem {key : String} {v : Json} {members : List (String × Json)}
    (h : key ∉ members.map Prod.fst) : insert key v members = members ++ [(key, v)] := by
  induction members with
  | nil => rfl
  | cons m rest ih =>
      have hne : m.1 ≠ key := fun e => h (by simp [e])
      have hrest : key ∉ rest.map Prod.fst := fun e => h (by simp [e])
      simp [insert, hne, ih hrest]

/-- Members of different names stay in order. -/
theorem insertAll_of_nodup {new : List (String × Json)} :
    ∀ {members : List (String × Json)}, ((members ++ new).map Prod.fst).Nodup →
      insertAll members new = members ++ new := by
  induction new with
  | nil => simp [insertAll]
  | cons m rest ih =>
      intro members h
      have hfresh : m.1 ∉ members.map Prod.fst := by
        intro hmem
        rw [List.map_append, List.nodup_append] at h
        exact h.2.2 m.1 hmem m.1 (by simp) rfl
      have hnext : ((members ++ [(m.1, m.2)] ++ rest).map Prod.fst).Nodup := by
        simpa using h
      rw [insertAll_cons, insert_of_not_mem hfresh, ih hnext]
      simp

theorem insertAll_nil_of_nodup {new : List (String × Json)} (h : (new.map Prod.fst).Nodup) :
    insertAll [] new = new := insertAll_of_nodup (by simpa using h)

theorem nodup_keys_insert {key : String} {v : Json} {members : List (String × Json)}
    (h : (members.map Prod.fst).Nodup) : ((insert key v members).map Prod.fst).Nodup := by
  induction members with
  | nil => simp [insert]
  | cons m rest ih =>
      have hcons : m.1 ∉ rest.map Prod.fst ∧ (rest.map Prod.fst).Nodup := List.nodup_cons.1 h
      by_cases hk : m.1 = key
      · simpa [insert, hk] using h
      · have hrest : ((insert key v rest).map Prod.fst).Nodup := ih hcons.2
        have hfresh : m.1 ∉ (insert key v rest).map Prod.fst := by
          intro hmem
          rcases List.mem_map.1 hmem with ⟨n, hn, hname⟩
          rcases mem_of_mem_insert hn with rfl | hn
          · exact hk hname.symm
          · exact hcons.1 (List.mem_map.2 ⟨n, hn, hname⟩)
        simp only [insert, hk, if_false, List.map_cons]
        exact List.nodup_cons.2 ⟨hfresh, hrest⟩

/-- An object that is built by insertions has every name once. -/
theorem nodup_keys_insertAll_nil (new : List (String × Json)) :
    ((insertAll [] new).map Prod.fst).Nodup := by
  have hall : ∀ (new members : List (String × Json)), (members.map Prod.fst).Nodup →
      ((insertAll members new).map Prod.fst).Nodup := by
    intro new
    induction new with
    | nil => exact fun _ h => h
    | cons m rest ih => exact fun _ h => ih _ (nodup_keys_insert h)
  exact hall new [] List.nodup_nil

theorem lookup_insertAll_nil_isSome {key : String} {new : List (String × Json)} :
    (lookup key (insertAll [] new)).isSome ↔ key ∈ new.map Prod.fst := by
  by_cases h : key ∈ new.map Prod.fst
  · rcases lookup_insertAll_of_mem h [] with ⟨v, hv, _⟩
    simp [hv, h]
  · simp [lookup_insertAll_of_not_mem h, lookup, h]

theorem mem_of_lookup_insertAll_nil {key : String} {v : Json} {new : List (String × Json)}
    (h : lookup key (insertAll [] new) = some v) : (key, v) ∈ new := by
  have hkey : key ∈ new.map Prod.fst := lookup_insertAll_nil_isSome.1 (by rw [h]; rfl)
  rcases lookup_insertAll_of_mem hkey [] with ⟨w, hw, hmem⟩
  rw [h] at hw
  cases hw
  exact hmem

/-- Members of different names are found as they were inserted. -/
theorem lookup_insertAll_of_nodup {new : List (String × Json)} (h : (new.map Prod.fst).Nodup)
    {key : String} {v : Json} (hmem : (key, v) ∈ new) (members : List (String × Json)) :
    lookup key (insertAll members new) = some v := by
  have hkey : key ∈ new.map Prod.fst := List.mem_map.2 ⟨(key, v), hmem, rfl⟩
  rcases lookup_insertAll_of_mem hkey members with ⟨w, hw, hwmem⟩
  have heq : (key, w) = (key, v) := List.inj_on_of_nodup_map h hwmem hmem rfl
  have hvalue : w = v := congrArg Prod.snd heq
  rw [hw, hvalue]

end Json
end WireTypes
