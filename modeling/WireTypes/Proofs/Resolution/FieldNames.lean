import Mathlib
import WireTypes.Resolution.Models

/-!
# Field names — which field of a name is found

- `Field.named?_upsertAll`: of fields that are put together the last one of a name counts;
- `Field.nodup_names_upsertAll`: and no name is there twice.
-/

namespace WireTypes

namespace Field

def named? (fields : List Field) (name : String) : Option Field :=
  fields.find? fun f => decide (f.name = name)

theorem named?_cons (f : Field) (rest : List Field) (name : String) :
    named? (f :: rest) name = if f.name = name then some f else named? rest name := by
  by_cases h : f.name = name <;> simp [named?, h]

theorem named?_append (fields more : List Field) (name : String) :
    named? (fields ++ more) name = (named? fields name).or (named? more name) :=
  List.find?_append

theorem named?_upsert (fields : List Field) (f : Field) (name : String) :
    named? (upsert fields f) name = if f.name = name then some f else named? fields name := by
  induction fields with
  | nil => exact named?_cons f [] name
  | cons g rest ih =>
      -- A field of the same name is replaced where it stands, and others are searched on.
      by_cases hsame : g.name = f.name
      · have hupsert : upsert (g :: rest) f = f :: rest := by simp [upsert, hsame]
        rw [hupsert, named?_cons, named?_cons, hsame]
        by_cases hname : f.name = name <;> simp [hname]
      · have hupsert : upsert (g :: rest) f = g :: upsert rest f := by simp [upsert, hsame]
        rw [hupsert, named?_cons, named?_cons, ih]
        by_cases hname : f.name = name
        · have hne : g.name ≠ name := fun h => hsame (h.trans hname.symm)
          simp [hname, hne]
        · simp [hname]

/-- The last new field of a name counts, and else the old one. -/
theorem named?_upsertAll (fields new : List Field) (name : String) :
    named? (upsertAll fields new) name = (named? new.reverse name).or (named? fields name) := by
  induction new generalizing fields with
  | nil => rfl
  | cons f rest ih =>
      have hsingle : (named? [f] name).or (named? fields name) = named? (upsert fields f) name := by
        rw [named?_upsert, named?_cons]
        by_cases hname : f.name = name <;> simp [hname, named?]
      calc
        named? (upsertAll (upsert fields f) rest) name
            = (named? rest.reverse name).or (named? (upsert fields f) name) := ih _
        _ = (named? rest.reverse name).or ((named? [f] name).or (named? fields name)) := by
            rw [hsingle]
        _ = (named? (f :: rest).reverse name).or (named? fields name) := by
            rw [List.reverse_cons, named?_append, Option.or_assoc]

theorem mem_names_upsert {fields : List Field} {f : Field} {name : String} :
    name ∈ (upsert fields f).map Field.name ↔ name = f.name ∨ name ∈ fields.map Field.name := by
  induction fields with
  | nil => simp [upsert]
  | cons g rest ih =>
      by_cases hsame : g.name = f.name
      · have hupsert : upsert (g :: rest) f = f :: rest := by simp [upsert, hsame]
        rw [hupsert, List.map_cons, List.map_cons, List.mem_cons, List.mem_cons, hsame, or_self_left]
      · have hupsert : upsert (g :: rest) f = g :: upsert rest f := by simp [upsert, hsame]
        rw [hupsert, List.map_cons, List.map_cons, List.mem_cons, List.mem_cons, ih, or_left_comm]

theorem nodup_names_upsert {fields : List Field} (h : (fields.map Field.name).Nodup) (f : Field) :
    ((upsert fields f).map Field.name).Nodup := by
  induction fields with
  | nil => exact List.nodup_singleton _
  | cons g rest ih =>
      rcases List.nodup_cons.1 h with ⟨hg, hrest⟩
      -- A replaced field leaves the names as they are, and one that is added has a new name.
      by_cases hsame : g.name = f.name
      · have hupsert : upsert (g :: rest) f = f :: rest := by simp [upsert, hsame]
        rw [hupsert, List.map_cons]
        exact List.nodup_cons.2 ⟨hsame ▸ hg, hrest⟩
      · have hupsert : upsert (g :: rest) f = g :: upsert rest f := by simp [upsert, hsame]
        rw [hupsert, List.map_cons]
        refine List.nodup_cons.2 ⟨fun hmem => ?_, ih hrest⟩
        rcases mem_names_upsert.1 hmem with hname | hmem
        · exact hsame hname
        · exact hg hmem

theorem nodup_names_upsertAll {fields : List Field} (h : (fields.map Field.name).Nodup)
    (new : List Field) : ((upsertAll fields new).map Field.name).Nodup := by
  induction new generalizing fields with
  | nil => exact h
  | cons f rest ih => exact ih (nodup_names_upsert h f)

theorem named?_reverse {fields : List Field} (h : (fields.map Field.name).Nodup) (name : String) :
    named? fields.reverse name = named? fields name := by
  induction fields with
  | nil => rfl
  | cons f rest ih =>
      rcases List.nodup_cons.1 h with ⟨hf, hrest⟩
      rw [List.reverse_cons, named?_append, ih hrest, named?_cons, named?_cons]
      by_cases hname : f.name = name
      -- No other field has the name of the first one.
      · have hnone : named? rest name = none := by
          rw [named?, List.find?_eq_none]
          intro g hg
          have hne : g.name ≠ name := fun h => hf (hname ▸ h ▸ List.mem_map_of_mem hg)
          simpa using hne
        simp [hname, hnone]
      · simp [hname, named?]

end Field

end WireTypes
