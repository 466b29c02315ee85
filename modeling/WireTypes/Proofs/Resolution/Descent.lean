import Mathlib
import WireTypes.Resolution.ClassKind

/-!
# Descent — going up from a class to its bases

What is known of a class follows from what is known of its bases, and they are looked at first. The steps
that are left are as many as there are classes that were not met on the way.

- `mem_classIds_of_decl`: every class with a declaration is among the classes of the program;
- `Descent`: the classes that are being looked at, with the steps that are left;
- `Descent.base`: a base is looked at with its class above it, and there is a step for it.
-/

namespace WireTypes
namespace Resolution

open Discovery Python

namespace ClassifiedProgram

variable {id : DefinitionId}

theorem mem_lastNames {classes : List ClassDecl} {name : String}
    (h : name ∈ classes.map ClassDecl.name) : name ∈ Program.lastNames classes := by
  induction classes with
  | nil => cases h
  | cons d rest ih =>
      unfold Program.lastNames
      -- A name that comes again later counts there.
      by_cases hagain : rest.any (·.name == d.name) = true
      · rw [if_pos hagain]
        rcases List.mem_cons.1 h with rfl | hrest
        · rcases List.any_eq_true.1 hagain with ⟨other, hother, hsame⟩
          have hname : other.name = d.name := by simpa using hsame
          exact ih (hname ▸ List.mem_map_of_mem hother)
        · exact ih hrest
      · rw [if_neg hagain]
        rcases List.mem_cons.1 h with rfl | hrest
        · exact List.mem_cons_self
        · exact List.mem_cons_of_mem _ (ih hrest)

/-- The class of an identity is one of a module of that path. -/
theorem classDecl?_spec {p : Program} {m : SourceModule} {d : ClassDecl}
    (h : p.classDecl? id = some (m, d)) :
    m ∈ p ∧ m.key.display = id.module ∧ d ∈ m.content.classes ∧ d.name = id.name := by
  rcases Option.bind_eq_some_iff.1 h with ⟨m', hm', hclass⟩
  rcases Option.bind_eq_some_iff.1 hclass with ⟨d', hd', hfound⟩
  cases hfound
  exact ⟨List.mem_of_find?_eq_some hm', by simpa using List.find?_some hm',
    List.mem_reverse.1 (List.mem_of_find?_eq_some hd'), by simpa using List.find?_some hd'⟩

theorem mem_classIds_of_decl {p : Program} {m : SourceModule} {d : ClassDecl}
    (h : p.classDecl? id = some (m, d)) : id ∈ p.classIds := by
  rcases classDecl?_spec h with ⟨hm, hmodule, hd, hname⟩
  have hlast : id.name ∈ Program.lastNames m.content.classes :=
    mem_lastNames (hname ▸ List.mem_map_of_mem hd)
  refine List.mem_flatMap.2 ⟨m, hm, List.mem_map.2 ⟨id.name, hlast, ?_⟩⟩
  rw [SourceModule.classId, hmodule]

end ClassifiedProgram

/-- The classes whose bases are being looked at: they are different, the class is above each of them, and
the steps that are left suffice for the others. -/
structure Program.Descent (p : Program) (baseOf : DefinitionId → DefinitionId → Prop) (depth : Nat)
    (above : List DefinitionId) (id : DefinitionId) : Prop where
  distinct : above.Nodup
  classes : ∀ a ∈ above, a ∈ p.classIds
  depth : depth + above.length = p.classDepth
  leads : ∀ a ∈ above, Relation.TransGen baseOf id a

namespace Program.Descent

variable {p : Program} {baseOf : DefinitionId → DefinitionId → Prop} {depth : Nat}
  {above : List DefinitionId} {id : DefinitionId}

theorem start (id : DefinitionId) : p.Descent baseOf p.classDepth [] id :=
  ⟨List.nodup_nil, fun _ h => absurd h List.not_mem_nil, rfl, fun _ h => absurd h List.not_mem_nil⟩

theorem depth_pos (h : p.Descent baseOf 0 above id) : False := by
  -- More classes would be above than there are.
  have hle : above.length ≤ p.classIds.length := (h.distinct.subperm h.classes).length_le
  have hdepth := h.depth
  simp only [classDepth] at hdepth
  omega

theorem base (h : p.Descent baseOf (depth + 1) above id) (habove : id ∉ above) (hid : id ∈ p.classIds)
    {b : DefinitionId} (hb : baseOf b id) : p.Descent baseOf depth (id :: above) b := by
  refine ⟨List.nodup_cons.2 ⟨habove, h.distinct⟩, ?_, ?_, ?_⟩
  · intro a ha
    rcases List.mem_cons.1 ha with rfl | ha
    · exact hid
    · exact h.classes a ha
  · have hdepth := h.depth
    simp only [List.length_cons]
    omega
  · intro a ha
    rcases List.mem_cons.1 ha with rfl | ha
    · exact .single hb
    · exact .head hb (h.leads a ha)

end Program.Descent

end Resolution
end WireTypes
