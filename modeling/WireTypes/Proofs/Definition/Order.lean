import WireTypes.Definition.Id
import WireTypes.Proofs.Distinct

/-!
# Order — identities in order are in one order

Identities are compared by path, component by component, and then by name. No two different ones compare as
equal, so that a list of them can be put in order in one way only.

- `compareId` is lexicographic, and so a total order;
- `mergeSort_precedes_of_perm`: identities in order do not depend on the order that they were in before.
-/

namespace WireTypes

namespace DefinitionId

theorem compareComponent_eq :
    compareComponent = compareLex (compareOn Prod.fst) (compareOn Prod.snd) := rfl

theorem comparePath_eq (a b : List (Nat × String)) :
    comparePath a b = List.compareLex compareComponent a b := by
  induction a generalizing b with
  | nil =>
      cases b with
      | nil => exact List.compareLex_nil_nil.symm
      | cons y bs => exact List.compareLex_nil_cons.symm
  | cons x as ih =>
      cases b with
      | nil => exact List.compareLex_cons_nil.symm
      | cons y bs => simp [comparePath, List.compareLex_cons_cons, ih]

/-- Paths come before names. Paths that compare as equal may still be different texts. -/
theorem compareId_eq : compareId =
    compareLex
      (compareLex
        (Ordering.byKey (fun id => pathKey id.module) (List.compareLex compareComponent))
        (compareOn DefinitionId.module))
      (compareOn DefinitionId.name) := by
  funext a b
  simp [compareId, compareLex, compareOn, Ordering.byKey, comparePath_eq]

instance : Std.TransCmp compareId := by
  have hcomponent : Std.TransCmp compareComponent := by
    rw [compareComponent_eq]
    infer_instance
  have hpath : Std.TransCmp (Ordering.byKey (fun id : DefinitionId => pathKey id.module)
      (List.compareLex compareComponent)) := inferInstance
  rw [compareId_eq]
  infer_instance

theorem eq_of_compareId_eq {a b : DefinitionId} (h : compareId a b = .eq) : a = b := by
  rw [compareId_eq, compareLex_eq_eq, compareLex_eq_eq] at h
  rcases h with ⟨⟨_, hmodule⟩, hname⟩
  have hmodule : a.module = b.module := Std.LawfulEqCmp.eq_of_compare hmodule
  have hname : a.name = b.name := Std.LawfulEqCmp.eq_of_compare hname
  cases a
  cases b
  simp_all

theorem precedes_trans (a b c : DefinitionId) (hab : a.precedes b = true) (hbc : b.precedes c = true) :
    a.precedes c = true :=
  Std.TransCmp.isLE_trans hab hbc

theorem precedes_total (a b : DefinitionId) : (a.precedes b || b.precedes a) = true := by
  have hswap : compareId a b = (compareId b a).swap := Std.OrientedCmp.eq_swap
  simp only [precedes, hswap]
  cases compareId b a <;> rfl

theorem precedes_antisymm (a b : DefinitionId) (hab : a.precedes b = true)
    (hba : b.precedes a = true) : a = b := by
  have hswap : compareId a b = (compareId b a).swap := Std.OrientedCmp.eq_swap
  apply eq_of_compareId_eq
  simp only [precedes, hswap] at hab hba ⊢
  cases h : compareId b a <;> simp_all

theorem mergeSort_precedes_of_perm {ids ids' : List DefinitionId} (h : ids.Perm ids') :
    ids.mergeSort precedes = ids'.mergeSort precedes :=
  mergeSort_eq_of_perm precedes_trans precedes_total precedes_antisymm h

end DefinitionId
end WireTypes
