import Mathlib.Data.List.Basic
import Mathlib.Data.String.Basic

/-!
# Distinct — lists without repetitions

Identities and names are made distinct by `eraseDups`, and names are put in order by `mergeSort`. The order
of distinct names is strict, and there is one order only of the same elements.
-/

namespace WireTypes

theorem nodup_eraseDups {α : Type} [BEq α] [LawfulBEq α] (xs : List α) : xs.eraseDups.Nodup := by
  -- What is left after the first element has no element of that kind, and is shorter.
  induction hlength : xs.length using Nat.strong_induction_on generalizing xs with
  | _ n ih =>
      cases xs with
      | nil => simp
      | cons x rest =>
          rw [List.eraseDups_cons]
          have hshorter : (rest.filter fun y => !y == x).length < n := by
            have hle := List.length_filter_le (fun y => !y == x) rest
            simp only [List.length_cons] at hlength
            omega
          have hfresh : x ∉ (rest.filter fun y => !y == x).eraseDups := by
            simp [List.mem_eraseDups]
          exact List.nodup_cons.2 ⟨hfresh, ih _ hshorter _ rfl⟩

/-- Several elements of a list without repetitions are different ones. -/
theorem one_lt_length_iff {α : Type} {xs : List α} (h : xs.Nodup) :
    1 < xs.length ↔ ∃ a ∈ xs, ∃ b ∈ xs, a ≠ b := by
  match xs, h with
  | [], _ => simp
  | [x], _ => simp
  | x :: y :: rest, h =>
      have hne : x ≠ y := fun heq => (List.nodup_cons.1 h).1 (heq ▸ List.mem_cons_self)
      have hlength : 1 < (x :: y :: rest).length := by simp
      exact iff_of_true hlength ⟨x, List.mem_cons_self, y, by simp, hne⟩

/-- Entries in order of distinct names are in strict order. -/
theorem pairwise_lt_mergeSort {α : Type} (key : α → String) {xs : List α} (h : (xs.map key).Nodup) :
    ((xs.mergeSort fun a b => decide (key a ≤ key b)).map key).Pairwise (· < ·) := by
  have hsorted : (xs.mergeSort fun a b => decide (key a ≤ key b)).Pairwise
      fun a b => decide (key a ≤ key b) = true := by
    apply List.pairwise_mergeSort
    · intro a b c hab hbc
      simp only [decide_eq_true_eq] at hab hbc ⊢
      exact hab.trans hbc
    · intro a b
      simpa using String.le_total (key a) (key b)
  have hdistinct : ((xs.mergeSort fun a b => decide (key a ≤ key b)).map key).Nodup :=
    ((List.mergeSort_perm _ _).map key).nodup_iff.2 h
  have hle : ((xs.mergeSort fun a b => decide (key a ≤ key b)).map key).Pairwise (· ≤ ·) := by
    simpa [List.pairwise_map] using hsorted
  refine (hle.and hdistinct).imp ?_
  intro a b hab
  exact lt_of_le_of_ne hab.1 hab.2

/-- Lists with the same elements are put in the same order, if only equal elements precede each other. -/
theorem mergeSort_eq_of_perm {α : Type} {le : α → α → Bool} {xs ys : List α}
    (htrans : ∀ a b c, le a b = true → le b c = true → le a c = true)
    (htotal : ∀ a b, (le a b || le b a) = true)
    (hantisymm : ∀ a b, le a b = true → le b a = true → a = b) (h : xs.Perm ys) :
    xs.mergeSort le = ys.mergeSort le := by
  have hxs := List.pairwise_mergeSort htrans htotal xs
  have hys := List.pairwise_mergeSort htrans htotal ys
  have hperm : (xs.mergeSort le).Perm (ys.mergeSort le) :=
    (List.mergeSort_perm xs le).trans (h.trans (List.mergeSort_perm ys le).symm)
  exact hperm.eq_of_pairwise (fun a b _ _ hab hba => hantisymm a b hab hba) hxs hys

end WireTypes
