import Mathlib.Data.List.Basic
import WireTypes.Json.Basic

/-!
# Pointer — reading a reference as a JSON pointer

A reference inside a document is `#` and a pointer: names of members and numbers of items, each behind a
slash. In a name, `~1` stands for a slash and `~0` for a tilde.

- `tokens?`: the steps of a pointer; `resolve?`: the value that it leads to;
- `IsLiteral`: a name that stands for itself in a pointer;
- `unescape_eq_self_iff`, `splitOn_map_unescape_iff`: only such names do.
-/

namespace WireTypes
namespace Json
namespace Pointer

/-! ## Pointers -/

/-- What a step stands for. -/
def unescape : List Char → List Char
  | '~' :: '0' :: rest => '~' :: unescape rest
  | '~' :: '1' :: rest => '/' :: unescape rest
  | c :: rest => c :: unescape rest
  | [] => []

/-- The steps of a pointer behind `#`; the empty pointer has none. -/
def tokens? (reference : String) : Option (List String) :=
  match reference.toList with
  | ['#'] => some []
  | '#' :: '/' :: path =>
      some ((path.splitOn '/').map fun token => String.ofList (unescape token))
  | _ => none

theorem tokens?_of_path {reference : String} {path : List Char}
    (h : reference.toList = '#' :: '/' :: path) :
    tokens? reference =
      some ((path.splitOn '/').map fun token => String.ofList (unescape token)) := by
  unfold tokens?
  rw [h]
  rfl

/-- The number of an item, written without zeros in front. -/
def index? (token : String) : Option Nat :=
  match token.toList with
  | [] => none
  | ['0'] => some 0
  | '0' :: _ => none
  | digits => if digits.all Char.isDigit then some (Nat.ofDigitChars 10 digits 0) else none

/-- The value at the end of the steps. -/
def at? : List String → Json → Option Json
  | [], j => some j
  | token :: rest, .obj members => (lookup token members).bind (at? rest)
  | token :: rest, .arr items => ((index? token).bind fun i => items[i]?).bind (at? rest)
  | _ :: _, _ => none

/-- The value that a reference inside a document leads to. -/
def resolve? (document : Json) (reference : String) : Option Json :=
  (tokens? reference).bind fun tokens => at? tokens document

/-! ## Names that stand for themselves -/

/-- A name without a slash and without the marks that are read as another character. -/
def IsLiteral (name : String) : Prop :=
  '/' ∉ name.toList ∧ ¬ ['~', '0'] <:+: name.toList ∧ ¬ ['~', '1'] <:+: name.toList

instance : DecidablePred IsLiteral := fun _ => inferInstanceAs (Decidable (_ ∧ _ ∧ _))

theorem length_unescape_le (cs : List Char) : (unescape cs).length ≤ cs.length := by
  fun_induction unescape cs with
  | case1 rest ih =>
      simp only [List.length_cons]
      omega
  | case2 rest ih =>
      simp only [List.length_cons]
      omega
  | case3 c rest _ _ ih => simpa using ih
  | case4 => simp

theorem infix_pair_cons_iff {a b c : Char} {rest : List Char} :
    [a, b] <:+: c :: rest ↔ (c = a ∧ rest.head? = some b) ∨ [a, b] <:+: rest := by
  rw [List.infix_cons_iff]
  refine or_congr_left ?_
  cases rest with
  | nil => simp
  | cons d rest =>
      simp [List.cons_prefix_cons, eq_comm]

/-- Every mark that is read as another character makes the name shorter. -/
theorem unescape_eq_self_iff (cs : List Char) :
    unescape cs = cs ↔ ¬ ['~', '0'] <:+: cs ∧ ¬ ['~', '1'] <:+: cs := by
  fun_induction unescape cs with
  | case1 rest ih =>
      have hlength := length_unescape_le rest
      constructor
      · intro h
        have hsame := congrArg List.length h
        simp only [List.length_cons] at hsame
        omega
      · intro h
        exact absurd (infix_pair_cons_iff.2 (Or.inl ⟨rfl, rfl⟩)) h.1
  | case2 rest ih =>
      have hlength := length_unescape_le rest
      constructor
      · intro h
        have hsame := congrArg List.length h
        simp only [List.length_cons] at hsame
        omega
      · intro h
        exact absurd (infix_pair_cons_iff.2 (Or.inl ⟨rfl, rfl⟩)) h.2
  | case3 c rest hzero hone ih =>
      -- The first character begins no mark, so that only the others count.
      have hzero' : ¬ (c = '~' ∧ rest.head? = some '0') := by
        rintro ⟨rfl, hhead⟩
        cases rest with
        | nil => cases hhead
        | cons d rest =>
            cases hhead
            exact hzero rest rfl rfl
      have hone' : ¬ (c = '~' ∧ rest.head? = some '1') := by
        rintro ⟨rfl, hhead⟩
        cases rest with
        | nil => cases hhead
        | cons d rest =>
            cases hhead
            exact hone rest rfl rfl
      rw [infix_pair_cons_iff, infix_pair_cons_iff]
      simp [hzero', hone', ih]
  | case4 => simp

/-- A name is one step that stands for itself just if it is literal. -/
theorem splitOn_map_unescape_iff (name : String) :
    ((name.toList.splitOn '/').map fun token => String.ofList (unescape token)) = [name] ↔
      IsLiteral name := by
  by_cases hslash : '/' ∈ name.toList
  · -- Before and after a slash there are steps of their own.
    rcases List.append_of_mem hslash with ⟨front, back, hsplit⟩
    have hseveral : 1 < (name.toList.splitOn '/').length := by
      rw [hsplit, List.splitOn_append_cons_self]
      have hfront := List.length_pos_of_ne_nil (List.splitOn_ne_nil '/' front)
      have hback := List.length_pos_of_ne_nil (List.splitOn_ne_nil '/' back)
      rw [List.length_append]
      omega
    constructor
    · intro h
      have hlength := congrArg List.length h
      simp only [List.length_map, List.length_singleton] at hlength
      omega
    · intro h
      exact absurd hslash h.1
  · rw [List.splitOn_eq_singleton hslash, List.map_singleton, List.singleton_inj]
    have hsame : String.ofList (unescape name.toList) = name ↔ unescape name.toList = name.toList := by
      constructor
      · intro h
        simpa using congrArg String.toList h
      · intro h
        simp [h]
    rw [hsame, unescape_eq_self_iff]
    simp [IsLiteral, hslash]

end Pointer
end Json
end WireTypes
