import Mathlib.Data.List.Basic
import WireTypes.Discovery.Layout

/-!
# Dotted names — what they keep of a path

The dotted name of a module is made of the last names of its place: its own name and those of the packages
around it. The place where the outermost package stands is lost.

- `start t key ++ chain t key` is the place of a module, and `dottedName t key` joins the chain;
- `dottedName_eq_iff`: equal dotted names are equal chains, where names have no points;
- `place_eq_of_dottedName`: so below one directory a dotted name is that of one place.
-/

namespace WireTypes
namespace Discovery

/-- The place of a module: a package stands at its directory, and another module at its file. -/
def place (t : FileTree) (key : Path) : Path := (packageDirectory? t key).getD key.withoutExtension

/-- The names of the packages around a module and its own. -/
def chain (t : FileTree) (key : Path) : List String :=
  (match (place t key).parent? with
    | some directory => packageNames t directory
    | none => []).reverse ++ (place t key).fileName?.toList

/-- The directory in which the outermost package around a module stands, or else the module. -/
def start (t : FileTree) (key : Path) : Path :=
  (place t key).take ((place t key).length - (chain t key).length)

variable {t : FileTree} {key key' : Path}

theorem dottedName_eq (t : FileTree) (key : Path) : dottedName t key = ".".intercalate (chain t key) := rfl

/-- The packages around a directory are its last names. -/
theorem packageNames_suffix (t : FileTree) (directory : Path) :
    (packageNames t directory).reverse <:+ directory := by
  fun_induction packageNames t directory with
  | case1 => exact List.nil_suffix
  | case2 directory _ name hname ih =>
      rcases ih with ⟨front, hfront⟩
      refine ⟨front, ?_⟩
      rw [List.reverse_cons, ← List.append_assoc, hfront]
      exact List.dropLast_append_getLast? name hname
  | case3 => exact List.nil_suffix

theorem chain_suffix (t : FileTree) (key : Path) : chain t key <:+ place t key := by
  unfold chain Path.parent? Path.fileName?
  cases hlast : (place t key).getLast? with
  | none =>
      have hplace : place t key = [] := List.getLast?_eq_none_iff.1 hlast
      simp [hplace]
  | some name =>
      have hplace : place t key ≠ [] := by
        intro hnil
        rw [hnil] at hlast
        cases hlast
      rcases packageNames_suffix t (place t key).dropLast with ⟨front, hfront⟩
      refine ⟨front, ?_⟩
      rw [if_neg hplace, ← List.append_assoc]
      show front ++ (packageNames t (place t key).dropLast).reverse ++ [name] = place t key
      rw [hfront]
      exact List.dropLast_append_getLast? name hlast

theorem start_append_chain (t : FileTree) (key : Path) : start t key ++ chain t key = place t key := by
  rcases chain_suffix t key with ⟨front, hfront⟩
  have hlength : (place t key).length - (chain t key).length = front.length := by
    rw [← hfront, List.length_append, Nat.add_sub_cancel]
  have hstart : start t key = front := by
    rw [start, hlength, ← hfront, List.take_left]
  rw [hstart, hfront]

/-- Names without points are told apart again after they are joined. -/
theorem splitOn_joined {names : List String} (hnames : ∀ s ∈ names, '.' ∉ s.toList)
    (hne : names ≠ []) : (".".intercalate names).toList.splitOn '.' = names.map String.toList := by
  have hparts : ∀ l ∈ names.map String.toList, '.' ∉ l := by
    intro l hl
    rcases List.mem_map.1 hl with ⟨s, hs, rfl⟩
    exact hnames s hs
  have htext : (".".intercalate names).toList = ['.'].intercalate (names.map String.toList) := by
    rw [String.toList_intercalate]
    rfl
  rw [htext, List.splitOn_intercalate '.' hparts (by simpa using hne)]

/-- A module with names that have no points. -/
structure PlainChain (t : FileTree) (key : Path) : Prop where
  nonempty : chain t key ≠ []
  names : ∀ s ∈ chain t key, '.' ∉ s.toList

/-- Without points in names, a dotted name is that of one chain. -/
theorem dottedName_eq_iff (h : PlainChain t key) (h' : PlainChain t key') :
    dottedName t key = dottedName t key' ↔ chain t key = chain t key' := by
  constructor
  · intro hdotted
    have hsplit := congrArg (fun s : String => s.toList.splitOn '.') hdotted
    simp only [dottedName_eq, splitOn_joined h.names h.nonempty,
      splitOn_joined h'.names h'.nonempty] at hsplit
    exact (List.map_injective_iff.2 fun _ _ => String.toList_inj.1) hsplit
  · intro hchain
    rw [dottedName_eq, dottedName_eq, hchain]

/-- Below one directory, modules of one dotted name stand at one place. -/
theorem place_eq_of_dottedName (h : PlainChain t key) (h' : PlainChain t key')
    (hstart : start t key = start t key') (hdotted : dottedName t key = dottedName t key') :
    place t key = place t key' := by
  have hchain := (dottedName_eq_iff h h').1 hdotted
  calc
    place t key = start t key ++ chain t key := (start_append_chain t key).symm
    _ = start t key' ++ chain t key' := by rw [hstart, hchain]
    _ = place t key' := start_append_chain t key'

end Discovery
end WireTypes
