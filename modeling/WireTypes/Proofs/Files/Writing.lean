import Mathlib.Data.List.Basic
import WireTypes.Generator.Command

/-!
# Writing — what is different after a tree was changed

A change of a tree is described by the places at which entries may differ.

- `ChangesOnly`: nothing differs but at places of a kind;
- `entry_put`, `entry_remove`: what stands at a place after an entry was put or removed;
- `writablePlace?_free`: a file is written where a file is, or nothing;
- `walk_of_writablePlace?`: the way that leads to the place leads to it afterwards too;
- `write?_spec`: so what was written is read back by the same text, and nothing else is different.
-/

namespace WireTypes
namespace FileTree

/-! ## Changes -/

/-- Entries differ at places of this kind only. -/
structure ChangesOnly (changed : Path → Prop) (t t' : FileTree) : Prop where
  workingDirectory : t'.workingDirectory = t.workingDirectory
  entries : ∀ p, ¬ changed p → t'.entry? p = t.entry? p

/-- The same entries at all places. -/
def Same : FileTree → FileTree → Prop := ChangesOnly fun _ => False

namespace ChangesOnly

variable {changed changed' : Path → Prop} {t t' t'' : FileTree}

theorem refl (t : FileTree) : ChangesOnly changed t t := ⟨rfl, fun _ _ => rfl⟩

theorem trans (h : ChangesOnly changed t t') (h' : ChangesOnly changed t' t'') :
    ChangesOnly changed t t'' :=
  ⟨h'.workingDirectory.trans h.workingDirectory,
    fun p hp => (h'.entries p hp).trans (h.entries p hp)⟩

theorem mono (h : ChangesOnly changed t t') (hmore : ∀ p, changed p → changed' p) :
    ChangesOnly changed' t t' :=
  ⟨h.workingDirectory, fun p hp => h.entries p fun hchanged => hp (hmore p hchanged)⟩

end ChangesOnly

/-! ## Entries -/

variable {t : FileTree} {p q : Path} {e : Entry}

theorem entry_root (t : FileTree) : t.entry? [] = some .directory := rfl

theorem entry_of_ne (hq : q ≠ []) : t.entry? q = (t.entries.find? (·.1 = q)).map (·.2) := by
  simp only [ entry?, hq, if_false]

theorem find?_replaced (entries : List (Path × Entry)) :
    (entries.map fun old => if old.1 = p then (p, e) else old).find? (·.1 = q)
      = (entries.find? (·.1 = q)).map fun old => if old.1 = p then (p, e) else old := by
  have hplaces : ((fun x : Path × Entry => decide (x.1 = q)) ∘
      fun old => if old.1 = p then (p, e) else old) = fun x => decide (x.1 = q) := by
    funext old
    by_cases hold : old.1 = p <;> simp [hold]
  rw [List.find?_map, hplaces]

theorem entry_put (hp : p ≠ []) : entry? (t.put p e) q = if q = p then some e else t.entry? q := by
  by_cases hq : q = []
  · have hne : q ≠ p := fun heq => hp (heq.symm.trans hq)
    simp only [hq, entry_root, if_neg (Ne.symm hp)]
  · simp only [entry_of_ne hq, put]
    by_cases hthere : t.entries.any (·.1 = p) = true
    · -- All entries at the place are replaced.
      simp only [hthere, if_true, find?_replaced, Option.map_map]
      cases hfound : t.entries.find? (·.1 = q) with
      | some old =>
          have hold : old.1 = q := by simpa using List.find?_some hfound
          by_cases heq : q = p <;> simp [hold, heq]
      | none =>
          have hne : q ≠ p := by
            rintro rfl
            rcases List.any_eq_true.1 hthere with ⟨old, hmem, hold⟩
            exact List.find?_eq_none.1 hfound old hmem hold
          simp [hne]
    · -- The entry comes last.
      simp only [hthere, Bool.false_eq_true, if_false, List.find?_append]
      by_cases heq : q = p
      · have hnone : t.entries.find? (·.1 = q) = none := by
          rw [List.find?_eq_none]
          exact fun old hmem hold => hthere (List.any_eq_true.2 ⟨old, hmem, by simpa [heq] using hold⟩)
        rw [hnone, heq]
        simp
      · simp [heq, Ne.symm heq]

theorem put_changesOnly (hp : p ≠ []) : ChangesOnly (· = p) t (t.put p e) := by
  constructor
  · unfold put
    split <;> rfl
  · intro q hq
    rw [entry_put hp, if_neg hq]

theorem entry_remove (hp : p ≠ []) :
    entry? (t.remove p) q = if p <+: q then none else t.entry? q := by
  by_cases hq : q = []
  · have hnot : ¬ p <+: q := fun hprefix => hp (List.prefix_nil.1 (hq ▸ hprefix))
    rw [if_neg hnot, hq, entry_root, entry_root]
  · simp only [entry_of_ne hq, remove, List.find?_filter]
    by_cases hprefix : p <+: q
    · have hisPrefix : p.isPrefixOf q = true := List.isPrefixOf_iff_prefix.2 hprefix
      have hnone : t.entries.find? (fun x =>
          decide ((!p.isPrefixOf x.1) = true ∧ decide (x.1 = q) = true)) = none := by
        apply List.find?_eq_none.2
        intro x _
        by_cases hx : x.1 = q <;> simp [hx, hisPrefix]
      simp only [hnone, hprefix, if_true, Option.map_none]
    · have hisPrefix : p.isPrefixOf q = false :=
        Bool.eq_false_iff.2 fun h => hprefix (List.isPrefixOf_iff_prefix.1 h)
      have hplaces : ∀ x : Path × Entry,
          decide ((!p.isPrefixOf x.1) = true ∧ decide (x.1 = q) = true) = decide (x.1 = q) := by
        intro x
        by_cases hx : x.1 = q <;> simp [hx, hisPrefix]
      simp only [hplaces, hprefix, if_false]

/-! ## The place of a file -/

/-- A file is written where a file is, or nothing. -/
theorem writablePlace?_free (links : Nat) (place : Path) (steps : List String)
    (h : t.writablePlace? links place steps = some q) :
    q ≠ [] ∧ ∀ e, t.entry? q = some e → e.isFile = true := by
  fun_induction writablePlace? t links place steps with
  | case3 _ _ _ _ _ _ ih => exact ih h
  | case4 _ _ _ _ _ ih => exact ih h
  | case6 _ _ _ _ _ _ _ _ _ _ _ _ ih => exact ih h
  | case7 _ _ _ _ _ _ _ _ ih => exact ih h
  | case8 _ place step rest _ _ _ _ hlink hdirectory =>
      cases h
      refine ⟨List.concat_ne_nil _ _, fun e he => ?_⟩
      cases e with
      | file content => rfl
      | directory => exact absurd he hdirectory
      | link target => exact absurd he (hlink target)
  | _ => cases h

/-- The way to the place is the same when the file is there, since no directory or link on the way is
another one then. -/
theorem walk_of_writablePlace? {t' : FileTree} {content : ByteArray}
    (hchanges : ChangesOnly (· = q) t t') (hfile : t'.entry? q = some (.file content))
    (hfree : ∀ e, t.entry? q = some e → e.isFile = true) (links : Nat) (place : Path)
    (steps : List String) (h : t.writablePlace? links place steps = some q) :
    t'.walk links place steps = some q := by
  have hsame : ∀ (p : Path) (e : Entry), t.entry? p = some e → e.isFile = false →
      t'.entry? p = some e := by
    intro p e he hnoFile
    refine (hchanges.entries p ?_).trans he
    rintro rfl
    have hisFile := hfree e he
    rw [hnoFile] at hisFile
    cases hisFile
  have hdirectories : ∀ p, ¬ (!(t.entry? p).any Entry.isDirectory) = true →
      t'.entry? p = some .directory := by
    intro p hp
    apply hsame p .directory _ rfl
    cases he : t.entry? p with
    | none => simp [he] at hp
    | some e => cases e <;> simp_all [Entry.isDirectory]
  fun_induction writablePlace? t links place steps with
  | case3 _ place step rest hdirectory hhere ih =>
      rw [walk]
      simp only [hdirectories place hdirectory, hhere, if_true]
      exact ih h
  | case4 _ place rest hdirectory hhere ih =>
      rw [walk]
      simp only [hdirectories place hdirectory, hhere]
      exact ih h
  | case6 place step rest hdirectory hhere hdots target hlink links start more hsteps ih =>
      rw [walk]
      simp only [hdirectories place hdirectory, hhere, hdots, hsame _ _ hlink rfl, hsteps]
      exact ih h
  | case7 links place step rest hdirectory hhere hdots hthere ih =>
      rw [walk]
      simp only [hdirectories place hdirectory, hhere, hdots, hsame _ _ hthere rfl]
      exact ih h
  | case8 links place step rest hdirectory hhere hdots hlast hlink hthere =>
      cases h
      obtain rfl : rest = [] := List.isEmpty_iff.1 hlast
      have hend : t'.walk links (place ++ [step]) [] = some (place ++ [step]) := by rw [walk]
      rw [walk]
      simp [hdirectories place hdirectory, hhere, hdots, hfile, hend, Entry.isDirectory]
  | _ => cases h

/-- A file that was written is read back by the text that it was written by, and nothing else is
different. -/
theorem write?_spec {t' : FileTree} {text : String} {content : ByteArray}
    (h : t.write? text content = some t') :
    ∃ place, t'.find? text = some place ∧ t'.entry? place = some (.file content) ∧
      ChangesOnly (· = place) t t' := by
  unfold write? at h
  by_cases hempty : text.isEmpty = true
  · simp [hempty] at h
  · simp only [hempty] at h
    rcases Option.map_eq_some_iff.1 h with ⟨place, hplace, rfl⟩
    rcases writablePlace?_free _ _ _ hplace with ⟨hne, hfree⟩
    have hfile : entry? (t.put place (.file content)) place = some (.file content) := by
      rw [entry_put hne, if_pos rfl]
    refine ⟨place, ?_, hfile, put_changesOnly hne⟩
    have hdirectory : (t.put place (.file content)).workingDirectory = t.workingDirectory :=
      (put_changesOnly hne).workingDirectory
    simp only [find?, hempty, hdirectory]
    exact walk_of_writablePlace? (put_changesOnly hne) hfile hfree _ _ _ hplace

end FileTree
end WireTypes
