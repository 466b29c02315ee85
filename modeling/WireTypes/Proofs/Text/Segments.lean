import Mathlib.Data.String.Basic

/-!
# Segments — the parts of a text between separators

- `splitOn_singleton`: the text between separators of one character, as a list of characters is split;
- `splitOn_dot`: so dotted names are split;
- `splitOn_dot_append`, `exists_splitOn_dot`: one more name at the end, and a text for given names.
-/

namespace WireTypes
namespace Text

open String

section

variable (sep : Char)

theorem get_separator : Pos.Raw.get (ofList [sep]) 0 = sep := by
  simpa using get_of_valid [] [sep]

theorem next_separator : Pos.Raw.next (ofList [sep]) 0 = ⟨sep.utf8Size⟩ := by
  have hnext := next_of_valid [] sep []
  simpa using hnext

theorem atEnd_separator : Pos.Raw.atEnd (ofList [sep]) ⟨sep.utf8Size⟩ = true := by
  rw [atEnd_iff, rawEndPos_ofList, Pos.Raw.mk_le_mk]
  simp

/-- `l` was split before, and `m` is the text since then. -/
theorem splitOnAux_singleton (r l m : List Char) (found : List String) :
    (ofList (l ++ m ++ r)).splitOnAux (ofList [sep]) ⟨utf8Len l⟩ ⟨utf8Len l + utf8Len m⟩ 0 found =
      found.reverse ++ (List.splitOnPPrepend (· == sep) r m.reverse).map ofList := by
  induction r generalizing l m found with
  | nil =>
      have hend : Pos.Raw.atEnd (ofList (l ++ m ++ [])) ⟨utf8Len l + utf8Len m⟩ = true := by
        rw [atEnd_iff, rawEndPos_ofList, Pos.Raw.mk_le_mk, utf8Len_append, utf8Len_append]
        exact Nat.le_refl _
      rw [splitOnAux, if_pos hend, extract_of_valid l m []]
      simp
  | cons ch r ih =>
      have hend : ¬ Pos.Raw.atEnd (ofList (l ++ m ++ ch :: r)) ⟨utf8Len l + utf8Len m⟩ = true := by
        have hpos := Char.utf8Size_pos ch
        rw [atEnd_iff, rawEndPos_ofList, Pos.Raw.mk_le_mk, utf8Len_append, utf8Len_append, utf8Len_cons]
        omega
      have hget : Pos.Raw.get (ofList (l ++ m ++ ch :: r)) ⟨utf8Len l + utf8Len m⟩ = ch := by
        simpa [-ofList_append] using get_of_valid (l ++ m) (ch :: r)
      have hnext : Pos.Raw.next (ofList (l ++ m ++ ch :: r)) ⟨utf8Len l + utf8Len m⟩ =
          ⟨utf8Len l + utf8Len m + ch.utf8Size⟩ := by
        simpa [-ofList_append] using next_of_valid (l ++ m) ch r
      rw [splitOnAux, if_neg hend, hget, get_separator, List.splitOnPPrepend_cons_eq_if]
      by_cases h : ch = sep
      · subst h
        -- The text ends before the separator, and the next one starts behind it.
        have hback : Pos.Raw.unoffsetBy ⟨utf8Len l + utf8Len m + ch.utf8Size⟩ ⟨ch.utf8Size⟩ =
            ⟨utf8Len l + utf8Len m⟩ := by
          simp [Pos.Raw.unoffsetBy]
        have hrest := ih (l ++ m ++ [ch]) [] (ofList m :: found)
        simp only [beq_self_eq_true, if_true, hnext, next_separator, atEnd_separator, hback,
          extract_of_valid l m (ch :: r)]
        simpa [Nat.add_assoc] using hrest
      · have hne : (ch == sep) = false := by simpa using h
        have hback : Pos.Raw.unoffsetBy ⟨utf8Len l + utf8Len m⟩ 0 = ⟨utf8Len l + utf8Len m⟩ := rfl
        have hrest := ih l (m ++ [ch]) found
        simp only [hne, hback, hnext]
        simpa [Nat.add_assoc] using hrest

theorem splitOn_singleton (s : String) :
    s.splitOn (ofList [sep]) = (s.toList.splitOn sep).map ofList := by
  have hseparator : (ofList [sep] == "") = false := by
    refine beq_eq_false_iff_ne.2 fun hempty => ?_
    simpa using congrArg String.toList hempty
  have hrun := splitOnAux_singleton sep s.toList [] [] []
  simp only [List.nil_append, utf8Len_nil, List.reverse_nil, ofList_toList] at hrun
  simp only [splitOn, hseparator, List.splitOn, List.splitOnP]
  exact hrun

end

theorem splitOn_dot (s : String) : s.splitOn "." = (s.toList.splitOn '.').map ofList :=
  splitOn_singleton '.' s

theorem splitOn_slash (s : String) : s.splitOn "/" = (s.toList.splitOn '/').map ofList :=
  splitOn_singleton '/' s

/-! ## Dotted names -/

theorem not_mem_of_mem_splitOn {α : Type} [DecidableEq α] {sep : α} {l part : List α}
    (h : part ∈ l.splitOn sep) : sep ∉ part := by
  induction l generalizing part with
  | nil =>
      rw [List.splitOn_nil, List.mem_singleton] at h
      rw [h]
      exact List.not_mem_nil
  | cons x rest ih =>
      rw [List.splitOn_cons_eq_if_modifyHead] at h
      split at h
      · rcases List.mem_cons.1 h with rfl | h
        · exact List.not_mem_nil
        · exact ih h
      · next hx =>
          -- The part in front begins with the element, and the others are parts of the rest.
          rcases List.exists_cons_of_ne_nil (List.splitOn_ne_nil sep rest) with ⟨first, more, hparts⟩
          rw [hparts, List.modifyHead_cons] at h
          rw [hparts, List.forall_mem_cons] at ih
          rcases List.mem_cons.1 h with rfl | h
          · intro hmem
            rcases List.mem_cons.1 hmem with rfl | hmem
            · exact hx (beq_self_eq_true _)
            · exact ih.1 hmem
          · exact ih.2 part h

theorem splitOn_dot_ne_nil (s : String) : s.splitOn "." ≠ [] := by
  rw [splitOn_dot]
  exact List.map_eq_nil_iff.not.2 (List.splitOn_ne_nil _ _)

theorem splitOn_dot_of_not_mem {name : String} (h : '.' ∉ name.toList) : name.splitOn "." = [name] := by
  rw [splitOn_dot, List.splitOn_eq_singleton h, List.map_singleton, ofList_toList]

theorem splitOn_dot_append {name : String} (h : '.' ∉ name.toList) (s : String) :
    (s ++ "." ++ name).splitOn "." = s.splitOn "." ++ [name] := by
  have htext : (s ++ "." ++ name).toList = s.toList ++ '.' :: name.toList := by
    rw [toList_append, toList_append, List.append_assoc]
    rfl
  rw [splitOn_dot, splitOn_dot, htext, List.splitOn_append_cons_self, List.map_append,
    List.splitOn_eq_singleton h, List.map_singleton, ofList_toList]

/-- The first names of a dotted name are those of a text. -/
theorem exists_splitOn_dot {s : String} {front back : List String} (h : s.splitOn "." = front ++ back)
    (hfront : front ≠ []) : ∃ f : String, f.splitOn "." = front := by
  have hparts : ∀ part ∈ front.map toList, '.' ∉ part := by
    intro part hpart
    rcases List.mem_map.1 hpart with ⟨name, hname, rfl⟩
    have hmem : name ∈ s.splitOn "." := h ▸ List.mem_append_left back hname
    rw [splitOn_dot] at hmem
    rcases List.mem_map.1 hmem with ⟨chars, hchars, rfl⟩
    rw [toList_ofList]
    exact not_mem_of_mem_splitOn hchars
  refine ⟨ofList (['.'].intercalate (front.map toList)), ?_⟩
  rw [splitOn_dot, toList_ofList, List.splitOn_intercalate '.' hparts (by simpa using hfront),
    List.map_map]
  exact (List.map_congr_left fun name _ => ofList_toList).trans (List.map_id _)

end Text
end WireTypes
