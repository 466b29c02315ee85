import Mathlib
import WireTypes.Proofs.Text.Segments
import WireTypes.Python.Docstring

/-!
# Indentation — what is left of the lines of a documentation text

Cleaning a documentation text takes blanks away and nothing else, and it takes the same number of
characters from the front of all lines but the first one.

- `visible`: the characters of a text that are not blank;
- `Trimmed`, `Dedented`: what is left of the first line, and of the other ones;
- `cleanChars_eq`: the lines of a text, cleaned one for one, with empty ones dropped at both ends;
- `margin_isGreatest`: no more characters could be taken from all lines;
- `clean_keeps`: what cleaning makes of a text.
-/

namespace WireTypes

namespace Text

/-! ## Blanks at the end -/

/-- The characters that are not blank. -/
def visible (cs : List Char) : List Char := cs.filter (!isBlank ·)

theorem visible_append (cs ds : List Char) : visible (cs ++ ds) = visible cs ++ visible ds :=
  List.filter_append ..

theorem visible_of_blank {cs : List Char} (h : cs.all isBlank = true) : visible cs = [] := by
  rw [visible, List.filter_eq_nil_iff]
  intro c hc
  simp [List.all_eq_true.1 h c hc]

theorem trimRight_concat {c : Char} (h : isBlank c = true) (cs : List Char) :
    trimRight (cs ++ [c]) = trimRight cs := List.rdropWhile_concat_pos isBlank cs c h

theorem trimRight_of_blank {cs : List Char} (h : cs.all isBlank = true) : trimRight cs = [] :=
  List.rdropWhile_eq_nil_iff.2 (List.all_eq_true.1 h)

/-- Only blanks are taken away, and all that are at the end. -/
theorem exists_trimRight (cs : List Char) :
    ∃ back, cs = trimRight cs ++ back ∧ back.all isBlank = true ∧
      ∀ c ∈ (trimRight cs).getLast?, isBlank c = false := by
  refine ⟨cs.rtakeWhile isBlank, List.rdropWhile_append_rtakeWhile.symm, ?_, ?_⟩
  · refine List.all_eq_true.2 fun c hc => ?_
    rw [List.rtakeWhile, List.mem_reverse] at hc
    exact List.mem_takeWhile_imp hc
  · intro c hc
    have hne : trimRight cs ≠ [] := by
      intro hnil
      rw [hnil] at hc
      cases hc
    have hlast := List.rdropWhile_last_not isBlank cs hne
    rw [List.getLast?_eq_some_getLast hne] at hc
    cases hc
    exact Bool.eq_false_iff.2 hlast

theorem trimRight_append_blank (cs : List Char) {back : List Char} (h : back.all isBlank = true) :
    trimRight (cs ++ back) = trimRight cs := by
  induction back using List.reverseRecOn with
  | nil => rw [List.append_nil]
  | append_singleton rest c ih =>
      rw [List.all_append, Bool.and_eq_true] at h
      rw [← List.append_assoc, trimRight_concat (by simpa using h.2), ih h.1]

/-! ## Line ends -/

theorem dropReturn_cases (line : List Char) :
    dropReturn line = line ∨ line = dropReturn line ++ ['\r'] := by
  unfold dropReturn
  split
  · next h => exact Or.inr (List.dropLast_append_getLast? '\r' h).symm
  · exact Or.inl rfl

theorem splitLines_eq_splitOn (cs : List Char) : splitLines cs = cs.splitOn '\n' := by
  induction cs with
  | nil => rfl
  | cons c rest ih =>
      rw [List.splitOn_cons_eq_if_modifyHead, splitLines, ih]
      split
      · rfl
      · rcases List.exists_cons_of_ne_nil (List.splitOn_ne_nil '\n' rest) with ⟨line, more, h⟩
        rw [h]
        rfl

theorem linesOf_cons_cons (line next : List Char) (rest : List (List Char)) :
    linesOf (line :: next :: rest) = dropReturn line :: linesOf (next :: rest) := by
  rw [linesOf]
  exact List.cons_ne_nil _ _

/-- What is left of lines is the same for the pieces between line feeds, up to an empty one at the end. -/
theorem map_linesOf {f : List Char → List Char} (hreturn : ∀ line, f (dropReturn line) = f line)
    (hnil : f [] = []) : ∀ pieces : List (List Char),
      pieces.map f = (linesOf pieces).map f ∨ pieces.map f = (linesOf pieces).map f ++ [[]]
  | [] => Or.inl rfl
  | [last] => by
      cases last with
      | nil => exact Or.inr (by simp [linesOf, hnil])
      | cons c rest => exact Or.inl rfl
  | line :: next :: rest => by
      have hfirst : (linesOf (line :: next :: rest)).map f =
          f line :: (linesOf (next :: rest)).map f := by
        rw [linesOf_cons_cons, List.map_cons, hreturn]
      rw [hfirst]
      exact (map_linesOf hreturn hnil (next :: rest)).imp (congrArg (f line :: ·))
        (congrArg (f line :: ·))

end Text

namespace Python
namespace Docstring

open Text

/-! ## Lines -/

/-- A line without blanks at both ends. -/
def Trimmed (line cleaned : List Char) : Prop :=
  ∃ front back, line = front ++ cleaned ++ back ∧ isBlankLine front = true ∧ isBlankLine back = true ∧
    (∀ c ∈ cleaned.head?, isBlank c = false) ∧ ∀ c ∈ cleaned.getLast?, isBlank c = false

/-- A line without its first `m` characters, all of them blank, and without blanks at its end; nothing is
left of a blank line. -/
def Dedented (m : Nat) (line cleaned : List Char) : Prop :=
  if isBlankLine line then cleaned = []
  else ∃ indent back, line = indent ++ cleaned ++ back ∧ indent.length = m ∧
    isBlankLine indent = true ∧ isBlankLine back = true ∧ ∀ c ∈ cleaned.getLast?, isBlank c = false

/-- The first `n` characters of a line are there, and they are blank. -/
def Indented (n : Nat) (line : List Char) : Prop := n ≤ line.length ∧ isBlankLine (line.take n) = true

/-- Neither the first line nor the last one is blank. -/
def NoBlankEnds (lines : List (List Char)) : Prop :=
  (∀ line ∈ lines.head?, isBlankLine line = false) ∧ ∀ line ∈ lines.getLast?, isBlankLine line = false

/-- What is left of a line behind the first one. -/
def dedent (m : Nat) (line : List Char) : List Char := trimRight (dropIndent m line)

section

variable {m n : Nat} {line : List Char}

theorem isBlankLine_append (cs ds : List Char) :
    isBlankLine (cs ++ ds) = (isBlankLine cs && isBlankLine ds) := List.all_append

theorem trimLeft_append_blank (cs : List Char) {back : List Char} (h : isBlankLine back = true) :
    trimLeft (cs ++ back) = trimLeft cs ++ back ∨ trimLeft (cs ++ back) = [] ∧ trimLeft cs = [] := by
  unfold trimLeft
  rw [List.dropWhile_append]
  split
  · next hempty =>
      refine Or.inr ⟨?_, List.isEmpty_iff.1 hempty⟩
      exact List.dropWhile_eq_nil_iff.2 (List.all_eq_true.1 h)
  · exact Or.inl rfl

theorem trim_dropReturn (line : List Char) : trim (dropReturn line) = trim line := by
  rcases dropReturn_cases line with h | h
  · rw [h]
  · have hblank : isBlankLine ['\r'] = true := by decide
    conv_rhs => rw [h]
    unfold trim
    rcases trimLeft_append_blank (dropReturn line) hblank with hleft | ⟨hleft, hnil⟩
    · rw [hleft, trimRight_append_blank _ hblank]
    · rw [hleft, hnil]

theorem trimmed_trim (line : List Char) : Trimmed line (trim line) := by
  rcases exists_trimRight (trimLeft line) with ⟨back, hsplit, hback, hlast⟩
  refine ⟨line.takeWhile isBlank, back, ?_, ?_, hback, ?_, hlast⟩
  · rw [List.append_assoc]
    exact (List.takeWhile_append_dropWhile (p := isBlank) (l := line)).symm.trans
      (congrArg (line.takeWhile isBlank ++ ·) hsplit)
  · exact List.all_eq_true.2 fun c hc => List.mem_takeWhile_imp hc
  · -- The first character that is left is the first one that is not blank.
    intro c hc
    have hfirst : (trimLeft line).head? = some c := by
      change (trim line).head? = some c at hc
      rw [hsplit]
      change ((trim line) ++ back).head? = some c
      rw [List.head?_append, hc]
      rfl
    have hnot := List.head?_dropWhile_not isBlank line
    rw [show (line.dropWhile isBlank).head? = some c from hfirst] at hnot
    simpa using hnot

theorem dropIndent_of_le (h : n ≤ indentation line) :
    dropIndent n line = line.drop n ∧ Indented n line := by
  induction n generalizing line with
  | zero => exact ⟨rfl, Nat.zero_le _, rfl⟩
  | succ n ih =>
      cases line with
      | nil => simp [indentation] at h
      | cons c rest =>
          have hc : isBlank c = true := by
            by_contra hc
            simp [indentation, hc] at h
          have hrest : n ≤ indentation rest := by
            simpa [indentation, hc] using h
          rcases ih hrest with ⟨hdrop, hlength, hblank⟩
          refine ⟨?_, Nat.succ_le_succ hlength, ?_⟩
          · rw [dropIndent, if_pos hc, hdrop, List.drop_succ_cons]
          · simp [isBlankLine, hc]
            simpa [isBlankLine] using hblank

/-- Only blanks are dropped. -/
theorem exists_dropIndent (n : Nat) (line : List Char) :
    ∃ indent, line = indent ++ dropIndent n line ∧ isBlankLine indent = true := by
  induction n generalizing line with
  | zero => exact ⟨[], rfl, rfl⟩
  | succ n ih =>
      cases line with
      | nil => exact ⟨[], rfl, rfl⟩
      | cons c rest =>
          by_cases hc : isBlank c = true
          · rcases ih rest with ⟨indent, hsplit, hblank⟩
            refine ⟨c :: indent, ?_, ?_⟩
            · rw [dropIndent, if_pos hc, List.cons_append, ← hsplit]
            · simpa [isBlankLine, hc] using hblank
          · exact ⟨[], by rw [dropIndent, if_neg hc]; rfl, rfl⟩

/-- Blanks at the end of a line do not matter. -/
theorem dedent_append_blank (m : Nat) (line : List Char) {back : List Char}
    (h : isBlankLine back = true) : dedent m (line ++ back) = dedent m line := by
  unfold dedent
  induction m generalizing line with
  | zero => exact trimRight_append_blank line h
  | succ m ih =>
      cases line with
      | nil =>
          -- Nothing is left of blanks.
          rcases exists_dropIndent (m + 1) back with ⟨indent, hsplit, _⟩
          rw [hsplit, isBlankLine_append, Bool.and_eq_true] at h
          exact trimRight_of_blank h.2
      | cons c rest =>
          by_cases hc : isBlank c = true
          · simpa only [List.cons_append, dropIndent, hc, if_true] using ih rest
          · rw [List.cons_append, dropIndent, if_neg hc, dropIndent, if_neg hc]
            exact trimRight_append_blank (c :: rest) h

theorem dedent_dropReturn (m : Nat) (line : List Char) :
    dedent m (dropReturn line) = dedent m line := by
  rcases dropReturn_cases line with h | h
  · rw [h]
  · conv_rhs => rw [h, dedent_append_blank m _ (by decide)]

theorem dedent_nil (m : Nat) : dedent m [] = [] := by cases m <;> rfl

/-- A line that is indented by `m` loses just these characters, and blanks at its end. -/
theorem dedented_dedent (h : isBlankLine line = false → m ≤ indentation line) :
    Dedented m line (dedent m line) := by
  unfold Dedented
  split
  · next hblank =>
      rcases exists_dropIndent m line with ⟨indent, hsplit, _⟩
      rw [hsplit, isBlankLine_append, Bool.and_eq_true] at hblank
      exact trimRight_of_blank hblank.2
  · next hblank =>
      rcases dropIndent_of_le (h (by simpa using hblank)) with ⟨hdrop, hlength, hindent⟩
      rcases exists_trimRight (line.drop m) with ⟨back, hsplit, hback, hlast⟩
      refine ⟨line.take m, back, ?_, by simpa using hlength, hindent, hback, ?_⟩
      · rw [dedent, hdrop, List.append_assoc, ← hsplit, List.take_append_drop]
      · rw [dedent, hdrop]
        exact hlast

/-! ## The margin -/

/-- The indentations of the lines that are not blank. -/
def indentations (lines : List (List Char)) : List Nat :=
  (lines.filter (!isBlankLine ·)).map indentation

theorem indentations_cons (line : List Char) (lines : List (List Char)) :
    indentations (line :: lines) =
      (if isBlankLine line then [] else [indentation line]) ++ indentations lines := by
  unfold indentations
  cases h : isBlankLine line <;> simp [h]

theorem indentations_dropReturn (line : List Char) (lines : List (List Char)) :
    indentations (dropReturn line :: lines) = indentations (line :: lines) := by
  rcases dropReturn_cases line with h | h
  · rw [h]
  · have hreturn : isBlankLine ['\r'] = true := by decide
    have hsame : isBlankLine line = isBlankLine (dropReturn line) := by
      conv_lhs => rw [h, isBlankLine_append, hreturn, Bool.and_true]
    rw [indentations_cons, indentations_cons, hsame]
    split
    · rfl
    · next hblank =>
        -- The indentation ends before the end of the line.
        have hinner : ((dropReturn line).takeWhile isBlank).length ≠ (dropReturn line).length := by
          intro hlength
          refine hblank (List.all_eq_true.2 fun c hc => ?_)
          rw [← (List.takeWhile_prefix isBlank).eq_of_length hlength] at hc
          exact List.mem_takeWhile_imp hc
        have hindent : indentation line = indentation (dropReturn line) := by
          conv_lhs => rw [h]
          unfold indentation
          rw [List.takeWhile_append, if_neg hinner]
        rw [hindent]

theorem indentations_linesOf : ∀ pieces : List (List Char),
    indentations (linesOf pieces) = indentations pieces
  | [] => rfl
  | [last] => by cases last <;> rfl
  | line :: next :: rest => by
      rw [linesOf_cons_cons, indentations_dropReturn, indentations_cons,
        indentations_linesOf (next :: rest), ← indentations_cons]

theorem margin_linesOf (pieces : List (List Char)) : margin (linesOf pieces) = margin pieces := by
  show ((indentations (linesOf pieces)).min?).getD 0 = ((indentations pieces).min?).getD 0
  rw [indentations_linesOf]

theorem margin_isLeast {lines : List (List Char)} (hline : line ∈ lines)
    (hblank : isBlankLine line = false) : IsLeast {n | n ∈ indentations lines} (margin lines) := by
  have hmem : indentation line ∈ indentations lines :=
    List.mem_map_of_mem (List.mem_filter.2 ⟨hline, by simp [hblank]⟩)
  have hmin : (indentations lines).min? = some (margin lines) := by
    show _ = some (((indentations lines).min?).getD 0)
    cases hnone : (indentations lines).min? with
    | some n => rfl
    | none =>
        rw [List.min?_eq_none_iff.1 hnone] at hmem
        cases hmem
  exact List.min?_eq_some_iff.1 hmin

theorem margin_le {lines : List (List Char)} (hline : line ∈ lines)
    (hblank : isBlankLine line = false) : margin lines ≤ indentation line :=
  (margin_isLeast hline hblank).2
    (List.mem_map_of_mem (List.mem_filter.2 ⟨hline, by simp [hblank]⟩))

/-- The margin is the greatest number of characters that can be taken from all lines. -/
theorem margin_isGreatest {lines : List (List Char)}
    (h : ∃ line ∈ lines, isBlankLine line = false) :
    IsGreatest {n | ∀ line ∈ lines, isBlankLine line = false → Indented n line} (margin lines) := by
  constructor
  · exact fun line hline hblank => (dropIndent_of_le (margin_le hline hblank)).2
  · intro n hn
    rcases h with ⟨line, hline, hblank⟩
    -- The line with the least indentation has no more blanks in front.
    rcases List.mem_map.1 (margin_isLeast hline hblank).1 with ⟨least, hleast, hindent⟩
    rcases List.mem_filter.1 hleast with ⟨hmem, hfull⟩
    rcases hn least hmem (by simpa using hfull) with ⟨hlength, htake⟩
    rw [← hindent, indentation]
    have hfront : least.take n <+: least.takeWhile isBlank := by
      conv_rhs => rw [← List.take_append_drop n least]
      rw [List.takeWhile_append_of_pos (List.all_eq_true.1 htake)]
      exact List.prefix_append _ _
    simpa [Nat.min_eq_left hlength] using hfront.length_le

end

/-! ## Empty lines at both ends -/

section

variable {lines : List (List Char)}

theorem exists_dropEmptyEnds (lines : List (List Char)) :
    ∃ front back, lines = front ++ dropEmptyEnds lines ++ back ∧
      (∀ line ∈ front ++ back, line = []) ∧
      (∀ line ∈ (dropEmptyEnds lines).head?, line ≠ []) ∧
      ∀ line ∈ (dropEmptyEnds lines).getLast?, line ≠ [] := by
  have hfront := List.takeWhile_append_dropWhile (p := List.isEmpty) (l := lines)
  have hback := List.rdropWhile_append_rtakeWhile (p := List.isEmpty) (l := lines.dropWhile List.isEmpty)
  refine ⟨lines.takeWhile List.isEmpty, (lines.dropWhile List.isEmpty).rtakeWhile List.isEmpty,
    ?_, ?_, ?_, ?_⟩
  · rw [List.append_assoc]
    exact hfront.symm.trans (congrArg (lines.takeWhile List.isEmpty ++ ·) hback.symm)
  · intro line hline
    rcases List.mem_append.1 hline with hline | hline
    · exact List.isEmpty_iff.1 (List.mem_takeWhile_imp hline)
    · rw [List.rtakeWhile, List.mem_reverse] at hline
      exact List.isEmpty_iff.1 (List.mem_takeWhile_imp hline)
  · intro line hline
    -- What is left begins where the empty lines in front end.
    have hfirst : (lines.dropWhile List.isEmpty).head? = some line := by
      rw [← hback, List.head?_append]
      change (dropEmptyEnds lines).head? = some line at hline
      change (dropEmptyEnds lines).head?.or _ = some line
      rw [hline]
      rfl
    have hnot := List.head?_dropWhile_not List.isEmpty lines
    rw [hfirst] at hnot
    intro hnil
    simp [hnil] at hnot
  · intro line hline
    have hne : dropEmptyEnds lines ≠ [] := by
      intro hnil
      rw [hnil] at hline
      cases hline
    have hlast := List.rdropWhile_last_not List.isEmpty (lines.dropWhile List.isEmpty) hne
    rw [List.getLast?_eq_some_getLast hne] at hline
    cases hline
    intro hnil
    exact hlast (List.isEmpty_iff.2 hnil)

theorem dropEmptyEnds_concat_nil (lines : List (List Char)) :
    dropEmptyEnds (lines ++ [[]]) = dropEmptyEnds lines := by
  show ((lines ++ [[]]).dropWhile List.isEmpty).rdropWhile List.isEmpty =
    (lines.dropWhile List.isEmpty).rdropWhile List.isEmpty
  rw [List.dropWhile_append]
  split
  · next hempty =>
      rw [List.isEmpty_iff.1 hempty]
      rfl
  · exact List.rdropWhile_concat_pos _ _ _ rfl

/-! ## Cleaning -/

/-- The lines of a text, cleaned one for one. -/
def cleanEach (first : List Char) (rest : List (List Char)) : List (List Char) :=
  trim first :: rest.map (dedent (margin rest))

theorem cleanChars_eq {cs first : List Char} {rest : List (List Char)}
    (h : cs.splitOn '\n' = first :: rest) :
    cleanChars cs = ['\n'].intercalate (dropEmptyEnds (cleanEach first rest)) := by
  have hlines : lines cs = linesOf (first :: rest) := by rw [Text.lines, splitLines_eq_splitOn, h]
  rw [cleanChars, hlines, cleanEach]
  cases rest with
  | nil => cases first <;> rfl
  | cons next more =>
      have hclean : cleanLines (dropReturn first :: linesOf (next :: more)) =
          dropEmptyEnds (trim (dropReturn first) ::
            (linesOf (next :: more)).map (dedent (margin (linesOf (next :: more))))) := rfl
      rw [linesOf_cons_cons, hclean, trim_dropReturn, margin_linesOf]
      -- An empty line at the end makes no difference.
      rcases map_linesOf (dedent_dropReturn (margin (next :: more))) (dedent_nil _) (next :: more) with
        hsame | hmore
      · rw [hsame]
      · rw [hmore, ← List.cons_append, dropEmptyEnds_concat_nil]

theorem visible_intercalate (lines : List (List Char)) :
    visible (['\n'].intercalate lines) = lines.flatMap visible := by
  induction lines with
  | nil => rfl
  | cons line rest ih =>
      cases rest with
      | nil => simp [List.intercalate]
      | cons next more =>
          have hfeed : visible ['\n'] = [] := visible_of_blank (by decide)
          rw [List.intercalate_cons_cons, visible_append, visible_append, ih, hfeed, List.append_nil]
          exact (List.flatMap_cons ..).symm

theorem visible_of_trimmed {line cleaned : List Char} (h : Trimmed line cleaned) :
    visible cleaned = visible line := by
  rcases h with ⟨front, back, rfl, hfront, hback, _⟩
  rw [visible_append, visible_append, visible_of_blank hfront, visible_of_blank hback,
    List.nil_append, List.append_nil]

theorem visible_of_dedented {m : Nat} {line cleaned : List Char} (h : Dedented m line cleaned) :
    visible cleaned = visible line := by
  unfold Dedented at h
  split at h
  · next hblank => rw [h, visible_of_blank hblank]; rfl
  · rcases h with ⟨indent, back, rfl, _, hindent, hback, _⟩
    rw [visible_append, visible_append, visible_of_blank hindent, visible_of_blank hback,
      List.nil_append, List.append_nil]

theorem dedented_cleanEach (rest : List (List Char)) :
    List.Forall₂ (Dedented (margin rest)) rest (rest.map (dedent (margin rest))) := by
  rw [List.forall₂_map_right_iff, List.forall₂_same]
  exact fun line hline => dedented_dedent fun hblank => margin_le hline hblank

/-- No line loses a character that is not blank. -/
theorem visible_cleanEach (first : List Char) (rest : List (List Char)) :
    (cleanEach first rest).flatMap visible = (first :: rest).flatMap visible := by
  rw [cleanEach, List.flatMap_cons, List.flatMap_cons, List.flatMap_map,
    visible_of_trimmed (trimmed_trim first)]
  refine congrArg (visible first ++ ·) (List.flatMap_congr fun line hline => ?_)
  exact visible_of_dedented (dedented_dedent fun hblank => margin_le hline hblank)

theorem visible_of_empty {lines : List (List Char)} (h : ∀ line ∈ lines, line = []) :
    lines.flatMap visible = [] := by
  refine List.flatMap_eq_nil_iff.2 fun line hline => ?_
  rw [h line hline]
  rfl

/-- A cleaned line is blank only if nothing is left of it. -/
theorem blank_cleanEach {first : List Char} {rest : List (List Char)} {line : List Char}
    (hline : line ∈ cleanEach first rest) (hne : line ≠ []) : isBlankLine line = false := by
  have hlast : ∃ c, line.getLast? = some c ∧ isBlank c = false := by
    have hc := List.getLast?_eq_some_getLast hne
    refine ⟨_, hc, ?_⟩
    rcases List.mem_cons.1 hline with rfl | hline
    · rcases exists_trimRight (trimLeft first) with ⟨_, _, _, hlast⟩
      exact hlast _ hc
    · rcases List.mem_map.1 hline with ⟨original, _, rfl⟩
      rcases exists_trimRight (dropIndent (margin rest) original) with ⟨_, _, _, hlast⟩
      exact hlast _ hc
  rcases hlast with ⟨c, hc, hblank⟩
  refine Bool.eq_false_iff.2 fun hall => ?_
  rw [List.all_eq_true.1 hall c (List.mem_of_getLast? hc)] at hblank
  cases hblank

theorem newline_not_mem {cs first line : List Char} {rest : List (List Char)}
    (h : cs.splitOn '\n' = first :: rest) (hline : line ∈ cleanEach first rest) : '\n' ∉ line := by
  have hpiece : ∀ piece ∈ first :: rest, '\n' ∉ piece := fun piece hpiece =>
    not_mem_of_mem_splitOn (h ▸ hpiece)
  rcases List.mem_cons.1 hline with rfl | hline
  · rcases trimmed_trim first with ⟨front, back, hsplit, _⟩
    refine fun hmem => hpiece first List.mem_cons_self ?_
    rw [hsplit]
    exact List.mem_append_left _ (List.mem_append_right _ hmem)
  · rcases List.mem_map.1 hline with ⟨original, horiginal, rfl⟩
    rcases exists_dropIndent (margin rest) original with ⟨indent, hindent, _⟩
    rcases exists_trimRight (dropIndent (margin rest) original) with ⟨back, hback, _⟩
    refine fun hmem => hpiece original (List.mem_cons_of_mem _ horiginal) ?_
    rw [hindent, hback]
    exact List.mem_append_right _ (List.mem_append_left _ hmem)

end

/-- Cleaning keeps all characters that are not blank, and the lines from the first to the last one that is
not blank. The first line is trimmed, and all others lose the same number of blanks in front, as many as
all of them have that are not blank. -/
theorem clean_keeps (text : String) :
    visible (clean text).toList = visible text.toList ∧
      ((clean text).toList = [] ∨ NoBlankEnds ((clean text).toList.splitOn '\n')) ∧
      ∃ m first rest first' rest' front kept back,
        text.toList.splitOn '\n' = first :: rest ∧
        Trimmed first first' ∧ List.Forall₂ (Dedented m) rest rest' ∧
        ((∃ line ∈ rest, isBlankLine line = false) →
          IsGreatest {n | ∀ line ∈ rest, isBlankLine line = false → Indented n line} m) ∧
        first' :: rest' = front ++ kept ++ back ∧ (∀ line ∈ front ++ back, line = []) ∧
        (clean text).toList = ['\n'].intercalate kept ∧
        (kept ≠ [] → (clean text).toList.splitOn '\n' = kept) := by
  rcases List.exists_cons_of_ne_nil (List.splitOn_ne_nil '\n' text.toList) with ⟨first, rest, hlines⟩
  rcases exists_dropEmptyEnds (cleanEach first rest) with ⟨front, back, hsplit, hempty, hhead, hlast⟩
  have hclean : (clean text).toList = ['\n'].intercalate (dropEmptyEnds (cleanEach first rest)) := by
    rw [clean, String.toList_ofList, cleanChars_eq hlines]
  generalize dropEmptyEnds (cleanEach first rest) = kept at hsplit hhead hlast hclean
  have hkept : ∀ line ∈ kept, line ∈ cleanEach first rest := by
    intro line hline
    rw [hsplit]
    exact List.mem_append_left _ (List.mem_append_right _ hline)
  have hback : kept ≠ [] → (clean text).toList.splitOn '\n' = kept := by
    intro hne
    rw [hclean]
    exact List.splitOn_intercalate '\n' (fun line hline => newline_not_mem hlines (hkept line hline)) hne
  refine ⟨?_, ?_, margin rest, first, rest, trim first, rest.map (dedent (margin rest)), front, kept,
    back, hlines, trimmed_trim first, dedented_cleanEach rest, margin_isGreatest, hsplit, hempty, hclean,
    hback⟩
  · calc
      visible (clean text).toList = kept.flatMap visible := by rw [hclean, visible_intercalate]
      _ = (cleanEach first rest).flatMap visible := by
          rw [hsplit, List.flatMap_append, List.flatMap_append,
            visible_of_empty fun line hline => hempty line (List.mem_append_left _ hline),
            visible_of_empty fun line hline => hempty line (List.mem_append_right _ hline),
            List.nil_append, List.append_nil]
      _ = (first :: rest).flatMap visible := visible_cleanEach first rest
      _ = visible text.toList := by
          rw [← visible_intercalate, ← hlines, List.intercalate_splitOn]
  · by_cases hne : kept = []
    · exact Or.inl (by rw [hclean, hne]; rfl)
    · rw [hback hne]
      refine Or.inr ⟨fun line hline => ?_, fun line hline => ?_⟩
      · exact blank_cleanEach (hkept line (List.mem_of_head? hline)) (hhead line hline)
      · exact blank_cleanEach (hkept line (List.mem_of_getLast? hline)) (hlast line hline)

end Docstring
end Python
end WireTypes
