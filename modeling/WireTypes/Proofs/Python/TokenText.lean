import Mathlib
import WireTypes.Python.Literal
import WireTypes.Python.Token

/-!
# Token text — how much of a text its tokens and strings take

A token is what stands between two places of a text, and the tokens follow each other. What a string
token writes is shorter than the token, which has quotation marks around it.

- `shortens_skip`: the scanners of strings leave no more than they are given;
- `length_next_le`: what follows a token is no longer than what was there before;
- `sum_length_tokens_le`: so all tokens together are no longer than the text;
- `length_decodeStrings?`: what strings write is shorter by two characters for each of them.
-/

namespace WireTypes
namespace Python

/-! ## Strings -/

section

variable {cs out : List Char}

theorem length_codePointText_le (digits : List Char) : (codePointText digits).length ≤ digits.length := by
  unfold codePointText
  split
  · rename_i c hcode
    -- No digits are no code point.
    cases digits with
    | nil => cases hcode
    | cons d rest => simp
  · exact Nat.le_refl _

theorem length_unescape_le (cs : List Char) : (unescape cs).length ≤ cs.length := by
  fun_induction unescape cs with
  | case1 => exact Nat.le_refl _
  | case2 => exact Nat.le_refl _
  | case3 rest ih => simp only [List.length_cons]; omega
  | case4 c rest _ d _ ih => simp only [List.length_cons]; omega
  | case5 c rest _ width _ _ ih =>
      have hdigits := length_codePointText_le (rest.take width)
      simp only [List.length_append, List.length_cons, List.length_take, List.length_drop] at *
      omega
  | case6 c rest _ _ _ ih => simp only [List.length_cons]; omega
  | case7 c rest _ _ _ ih => simp only [List.length_cons]; omega

theorem length_unquote? {mark : List Char} (h : unquote? mark cs = some out) :
    out.length + 2 * mark.length ≤ cs.length := by
  unfold unquote? at h
  split at h
  · next hbody =>
      cases h
      simp only [List.length_take, List.length_drop]
      omega
  · cases h

/-- What a string writes stands between quotation marks. -/
theorem length_decodeChars? (h : decodeChars? cs = some out) : out.length + 2 ≤ cs.length := by
  have hbody : (cs.dropWhile (!isQuote ·)).length ≤ cs.length := (List.dropWhile_suffix _).length_le
  unfold decodeChars? at h
  simp only at h
  split at h
  · cases h
  · split at h
    · cases h
    · split at h
      · next inner hquoted =>
          rcases List.exists_of_findSome?_eq_some hquoted with ⟨mark, hmark, hunquote⟩
          have hlength := length_unquote? hunquote
          have hpositive : 1 ≤ mark.length := by
            simp only [quotationMarks, List.mem_cons, List.not_mem_nil, or_false] at hmark
            rcases hmark with rfl | rfl | rfl | rfl <;> decide
          have hunescape := length_unescape_le inner
          cases h
          split <;> omega
      · cases h

theorem length_decodeString? {token s : String} (h : decodeString? token = some s) :
    s.length + 2 ≤ token.length := by
  rcases Option.map_eq_some_iff.1 h with ⟨chars, hchars, rfl⟩
  rw [String.length_ofList, ← String.length_toList (s := token)]
  exact length_decodeChars? hchars

theorem length_decodeStrings? {tokens : List String} {s : String}
    (h : decodeStrings? tokens = some s) :
    s.length + 2 * tokens.length ≤ (tokens.map String.length).sum := by
  rcases Option.map_eq_some_iff.1 h with ⟨texts, htexts, rfl⟩
  clear h
  induction tokens generalizing texts with
  | nil =>
      cases htexts
      simp
  | cons token rest ih =>
      rw [List.mapM_cons] at htexts
      rcases Option.bind_eq_some_iff.1 htexts with ⟨first, hfirst, htexts⟩
      rcases Option.bind_eq_some_iff.1 htexts with ⟨others, hothers, heq⟩
      cases heq
      have hone := length_decodeString? hfirst
      have hrest := ih _ hothers
      simp only [String.join_cons, String.length_append, List.map_cons, List.sum_cons,
        List.length_cons]
      omega

end

/-! ## Tokens -/

namespace Token

section

variable {cs rest : List Char}

theorem length_openString? {form : StringForm} (h : openString? cs = some (form, rest)) :
    rest.length < cs.length := by
  have hflags : (cs.dropWhile isStringFlag).length ≤ cs.length :=
    (List.dropWhile_suffix _).length_le
  unfold openString? at h
  simp only at h
  split at h
  · cases h
  · next q after hafter =>
      rw [hafter, List.length_cons] at hflags
      split at h
      · split at h
        · next a b more =>
            simp only [List.length_cons] at hflags
            split at h
            · cases h
              omega
            · cases h
              simp only [List.length_cons]
              omega
        · cases h
          omega
      · cases h

theorem length_afterEscape_le (cs : List Char) : (afterEscape cs).length ≤ cs.length := by
  unfold afterEscape
  split
  · simp only [List.length_cons]; omega
  · next rest =>
      have hname : (rest.dropWhile (· != '}')).length ≤ rest.length :=
        (List.dropWhile_suffix _).length_le
      dsimp only
      split
      · next more hmore =>
          rw [hmore, List.length_cons] at hname
          split
          · simp
          · simp only [List.length_cons]; omega
      · simp
  · split <;> simp
  · exact Nat.le_refl _

theorem length_afterRawEscape_le (quote : Char) (cs : List Char) :
    (afterRawEscape quote cs).length ≤ cs.length := by
  unfold afterRawEscape
  cases cs with
  | nil => exact Nat.le_refl _
  | cons c rest =>
      dsimp only
      -- A quotation mark or another backslash is passed over first.
      have hafter : (if c == quote || c == '\\' then rest else c :: rest).length ≤ (c :: rest).length := by
        split
        · exact Nat.le_succ _
        · exact Nat.le_refl _
      generalize (if c == quote || c == '\\' then rest else c :: rest) = line at hafter ⊢
      split
      · simp only [List.length_cons] at hafter ⊢
        omega
      · rw [List.length_cons] at hafter
        exact Nat.le_of_succ_le hafter
      · rw [List.length_cons] at hafter
        exact Nat.le_of_succ_le hafter
      · exact hafter

theorem length_closeString? {form : StringForm} (h : closeString? form cs = some rest) :
    rest.length ≤ cs.length := by
  unfold closeString? at h
  split at h
  · split at h
    · split at h
      · split at h
        · split at h
          · cases h
            simp only [List.length_cons]
            omega
          · cases h
        · cases h
      · cases h
        simp
    · cases h
  · cases h

/-- What a scanner leaves is no longer than what it is given. -/
def Shortens (scan : List Char → Option (List Char)) : Prop :=
  ∀ {cs rest : List Char}, scan cs = some rest → rest.length ≤ cs.length

section

variable {fuel : Nat} (hstring : ∀ form fresh, Shortens (skipString form fuel fresh))
  (hfield : ∀ depth blank, Shortens (skipField fuel depth blank)) (hformat : Shortens (skipFormat fuel))

include hstring hfield

theorem shortens_skipString (form : StringForm) (fresh : Bool) :
    Shortens (skipString form (fuel + 1) fresh) := by
  intro cs rest h
  simp only [skipString] at h
  split at h
  · next hclose =>
      cases h
      exact length_closeString? hclose
  · split at h
    · cases h
    · next more _ =>
        split at h
        · have hraw := length_afterRawEscape_le form.quote more
          exact ((hstring _ _ h).trans hraw).trans (Nat.le_succ _)
        · have hplain := length_afterEscape_le more
          exact ((hstring _ _ h).trans hplain).trans (Nat.le_succ _)
    · split at h
      · exact (hstring _ _ h).trans (Nat.le_add_right _ 2)
      · exact (hstring _ _ h).trans (Nat.le_succ _)
    -- A replacement field is passed over before the rest of the string.
    · split at h
      · split at h
        · next hopen => exact ((hstring _ _ h).trans (hfield _ _ hopen)).trans (Nat.le_succ _)
        · cases h
      · exact (hstring _ _ h).trans (Nat.le_succ _)
    · split at h
      · exact (hstring _ _ h).trans (Nat.le_add_right _ 2)
      · exact (hstring _ _ h).trans (Nat.le_succ _)
    · split at h
      · cases h
      · exact (hstring _ _ h).trans (Nat.le_succ _)
    · split at h
      · cases h
      · exact (hstring _ _ h).trans (Nat.le_succ _)

include hformat

theorem shortens_skipField (depth : Nat) (blank : Bool) :
    Shortens (skipField (fuel + 1) depth blank) := by
  intro cs rest h
  simp only [skipField] at h
  split at h
  · next hopen =>
      have hbody := length_openString? hopen
      split at h
      · next hskip => exact ((hfield _ _ h).trans (hstring _ _ hskip)).trans hbody.le
      · cases h
  · split at h
    · cases h
    · split at h
      · exact (hfield _ _ h).trans (Nat.le_succ _)
      -- A closing brace ends the field where no bracket is open.
      · split at h
        · split at h
          · cases h
          · cases h
            exact Nat.le_succ _
        · split at h
          · split at h
            · cases h
            · exact (hfield _ _ h).trans (Nat.le_succ _)
          · split at h
            · split at h
              · cases h
              · exact (hformat h).trans (Nat.le_succ _)
            · exact (hfield _ _ h).trans (Nat.le_succ _)

omit hstring

theorem shortens_skipFormat : Shortens (skipFormat (fuel + 1)) := by
  intro cs rest h
  simp only [skipFormat] at h
  split at h
  · cases h
  · cases h
    exact Nat.le_succ _
  · split at h
    · next hopen => exact ((hformat h).trans (hfield _ _ hopen)).trans (Nat.le_succ _)
    · cases h
  · split at h
    · cases h
    · exact (hformat h).trans (Nat.le_succ _)

end

/-- The three scanners of strings leave no more than they are given, by induction on the steps. -/
theorem shortens_skip (fuel : Nat) :
    (∀ form fresh, Shortens (skipString form fuel fresh)) ∧
      (∀ depth blank, Shortens (skipField fuel depth blank)) ∧ Shortens (skipFormat fuel) := by
  induction fuel with
  | zero =>
      refine ⟨fun form fresh cs rest h => ?_, fun depth blank cs rest h => ?_, fun {cs rest} h => ?_⟩
      · simp [skipString] at h
      · simp [skipField] at h
      · simp [skipFormat] at h
  | succ fuel ih =>
      rcases ih with ⟨hstring, hfield, hformat⟩
      exact ⟨shortens_skipString hstring hfield, shortens_skipField hstring hfield hformat,
        shortens_skipFormat hfield hformat⟩

theorem length_string? {closed : Bool} (h : string? cs = some (closed, rest)) :
    rest.length ≤ cs.length := by
  unfold string? at h
  split at h
  · cases h
  · next hopen =>
      have hbody := length_openString? hopen
      split at h
      · next hskip =>
          cases h
          exact ((shortens_skip _).1 _ _ hskip).trans hbody.le
      · cases h
        exact Nat.zero_le _

/-! ### Numbers -/

theorem length_digitRun_le (cs : List Char) : (digitRun cs).2.length ≤ cs.length := by
  fun_induction digitRun cs <;> simp_all <;> omega

theorem length_basedRun_le (isDigit : Char → Bool) (cs : List Char) :
    (basedRun isDigit cs).2.length ≤ cs.length := by
  fun_induction basedRun isDigit cs <;> simp_all <;> omega

theorem length_dropOneOf_le (chars cs : List Char) : (dropOneOf chars cs).length ≤ cs.length := by
  unfold dropOneOf
  split
  · split <;> simp
  · exact Nat.le_refl _

theorem length_exponent? (h : exponent? cs = some rest) : rest.length ≤ cs.length := by
  unfold exponent? at h
  split at h
  · next e more =>
      have hsign := length_dropOneOf_le ['+', '-'] more
      have hrun := length_digitRun_le (dropOneOf ['+', '-'] more)
      rw [List.length_cons]
      split at h
      · split at h
        · cases h
        · next hdigits =>
            cases h
            rw [hdigits] at hrun
            dsimp only at hrun
            omega
      · cases h
  · cases h

theorem length_afterExponent_le (cs : List Char) : (afterExponent cs).length ≤ cs.length := by
  unfold afterExponent
  cases h : exponent? cs with
  | none => exact Nat.le_refl _
  | some rest => exact length_exponent? h

theorem length_based? (h : based? cs = some rest) : rest.length ≤ cs.length := by
  unfold based? at h
  split at h
  · next letter more =>
      dsimp only at h
      split at h
      · cases h
      · next digits after hnone hrun =>
          cases h
          have hafter : after.length ≤ more.length := by
            have hbased := fun isDigit => length_basedRun_le isDigit more
            split at hrun
            · exact (congrArg (·.2.length) hrun).symm.trans_le (hbased _)
            · split at hrun
              · exact (congrArg (·.2.length) hrun).symm.trans_le (hbased _)
              · split at hrun
                · exact (congrArg (·.2.length) hrun).symm.trans_le (hbased _)
                · cases hrun
                  exact Nat.le_refl _
          have hsuffix := length_dropOneOf_le ['l', 'L'] after
          simp only [List.length_cons]
          omega
  · cases h

theorem length_number? {kind : TokenKind} (h : number? cs = some (kind, rest)) :
    rest.length ≤ cs.length := by
  have hdigits := length_digitRun_le cs
  unfold number? at h
  split at h
  · next hbased =>
      cases h
      exact length_based? hbased
  · split at h
    · next more hrun =>
        rw [hrun, List.length_cons] at hdigits
        have hmore := length_digitRun_le more
        split at h
        · cases h
        · next after _ hfraction =>
            rw [hfraction] at hmore
            cases h
            have hexponent := length_afterExponent_le after
            have hsuffix := length_dropOneOf_le ['j', 'J'] (afterExponent after)
            dsimp only at hmore
            omega
    · cases h
    · next more _ hrun =>
        rw [hrun, List.length_cons] at hdigits
        cases h
        have hfraction := length_digitRun_le more
        have hexponent := length_afterExponent_le (digitRun more).2
        have hsuffix := length_dropOneOf_le ['j', 'J'] (afterExponent (digitRun more).2)
        omega
    · next after _ _ _ hrun =>
        rw [hrun] at hdigits
        dsimp only at hdigits
        split at h
        · next more hexponent =>
            cases h
            have hmore := length_exponent? hexponent
            have hsuffix := length_dropOneOf_le ['j', 'J'] more
            omega
        · cases h
          have hsuffix := length_dropOneOf_le ['l', 'L', 'j', 'J'] after
          omega

/-! ### All tokens -/

/-- A token leaves no more of the text than there was. -/
theorem length_next_le (c : Char) (rest : List Char) : (next c rest).2.length ≤ (c :: rest).length := by
  unfold next
  dsimp only
  split
  · next h => exact length_string? h
  · next h => exact length_string? h
  · split
    · exact Nat.le_trans (List.dropWhile_suffix _).length_le (Nat.le_succ _)
    · split
      · next found h => exact length_number? h
      · split
        · simp
        · simp

theorem length_skipPlain_le (l : Layout) (cs : List Char) :
    (skipPlain l cs).2.length ≤ cs.length := by
  fun_induction skipPlain l cs with
  | case1 => exact Nat.le_refl _
  | case2 l c rest _ ih => exact Nat.le_trans ih (Nat.le_succ _)
  | case3 => exact Nat.le_refl _

theorem length_skipLayout_le (fuel : Nat) (l : Layout) (cs : List Char) :
    (skipLayout fuel l cs).2.length ≤ cs.length := by
  induction fuel generalizing l cs with
  | zero => exact Nat.le_refl _
  | succ fuel ih =>
      unfold skipLayout
      split
      · exact Nat.le_refl _
      · exact Nat.le_trans (ih _ _) (Nat.le_succ _)
      · exact Nat.le_trans (ih _ _) (Nat.le_succ _)
      · exact Nat.le_trans (ih _ _) (Nat.le_succ _)
      · exact Nat.le_trans (ih _ _) (Nat.le_succ _)
      · exact Nat.le_trans (ih _ _) (Nat.le_succ _)
      · exact Nat.le_trans (ih _ _) (List.dropWhile_suffix _).length_le
      · exact Nat.le_trans (ih _ _) (by simp only [List.length_cons]; omega)
      · exact Nat.le_trans (ih _ _) (by simp only [List.length_cons]; omega)
      · next c rest _ _ _ _ _ _ _ _ =>
          have hplain := length_skipPlain_le l (c :: rest)
          split
          -- Blanks that are no indentation may end before a comment or a continuation.
          · dsimp only
            split
            · exact Nat.le_trans (ih _ _) hplain
            · exact Nat.le_trans (ih _ _) hplain
            · exact hplain
          · exact Nat.le_refl _

theorem sum_length_tokensFrom_le (fuel : Nat) (before : Layout) (cs : List Char) :
    ((tokensFrom fuel before cs).map (·.text.length)).sum ≤ cs.length := by
  induction fuel generalizing before cs with
  | zero => exact Nat.zero_le _
  | succ fuel ih =>
      have hlayout := length_skipLayout_le (cs.length + 1) before cs
      unfold tokensFrom
      dsimp only
      split
      · exact Nat.zero_le _
      · next c rest hskip =>
          rw [hskip] at hlayout
          have hnext := length_next_le c rest
          rw [List.map_cons, List.sum_cons, String.length_ofList, List.length_take]
          -- What is taken and what is left are the text together.
          refine Nat.le_trans (Nat.add_le_add (Nat.min_le_left _ _) (ih _ (next c rest).2)) ?_
          omega

end

end Token

theorem sum_length_tokens_le (cs : List Char) :
    ((tokens cs).map (·.text.length)).sum ≤ cs.length := Token.sum_length_tokensFrom_le _ _ cs

end Python
end WireTypes
