import WireTypes.Proofs.Python.TokenText

/-!
# Encoded length — strings are shorter than their tokens, also in bytes

A character takes up to four bytes, so a string could write fewer characters than its token has and still
take more bytes. It does not: the digits of a code point take at least the bytes of its character, and an
escape that names no character writes the digits that stand in it.

- `utf8Size_ofNat_le`: a character whose number has so many hexadecimal digits takes no more bytes;
- `utf8Len_unescape_le`: escape sequences write no more bytes than they take;
- `utf8ByteSize_decodeString?`: what a string token writes is shorter by its quotation marks;
- `utf8ByteSize_decodeStrings?`: so it is with strings that are joined.
-/

namespace WireTypes
namespace Python

open String (utf8Len utf8Len_append utf8Len_cons utf8Len_le_of_suffix)

section

variable {cs digits out mark inner : List Char} {c : Char} {n : Nat}

theorem length_le_utf8Len (cs : List Char) : cs.length ≤ utf8Len cs := by
  induction cs with
  | nil => exact Nat.le_refl 0
  | cons c cs ih =>
      rw [List.length_cons, utf8Len_cons]
      exact Nat.add_le_add ih c.utf8Size_pos

/-! ## Code points -/

/-- Digits write less than the power of the base by their number. -/
theorem digitsValue?_lt {base acc : Nat} (h : digitsValue? base acc digits = some n) :
    n < (acc + 1) * base ^ digits.length := by
  induction digits generalizing acc with
  | nil =>
      cases h
      simp
  | cons c rest ih =>
      unfold digitsValue? at h
      split at h
      · next d _ =>
          split at h
          · next hd =>
              have hacc : acc * base + d + 1 ≤ (acc + 1) * base := by
                rw [Nat.add_mul, Nat.one_mul]
                omega
              calc n < (acc * base + d + 1) * base ^ rest.length := ih h
                _ ≤ (acc + 1) * base * base ^ rest.length := Nat.mul_le_mul_right _ hacc
                _ = (acc + 1) * base ^ (c :: rest).length := by
                  rw [List.length_cons, Nat.pow_succ', Nat.mul_assoc]
          · cases h
      · cases h

theorem number?_lt {base : Nat} (h : number? base digits = some n) :
    digits ≠ [] ∧ n < base ^ digits.length := by
  unfold number? at h
  split at h
  · cases h
  · next hne => exact ⟨by simpa using hne, by simpa using digitsValue?_lt h⟩

/-- The encoding of a character takes no more bytes than its number has hexadecimal digits. -/
theorem utf8Size_ofNat_le {width : Nat} (hvalid : n.isValidChar) (hpos : 0 < width)
    (h : n < 16 ^ width) : (Char.ofNat n).utf8Size ≤ width := by
  have hval : (Char.ofNat n).val.toNat = n := by
    rw [Char.ofNat, dif_pos hvalid]
    exact Char.toNat_ofNatAux _
  -- The encoding grows at 128, 2048 and 65536, each of which takes another digit.
  match width with
  | 1 | 2 | 3 =>
      unfold Char.utf8Size
      simp only [UInt32.le_iff_toNat_le, hval, UInt32.toNat_ofNatLT]
      split_ifs <;> omega
  | width + 4 => exact (Char.utf8Size_le_four _).trans (Nat.le_add_left 4 width)

theorem utf8Size_codePoint? (h : codePoint? digits = some c) : c.utf8Size ≤ digits.length := by
  unfold codePoint? at h
  dsimp only at h
  split at h
  · next n hnumber =>
      obtain ⟨hne, hlt⟩ := number?_lt hnumber
      split at h
      · next hvalid =>
          cases h
          apply (utf8Size_ofNat_le hvalid (List.length_pos_of_ne_nil hne) hlt).trans
          -- The digits behind a plus sign are fewer.
          split
          · exact Nat.le_succ _
          · exact Nat.le_refl _
      · cases h
  · cases h

theorem utf8Len_codePointText_le (digits : List Char) :
    utf8Len (codePointText digits) ≤ utf8Len digits := by
  unfold codePointText
  split
  · next c hcode =>
      calc utf8Len [c] = c.utf8Size := Nat.zero_add _
        _ ≤ digits.length := utf8Size_codePoint? hcode
        _ ≤ utf8Len digits := length_le_utf8Len digits
  · exact Nat.le_refl _

/-! ## Escape sequences -/

theorem utf8Size_simpleEscape? {d : Char} (h : simpleEscape? c = some d) : d.utf8Size = 1 := by
  unfold simpleEscape? at h
  split at h
  all_goals first
    | cases h; rfl
    | cases h

/-- An escape takes the bytes of what it writes, whether it names a character or not. -/
theorem utf8Len_unescape_le (cs : List Char) : utf8Len (unescape cs) ≤ utf8Len cs := by
  fun_induction unescape cs with
  | case1 => exact Nat.le_refl _
  | case2 => exact Nat.le_refl _
  | case3 rest ih =>
      simp only [utf8Len_cons]
      omega
  | case4 c rest _ d hd ih =>
      have hone := utf8Size_simpleEscape? hd
      have hslash := Char.utf8Size_pos '\\'
      simp only [utf8Len_cons]
      omega
  -- The digits are taken from the text, and there may be fewer of them than the escape asks for.
  | case5 c rest _ width _ _ ih =>
      have hsplit : utf8Len rest = utf8Len (rest.take width) + utf8Len (rest.drop width) := by
        rw [← utf8Len_append, List.take_append_drop]
      have hdigits := utf8Len_codePointText_le (rest.take width)
      simp only [utf8Len_cons, utf8Len_append]
      omega
  | case6 c rest _ _ _ ih =>
      simp only [utf8Len_cons]
      omega
  | case7 c rest _ _ _ ih =>
      simp only [utf8Len_cons]
      omega

/-! ## Tokens -/

/-- What is unquoted stands between the marks. -/
theorem unquote?_eq (h : unquote? mark cs = some inner) : mark ++ inner ++ mark = cs := by
  unfold unquote? at h
  split at h
  · next hbody =>
      cases h
      obtain ⟨hlength, hfirst, hlast⟩ := hbody
      obtain ⟨rest, rfl⟩ := List.isPrefixOf_iff_prefix.mp hfirst
      rw [List.length_append] at hlength
      -- The marks do not overlap, so the last one is a suffix of what stands behind the first one.
      have hbehind : mark <:+ rest :=
        List.suffix_of_suffix_length_le (List.isSuffixOf_iff_suffix.mp hlast)
          (List.suffix_append mark rest) (by omega)
      obtain ⟨middle, rfl⟩ := hbehind
      have hmiddle : (mark ++ (middle ++ mark)).length - 2 * mark.length = middle.length := by
        simp only [List.length_append]
        omega
      rw [hmiddle, List.drop_left, List.take_left, List.append_assoc]
  · cases h

theorem utf8Len_decodeChars? (h : decodeChars? cs = some out) : utf8Len out + 2 ≤ utf8Len cs := by
  have hbody : utf8Len (cs.dropWhile (!isQuote ·)) ≤ utf8Len cs :=
    utf8Len_le_of_suffix (List.dropWhile_suffix _)
  unfold decodeChars? at h
  dsimp only at h
  split at h
  · cases h
  · split at h
    · cases h
    · split at h
      · next inner hquoted =>
          obtain ⟨mark, hmark, hunquote⟩ := List.exists_of_findSome?_eq_some hquoted
          have hlength := congrArg utf8Len (unquote?_eq hunquote)
          have hpositive : 1 ≤ utf8Len mark := by
            simp only [quotationMarks, List.mem_cons, List.not_mem_nil, or_false] at hmark
            rcases hmark with rfl | rfl | rfl | rfl <;> decide
          have hunescape := utf8Len_unescape_le inner
          simp only [utf8Len_append] at hlength
          cases h
          split <;> omega
      · cases h

theorem utf8ByteSize_decodeString? {token s : String} (h : decodeString? token = some s) :
    s.utf8ByteSize + 2 ≤ token.utf8ByteSize := by
  obtain ⟨chars, hchars, rfl⟩ := Option.map_eq_some_iff.mp h
  rw [String.utf8ByteSize_ofList, ← String.utf8Len_toList token]
  exact utf8Len_decodeChars? hchars

theorem utf8ByteSize_decodeStrings? {tokens : List String} {s : String}
    (h : decodeStrings? tokens = some s) :
    s.utf8ByteSize + 2 * tokens.length ≤ (tokens.map String.utf8ByteSize).sum := by
  obtain ⟨texts, htexts, rfl⟩ := Option.map_eq_some_iff.mp h
  clear h
  induction tokens generalizing texts with
  | nil =>
      cases htexts
      exact Nat.le_refl 0
  | cons token rest ih =>
      rw [List.mapM_cons] at htexts
      obtain ⟨first, hfirst, htexts⟩ := Option.bind_eq_some_iff.mp htexts
      obtain ⟨others, hothers, heq⟩ := Option.bind_eq_some_iff.mp htexts
      cases heq
      have hone := utf8ByteSize_decodeString? hfirst
      have hrest := ih _ hothers
      simp only [String.join_cons, String.utf8ByteSize_append, List.map_cons, List.sum_cons,
        List.length_cons]
      omega

end

end Python
end WireTypes
