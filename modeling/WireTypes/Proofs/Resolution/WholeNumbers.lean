import Mathlib
import WireTypes.Proofs.Resolution.EnumValues

/-!
# Whole numbers — the numbers of a source and their two readers

A whole number stands in a source as digits in some base, perhaps with signs in front of it and in
parentheses. It is read as a value on the right of an assignment, and as a type among the arguments of
`Literal`.

- `Term.whole?`: the number that a term writes, of any size;
- `Expr.ofTerm_eq_int_iff`: it is read as a value exactly if it fits;
- `TypeHint.ofTerm_eq_int_iff`: it is read as a type exactly if moreover it has neither a base nor a plus
  sign.
-/

namespace WireTypes
namespace Python

open Resolution

/-! ## What a term writes -/

/-- The number of a term that is digits with any signs and parentheses around them. -/
def Term.whole? : Term → Option Int
  | .integer text => (natural? text).map Nat.cast
  | .unary operator operand _ =>
      match operator with
      | "-" => operand.whole?.map (- ·)
      | "+" => operand.whole?
      | _ => .none
  | .group inner => inner.whole?
  | _ => .none

/-- The digits stand behind a letter for their base. -/
def hasBase (token : String) : Bool :=
  ['x', 'o', 'b'].any fun letter =>
    ['0', letter].isPrefixOf ((withoutUnderscores token).map Char.toLower)

/-- No number of the term has a base or a plus sign. -/
def Term.IsCommon : Term → Prop
  | .integer text => ¬ hasBase text
  | .unary operator operand _ => operator ≠ "+" ∧ operand.IsCommon
  | .group inner => inner.IsCommon
  | _ => True

/-! ## Digits -/

section Digits

variable {c : Char}

theorem digitsValue?_cons (base acc : Nat) (c : Char) (rest : List Char) :
    digitsValue? base acc (c :: rest)
      = ((hexDigitValue? c).filter (· < base)).bind fun d =>
          digitsValue? base (acc * base + d) rest := by
  cases h : hexDigitValue? c with
  | none => simp [digitsValue?, h]
  | some d => by_cases hd : d < base <;> simp [digitsValue?, h, hd, Option.filter]

theorem isDigit_of_decimal {d : Nat} (h : hexDigitValue? c = some d) (hd : d < 10) : c.isDigit := by
  unfold hexDigitValue? at h
  split_ifs at h with digit small large
  · simpa [Char.isDigit, Char.le_def] using digit
  · have first : 97 ≤ c.toNat := small.1
    cases h
    omega
  · have first : 65 ≤ c.toNat := large.1
    cases h
    omega

theorem not_isDigit_of_isAlpha (h : c.isAlpha) : ¬ c.isDigit := by
  have apart : ¬ (65 : UInt32) ≤ 57 ∧ ¬ (97 : UInt32) ≤ 57 := by decide
  simp only [Char.isAlpha, Char.isUpper, Char.isLower, Char.isDigit, Bool.or_eq_true,
    Bool.and_eq_true, decide_eq_true_eq, not_and] at h ⊢
  intro _ digit
  rcases h with ⟨large, _⟩ | ⟨small, _⟩
  · exact apart.1 (UInt32.le_trans large digit)
  · exact apart.2 (UInt32.le_trans small digit)

/-- Letters are no decimal digits, large or small. -/
theorem decimalDigit_toLower (c : Char) :
    (hexDigitValue? c.toLower).filter (· < 10) = (hexDigitValue? c).filter (· < 10) := by
  by_cases upper : c.isUpper
  · have none_of_isAlpha {c : Char} (h : c.isAlpha) : (hexDigitValue? c).filter (· < 10) = none := by
      simp only [Option.filter_eq_none_iff, decide_eq_true_eq]
      exact fun d value hd => not_isDigit_of_isAlpha h (isDigit_of_decimal value hd)
    have alpha : c.isAlpha := by simp [Char.isAlpha, upper]
    rw [none_of_isAlpha alpha, none_of_isAlpha (by rwa [Char.isAlpha_toLower_eq_isAlpha])]
  · rw [Char.toLower_eq_of_not_isUpper upper]

theorem digitsValue?_toLower (acc : Nat) (digits : List Char) :
    digitsValue? 10 acc (digits.map Char.toLower) = digitsValue? 10 acc digits := by
  induction digits generalizing acc with
  | nil => rfl
  | cons c rest ih => simp only [List.map_cons, digitsValue?_cons, decimalDigit_toLower, ih]

theorem number?_toLower (digits : List Char) :
    number? 10 (digits.map Char.toLower) = number? 10 digits := by
  simp [number?, digitsValue?_toLower]

end Digits

theorem decodeDecimal?_eq (token : String) :
    decodeDecimal? token
      = (number? 10 ((withoutUnderscores token).map Char.toLower)).bind signed? := by
  rw [decodeDecimal?, number?_toLower]

/-- The letter of the base is no digit. -/
theorem decodeDecimal?_of_hasBase {token : String} (h : hasBase token) :
    decodeDecimal? token = none := by
  obtain ⟨letter, base, start⟩ := List.any_eq_true.mp h
  obtain ⟨digits, split⟩ := List.isPrefixOf_iff_prefix.mp start
  have foreign : (hexDigitValue? letter).filter (· < 10) = none := by
    simp only [List.mem_cons, List.not_mem_nil, or_false] at base
    rcases base with rfl | rfl | rfl <;> rfl
  rw [decodeDecimal?_eq, ← split]
  simp [number?, digitsValue?_cons, foreign]

/-- Without a base both readers of digits do the same. -/
theorem decodeDecimal?_of_not_hasBase {token : String} (h : ¬ hasBase token) :
    decodeDecimal? token = decodeInteger? token := by
  rw [decodeDecimal?_eq, decodeInteger?]
  unfold hasBase at h
  generalize (withoutUnderscores token).map Char.toLower = digits at h ⊢
  split <;> simp_all

/-! ## The readers -/

theorem signed?_eq_some_iff {k : Nat} {n : Int} : signed? k = some n ↔ k = n ∧ Readable n := by
  constructor
  · intro h
    by_cases fits : Readable k
    · rw [signed?_of_readable fits] at h
      obtain rfl : (k : Int) = n := Option.some.inj h
      exact ⟨rfl, fits⟩
    · rw [signed?_of_not_readable fits] at h
      cases h
  · rintro ⟨rfl, fits⟩
    exact signed?_of_readable fits

theorem decodeInteger?_eq_some_iff {token : String} {n : Int} :
    decodeInteger? token = some n ↔ (natural? token).map Nat.cast = some n ∧ Readable n := by
  rw [decodeInteger?_eq]
  cases natural? token with
  | none => simp
  | some k => rw [Option.bind_some, signed?_eq_some_iff, Option.map_some, Option.some.injEq]

theorem map_neg_eq_some_iff {value : Option Int} {n : Int} :
    value.map (- ·) = some n ↔ value = some (-n) := by
  cases value with
  | none => simp
  | some k => simp only [Option.map_some, Option.some.injEq]; omega

section Signs

variable {e : Expr} {hint : TypeHint} {operator text : String} {n : Int}

theorem Expr.signed_minus_eq_int_iff :
    Expr.signed "-" e text = .literal (.ofInt n) ↔ e = .literal (.ofInt (-n)) := by
  constructor
  · intro h
    unfold Expr.signed at h
    split at h <;> simp_all [Json.ofInt]
    omega
  · rintro rfl
    simp [Expr.signed, Json.ofInt]

theorem Expr.signed_plus_eq_int_iff :
    Expr.signed "+" e text = .literal (.ofInt n) ↔ e = .literal (.ofInt n) := by
  constructor
  · intro h
    unfold Expr.signed at h
    split at h <;> simp_all [Json.ofInt]
  · rintro rfl
    rfl

/-- No other sign makes a number. -/
theorem Expr.signed_of_other (minus : operator ≠ "-") (plus : operator ≠ "+") :
    Expr.signed operator e text = .other text := by
  unfold Expr.signed
  split <;> simp_all

theorem TypeHint.negated_eq_int_iff :
    TypeHint.negated operator hint text = .int n ↔ operator = "-" ∧ hint = .int (-n) := by
  constructor
  · intro h
    unfold TypeHint.negated at h
    split at h <;> simp_all
    omega
  · rintro ⟨rfl, rfl⟩
    simp [TypeHint.negated]

end Signs

/-- A number is read as a value exactly if it fits. -/
theorem Expr.ofTerm_eq_int_iff {t : Term} {n : Int} :
    Expr.ofTerm t = .literal (.ofInt n) ↔ t.whole? = some n ∧ Readable n := by
  fun_induction Term.whole? t generalizing n with
  | case1 text =>
      rw [← decodeInteger?_eq_some_iff]
      cases decoded : decodeInteger? text <;> simp [ofTerm, decoded, Json.ofInt]
  | case2 operand text ih =>
      rw [ofTerm, signed_minus_eq_int_iff, ih, Readable.neg, map_neg_eq_some_iff]
  | case3 operand text ih => rw [ofTerm, signed_plus_eq_int_iff, ih]
  | case4 operator operand text minus plus => 
      rw [ofTerm, signed_of_other minus plus]
      simp
  | case5 inner ih => rw [ofTerm, ih]
  | case6 t =>
      cases t with
      | string tokens text => cases decoded : decodeStrings? tokens <;> simp [ofTerm, decoded, Json.ofInt]
      | float text => cases decoded : decodeFloat? text <;> simp [ofTerm, decoded, Json.ofInt]
      | call function plain => cases plain <;> simp [ofTerm]
      | binary operator => by_cases union : operator = "|" <;> simp [ofTerm, union]
      | _ => simp_all [ofTerm, Json.ofInt]

/-- A number is read as a type exactly if it fits and both readers know how it is written. -/
theorem TypeHint.ofTerm_eq_int_iff {t : Term} {n : Int} :
    TypeHint.ofTerm t = .int n ↔ t.whole? = some n ∧ Readable n ∧ t.IsCommon := by
  fun_induction Term.whole? t generalizing n with
  | case1 text =>
      by_cases base : hasBase text
      · simp [ofTerm, decodeDecimal?_of_hasBase base, Term.IsCommon, base]
      · have plain : (Term.integer text).IsCommon := base
        rw [← and_assoc, and_iff_left plain, ← decodeInteger?_eq_some_iff,
          ← decodeDecimal?_of_not_hasBase base]
        cases decoded : decodeDecimal? text <;> simp [ofTerm, decoded]
  | case2 operand text ih =>
      rw [ofTerm, negated_eq_int_iff, ih, Readable.neg, map_neg_eq_some_iff]
      simp [Term.IsCommon]
  | case3 operand text ih =>
      rw [ofTerm, negated_eq_int_iff]
      simp [Term.IsCommon]
  | case4 operator operand text minus plus =>
      rw [ofTerm, negated_eq_int_iff]
      exact ⟨fun h => absurd h.1 minus, nofun⟩
  | case5 inner ih => rw [ofTerm, ih, Term.IsCommon]
  | case6 t =>
      cases t with
      | string tokens text => cases decoded : decodeStrings? tokens <;> simp [ofTerm, decoded]
      | binary operator => by_cases union : operator = "|" <;> simp [ofTerm, union]
      | _ => simp_all [ofTerm]

/-- A number that is not read is left as text. -/
theorem TypeHint.ofTerm_of_not_isCommon {t : Term} {n : Int} (h : t.whole? = some n)
    (special : ¬ t.IsCommon) : ∃ text, TypeHint.ofTerm t = .other text := by
  have unread : ∀ k, TypeHint.ofTerm t ≠ .int k := fun k read =>
    special (ofTerm_eq_int_iff.mp read).2.2
  have read_or_left : (∃ k, TypeHint.ofTerm t = .int k) ∨ ∃ text, TypeHint.ofTerm t = .other text := by
    clear special unread
    fun_induction Term.whole? t generalizing n with
    | case1 text => cases decoded : decodeDecimal? text <;> simp [ofTerm, decoded]
    | case2 operand text _ =>
        rw [ofTerm]
        unfold negated
        split <;> simp
    | case3 operand text _ => simp [ofTerm, negated]
    | case4 => cases h
    | case5 inner ih => rw [ofTerm]; exact ih h
    | case6 => cases h
  exact read_or_left.resolve_left fun ⟨k, read⟩ => unread k read

end Python
end WireTypes
