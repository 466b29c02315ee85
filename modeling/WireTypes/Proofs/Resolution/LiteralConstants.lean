import WireTypes.Proofs.Resolution.WholeNumbers
import WireTypes.Proofs.Text.Segments

/-!
# Literal constants — a constant in `Literal` and on the right of an assignment

A constant is a string, a whole number, a truth value or `None`, perhaps in parentheses. It has a value,
and both readers of constants are compared with it: the one of default values and members, and the one
of the arguments of `Literal`.

- `Constant`: the value of a term;
- `Constant.ofTerm`: a value is read as it is;
- `literalValues?_eq_marked`, `literalValues?_eq_none`: the arguments of `Literal` are read as they are, or
  the whole type is given up;
- `FieldType.HasValue`: what the values of a literal type are;
- `literal_agrees_iff`: the readers agree about constants, and a default is one of the values of its field,
  exactly where no number has a base or a plus sign.
-/

namespace WireTypes

/-- A value of a literal type; `None` is one if it stands beside the others or alone. -/
inductive FieldType.HasValue : FieldType → Json → Prop
  | literal {values : List Json} {v : Json} : v ∈ values → HasValue (.literal values) v
  | null : HasValue .null .null
  | none (inner : FieldType) : HasValue (.optional inner) .null
  | some {inner : FieldType} {v : Json} : HasValue inner v → HasValue (.optional inner) v

namespace Resolution

open Discovery Python

/-! ## Constants -/

inductive Constant : Term → Json → Prop
  | string {tokens : List String} {text s : String} :
      decodeStrings? tokens = some s → Constant (.string tokens text) (.str s)
  | whole {t : Term} {n : Int} : t.whole? = some n → Readable n → Constant t (.ofInt n)
  | boolean (value : Bool) : Constant (.boolean value) (.bool value)
  | none : Constant .none .null
  | group {inner : Term} {v : Json} : Constant inner v → Constant (.group inner) v

def isNull : Json → Bool
  | .null => true
  | _ => false

theorem isNull_iff {v : Json} : isNull v ↔ v = .null := by
  cases v <;> simp [isNull]

/-- The values but `None`, and whether it is among them. -/
def marked (values : List Json) : List Json × Bool := (values.filter (!isNull ·), values.any isNull)

section Constants

variable {t : Term} {v : Json} {terms : List Term} {values : List Json}

/-- A constant is read as its value. -/
theorem Constant.ofTerm (h : Constant t v) : Expr.ofTerm t = .literal v := by
  induction h with
  | string decoded => simp [Expr.ofTerm, decoded]
  | whole written fits => exact Expr.ofTerm_eq_int_iff.mpr ⟨written, fits⟩
  | boolean value => simp [Expr.ofTerm]
  | none => simp [Expr.ofTerm]
  | group _ ih => rwa [Expr.ofTerm]

/-! ### Arguments of `Literal` -/

/-- A constant in front of others. -/
theorem literalValues?_cons (h : Constant t v) (common : t.IsCommon) (rest : List TypeHint) :
    literalValues? (TypeHint.ofTerm t :: rest)
      = (literalValues? rest).map fun (values, nullable) =>
          if isNull v then (values, true) else (v :: values, nullable) := by
  induction h with
  | string decoded =>
      rw [TypeHint.ofTerm, decoded, literalValues?]
      cases literalValues? rest <;> rfl
  | whole written fits =>
      rw [TypeHint.ofTerm_eq_int_iff.mpr ⟨written, fits, common⟩, literalValues?]
      cases literalValues? rest <;> rfl
  | boolean value =>
      rw [TypeHint.ofTerm, literalValues?]
      cases literalValues? rest <;> rfl
  | none =>
      rw [TypeHint.ofTerm, literalValues?]
      cases literalValues? rest <;> rfl
  | group _ ih =>
      rw [TypeHint.ofTerm]
      exact ih common

/-- A number with a base or a plus sign is no argument. -/
theorem literalValues?_cons_of_not_isCommon (h : Constant t v) (special : ¬ t.IsCommon)
    (rest : List TypeHint) : literalValues? (TypeHint.ofTerm t :: rest) = none := by
  induction h with
  | whole written _ =>
      obtain ⟨text, left⟩ := TypeHint.ofTerm_of_not_isCommon written special
      rw [left, literalValues?]
      cases literalValues? rest <;> rfl
  | group _ ih =>
      rw [TypeHint.ofTerm]
      exact ih special
  | _ => exact absurd trivial special

theorem literalValues?_eq_marked (h : List.Forall₂ Constant terms values)
    (common : ∀ t ∈ terms, t.IsCommon) :
    literalValues? (TypeHint.ofTerms terms) = some (marked values) := by
  induction h with
  | nil => rfl
  | @cons t v terms values first _ ih =>
      obtain ⟨here, others⟩ := List.forall_mem_cons.mp common
      rw [TypeHint.ofTerms, literalValues?_cons first here, ih others]
      cases null : isNull v <;> simp [marked, null]

theorem literalValues?_eq_none (h : List.Forall₂ Constant terms values)
    (special : ∃ t ∈ terms, ¬ t.IsCommon) :
    literalValues? (TypeHint.ofTerms terms) = none := by
  induction h with
  | nil => simp at special
  | @cons t v terms values first _ ih =>
      rw [TypeHint.ofTerms]
      by_cases common : t.IsCommon
      · have others : ∃ t ∈ terms, ¬ t.IsCommon := by simpa [common] using special
        rw [literalValues?_cons first common, ih others, Option.map_none]
      · exact literalValues?_cons_of_not_isCommon first common _

/-! ### Types -/

/-- With `None` beside its values a literal type keeps them. -/
theorem hasValue_orNull {ty : FieldType} (h : ty = .null ∨ ∃ values, ty = .literal values) :
    ty.orNull.HasValue .null ∧ (ty.HasValue v → ty.orNull.HasValue v) := by
  rcases h with rfl | ⟨values, rfl⟩
  · exact ⟨.null, id⟩
  · have wrapped : (FieldType.literal values).orNull = .optional (.literal values) := rfl
    rw [wrapped]
    exact ⟨.none _, .some⟩

theorem not_hasValue_unresolved {name : String} : ¬ (FieldType.unresolved name).HasValue v := by
  intro h
  cases h

/-- The type of constants has all of them as values. -/
theorem literal?_hasValue (h : List.Forall₂ Constant terms values) (common : ∀ t ∈ terms, t.IsCommon) :
    ∃ ty, literal? (TypeHint.ofTerms terms) = some ty ∧ ∀ v ∈ values, ty.HasValue v := by
  rw [literal?, literalValues?_eq_marked h common, Option.map_some]
  refine ⟨_, rfl, fun v member => ?_⟩
  let others := values.filter (!isNull ·)
  let ty : FieldType := if others.isEmpty then .null else .literal others
  have shape : ty = .null ∨ ∃ values, ty = .literal values := by
    by_cases none : others.isEmpty
    · exact .inl (if_pos none)
    · exact .inr ⟨others, if_neg none⟩
  show (if values.any isNull then ty.orNull else ty).HasValue v
  cases null : isNull v with
  | true =>
      have nullable : values.any isNull := List.any_eq_true.mpr ⟨v, member, null⟩
      rw [if_pos nullable, isNull_iff.mp null]
      exact (hasValue_orNull (v := v) shape).1
  | false =>
      have other : v ∈ others := List.mem_filter.mpr ⟨member, by simp [null]⟩
      have some : ¬ others.isEmpty := by simpa using List.ne_nil_of_mem other
      have plain : ty = .literal others := if_neg some
      have value : ty.HasValue v := plain ▸ .literal other
      split
      · exact (hasValue_orNull shape).2 value
      · exact value

theorem literal?_eq_none (h : List.Forall₂ Constant terms values)
    (special : ∃ t ∈ terms, ¬ t.IsCommon) : literal? (TypeHint.ofTerms terms) = none := by
  rw [literal?, literalValues?_eq_none h special, Option.map_none]

end Constants

/-! ## Fields -/

namespace ClassifiedProgram

section

variable {c : ClassifiedProgram} {m : SourceModule} {base name : String}

/-- A name stands for `Literal`. -/
def NamesLiteral (c : ClassifiedProgram) (m : SourceModule) (name : String) : Prop :=
  ∃ qualified, c.resolve m name = .external qualified ∧
    Container.named? (External.shortName qualified) = some .literal

theorem typeOf_literal (h : c.NamesLiteral m base) (args : TypeArgs) (params : List TypeHint) :
    c.typeOf m args (.subscript base params)
      = pure ((literal? params).getD (.unresolved base)) := by
  obtain ⟨qualified, resolved, container⟩ := h
  rw [typeOf, show Program.stepLimit = 32 + 1 from rfl, resolveType]
  simp only [subscriptType, resolved, container, Container.typeOf]

theorem isClassVar_literal (h : c.NamesLiteral m base) (params : List TypeHint) :
    c.isClassVar m (.subscript base params) = false := by
  obtain ⟨qualified, resolved, container⟩ := h
  have other : External.shortName qualified ≠ "ClassVar" := by
    intro short
    rw [short] at container
    cases container
  simp [isClassVar, isClassVarWithin, isClassVarWithin.marks, resolved, other]

/-- A field with a literal type and a constant on its right side. -/
theorem field?_of_literal (h : c.NamesLiteral m base) (shown : isFieldName name) (args : TypeArgs)
    (isLegacy : Bool) (params : List TypeHint) (v : Json) :
    c.field? m args isLegacy ⟨name, .subscript base params, some (.literal v)⟩
      = pure (some { Field.required name ((literal? params).getD (.unresolved base)) with
          default := .literal v }) := by
  have constant (type : FieldType) : fieldOf name type (some (.literal v))
      = { Field.required name type with default := .literal v } := rfl
  have given : (FieldDefault.literal v).isRequired = false := rfl
  simp [field?, shown, isClassVar_literal h, typeOf_literal h, constant, withImplicitDefault, given]

end

end ClassifiedProgram

/-- The arguments of `Literal` are read as the values that the same constants have on the right of an
assignment, and a field that has one of them as its default has it among its values, exactly if no number
has a base or a plus sign. Otherwise the field has no type. -/
theorem literal_agrees_iff {terms : List Term} {values : List Json}
    (h : List.Forall₂ Constant terms values) :
    terms.map (fun t => (Expr.ofTerm t).toJson?) = values.map some ∧
    (literalValues? (TypeHint.ofTerms terms) = some (marked values) ↔ ∀ t ∈ terms, t.IsCommon) ∧
    ∀ {c : ClassifiedProgram} {m : SourceModule} {base name : String},
      c.NamesLiteral m (Text.compact base) → ClassifiedProgram.isFieldName name →
      ∀ t v, (t, v) ∈ terms.zip values → ∃ a type,
        attributeOf? (.assignment (some name) (some (.subscript base terms)) (some t)) = some a ∧
        (∀ args isLegacy, c.field? m args isLegacy a
          = pure (some { Field.required name type with default := .literal v })) ∧
        (type.HasValue v ↔ ∀ t ∈ terms, t.IsCommon) ∧
        ((∃ t ∈ terms, ¬ t.IsCommon) → type = .unresolved (Text.compact base)) := by
  refine ⟨?_, ?_, ?_⟩
  · induction h with
    | nil => rfl
    | cons first _ ih => simp [first.ofTerm, Expr.toJson?, ih]
  · refine ⟨fun read => ?_, literalValues?_eq_marked h⟩
    by_contra special
    have given_up := literalValues?_eq_none h (by simpa using special)
    rw [given_up] at read
    cases read
  · intro c m base name literal shown t v pair
    obtain ⟨term, value⟩ : t ∈ terms ∧ v ∈ values := List.of_mem_zip pair
    have constant : Constant t v := (List.forall₂_iff_zip.mp h).2 pair
    have declared : attributeOf? (.assignment (some name) (some (.subscript base terms)) (some t))
        = some ⟨name, .subscript (Text.compact base) (TypeHint.ofTerms terms), some (.literal v)⟩ := by
      simp [attributeOf?, TypeHint.ofTerm, constant.ofTerm]
    refine ⟨_, _, declared, fun args isLegacy =>
      ClassifiedProgram.field?_of_literal literal shown args isLegacy _ v, ?_, ?_⟩
    · by_cases common : ∀ t ∈ terms, t.IsCommon
      · obtain ⟨type, read, has⟩ := literal?_hasValue h common
        rw [read]
        exact iff_of_true (has v value) common
      · rw [literal?_eq_none h (by simpa using common), Option.getD_none]
        exact iff_of_false not_hasValue_unresolved common
    · intro special
      rw [literal?_eq_none h special, Option.getD_none]

/-! ## Numbers with a base and with a sign -/

namespace Sample

/-- A module that imports `Literal` by the name of `L`. -/
def literalModule : SourceModule where
  key := ["m.py"]
  dotted := "m"
  packageDirectory := none
  content := {
    imports := [.names 0 (some "typing") [⟨"Literal", some "L"⟩] false]
    classes := []
    aliases := [] }
  bindings := [("L", .external "typing.Literal")]
  stars := []
  inScope := true

def literalProgram : ClassifiedProgram := ⟨[literalModule], []⟩

def based : Term := .integer "0x10"

def plus : Term := .unary "+" (.integer "1") "+1"

def minus : Term := .unary "-" (.group (.integer "1_0")) "-(1_0)"

theorem resolve_literal :
    literalProgram.resolve literalModule "L" = .external "typing.Literal" := by cbv

theorem namesLiteral : literalProgram.NamesLiteral literalModule (Text.compact "L") := by
  have compact : Text.compact "L" = "L" := by cbv
  have short : External.shortName "typing.Literal" = "Literal" := by
    simp only [External.shortName, External.splitLast?, Text.splitOn_dot]
    decide
  have container : Container.named? (External.shortName "typing.Literal") = some .literal := by
    rw [short]
    rfl
  rw [compact]
  exact ⟨_, resolve_literal, container⟩

theorem isFieldName_x : ClassifiedProgram.isFieldName "x" := by cbv

theorem digits_based : (withoutUnderscores "0x10").map Char.toLower = ['0', 'x', '1', '0'] := by cbv

theorem digits_plus : (withoutUnderscores "1").map Char.toLower = ['1'] := by cbv

theorem digits_minus : (withoutUnderscores "1_0").map Char.toLower = ['1', '0'] := by cbv

theorem constant_based : Constant based (.ofInt 16) := by
  have number : natural? "0x10" = some 16 := by
    simp only [natural?, digits_based]
    rfl
  exact .whole (by simp [based, Term.whole?, number]) (by norm_num [Readable])

theorem constant_plus : Constant plus (.ofInt 1) := by
  have number : natural? "1" = some 1 := by
    simp only [natural?, digits_plus]
    rfl
  exact .whole (by simp [plus, Term.whole?, number]) (by norm_num [Readable])

theorem constant_minus : Constant minus (.ofInt (-10)) := by
  have number : natural? "1_0" = some 10 := by
    simp only [natural?, digits_minus]
    rfl
  exact .whole (by simp [minus, Term.whole?, number]) (by norm_num [Readable])

theorem not_isCommon_based : ¬ based.IsCommon := by
  simp [based, Term.IsCommon, hasBase, digits_based]

theorem not_isCommon_plus : ¬ plus.IsCommon := fun common => common.1 rfl

theorem isCommon_minus : minus.IsCommon := by
  simp [minus, Term.IsCommon, hasBase, digits_minus]

end Sample

theorem minus_agrees :
    List.Forall₂ Constant [Sample.minus, .none] [.ofInt (-10), .null] ∧
    Sample.literalProgram.NamesLiteral Sample.literalModule (Text.compact "L") ∧
    ClassifiedProgram.isFieldName "x" ∧
    (Sample.minus, Json.ofInt (-10)) ∈ [Sample.minus, .none].zip [Json.ofInt (-10), .null] ∧
    literalValues? (TypeHint.ofTerms [Sample.minus, .none]) = some ([.ofInt (-10)], true) ∧
    ∃ a type, attributeOf? (.assignment (some "x")
        (some (.subscript "L" [Sample.minus, .none])) (some Sample.minus)) = some a ∧
      (∀ args isLegacy, Sample.literalProgram.field? Sample.literalModule args isLegacy a
        = pure (some { Field.required "x" type with default := .literal (.ofInt (-10)) })) ∧
      type.HasValue (.ofInt (-10)) := by
  have constants : List.Forall₂ Constant [Sample.minus, .none] [.ofInt (-10), .null] :=
    .cons Sample.constant_minus (.cons .none .nil)
  have common : ∀ t ∈ [Sample.minus, .none], t.IsCommon := by
    simp [Sample.isCommon_minus, Term.IsCommon]
  have first : (Sample.minus, Json.ofInt (-10)) ∈
      [Sample.minus, .none].zip [Json.ofInt (-10), .null] := List.mem_cons_self
  obtain ⟨-, read, field⟩ := literal_agrees_iff constants
  obtain ⟨a, type, declared, built, value, -⟩ :=
    field Sample.namesLiteral Sample.isFieldName_x _ _ first
  exact ⟨constants, Sample.namesLiteral, Sample.isFieldName_x, first, read.mpr common, a, type, declared,
    built, value.mpr common⟩

/-- `0x10` and `+1` have their values on the right of an assignment, and none among the arguments of
`Literal`, so that a field of this type and this default has no type. -/
theorem based_and_plus_disagree :
    (Constant Sample.based (.ofInt 16) ∧ (Expr.ofTerm Sample.based).toJson? = some (.ofInt 16) ∧
      literalValues? [TypeHint.ofTerm Sample.based] = none) ∧
    (Constant Sample.plus (.ofInt 1) ∧ (Expr.ofTerm Sample.plus).toJson? = some (.ofInt 1) ∧
      literalValues? [TypeHint.ofTerm Sample.plus] = none) ∧
    ∃ a, attributeOf? (.assignment (some "x") (some (.subscript "L" [Sample.based]))
        (some Sample.based)) = some a ∧
      Sample.literalProgram.field? Sample.literalModule [] false a
        = pure (some { Field.required "x" (.unresolved (Text.compact "L")) with
            default := .literal (.ofInt 16) }) := by
  have value {t : Term} {v : Json} (h : Constant t v) : (Expr.ofTerm t).toJson? = some v := by
    rw [h.ofTerm, Expr.toJson?]
  have no_argument {t : Term} {v : Json} (h : Constant t v) (special : ¬ t.IsCommon) :
      literalValues? [TypeHint.ofTerm t] = none :=
    literalValues?_cons_of_not_isCommon h special []
  have no_type : literal? [TypeHint.ofTerm Sample.based] = none := by
    rw [literal?, no_argument Sample.constant_based Sample.not_isCommon_based, Option.map_none]
  refine ⟨⟨Sample.constant_based, value Sample.constant_based,
      no_argument Sample.constant_based Sample.not_isCommon_based⟩,
    ⟨Sample.constant_plus, value Sample.constant_plus,
      no_argument Sample.constant_plus Sample.not_isCommon_plus⟩, ?_⟩
  have declared : attributeOf? (.assignment (some "x") (some (.subscript "L" [Sample.based]))
      (some Sample.based)) = some ⟨"x", .subscript (Text.compact "L")
        [TypeHint.ofTerm Sample.based], some (.literal (.ofInt 16))⟩ := by
    simp [attributeOf?, TypeHint.ofTerm, TypeHint.ofTerms, Sample.constant_based.ofTerm]
  refine ⟨_, declared, ?_⟩
  rw [ClassifiedProgram.field?_of_literal Sample.namesLiteral Sample.isFieldName_x, no_type,
    Option.getD_none]

end Resolution
end WireTypes
