import WireTypes.Proofs.Resolution.SealedText
import WireTypes.Resolution.FieldTypes

/-!
# Labels — what the text of a type says about it

The text of a type shows how it is put together, as long as the names in it are texts whose end can be
seen. It does not show what the names stand for.

- `Frame`: the constructors of types that have parts, with the names that are written for them;
- `Legible`: the names in a type are sealed texts, and do not look like a type with parts;
- `Namesakes`: somewhere two types have different leaves with the same text at the same place;
- `Legible.eq_iff`: legible types of the same text are equal exactly if they are no namesakes.
-/

namespace WireTypes

open Resolution Python

namespace FieldType

/-! ## Frames -/

inductive Frame
  | list
  | set
  | tuple (variadic : Bool)
  | dict
  | optional
  | union
  deriving DecidableEq

namespace Frame

def name : Frame → String
  | .list => "List"
  | .set => "Set"
  | .tuple _ => "Tuple"
  | .dict => "Dict"
  | .optional => "Optional"
  | .union => "Union"

def isVariadic : Frame → Bool
  | .tuple variadic => variadic
  | _ => false

def build : Frame → List FieldType → FieldType
  | .list, [item] => .list item
  | .set, [item] => .set item
  | .tuple variadic, items => .tuple items variadic
  | .dict, [key, value] => .dict key value
  | .optional, [inner] => .optional inner
  | .union, members => .union members
  | _, _ => .any

theorem ordinary_name (f : Frame) : Ordinary f.name.toList := by
  cases f with
  | list => decide
  | set => decide
  | tuple variadic => exact (by decide : Ordinary "Tuple".toList)
  | dict => decide
  | optional => decide
  | union => decide

theorem eq_of_name {f g : Frame} (hname : f.name = g.name) (hvariadic : f.isVariadic = g.isVariadic) :
    f = g := by
  cases f <;> cases g <;> simp [name, isVariadic] at hname hvariadic ⊢
  exact hvariadic

end Frame

def frame? : FieldType → Option Frame
  | .list _ => some .list
  | .set _ => some .set
  | .tuple _ variadic => some (.tuple variadic)
  | .dict _ _ => some .dict
  | .optional _ => some .optional
  | .union _ => some .union
  | _ => none

def parts : FieldType → List FieldType
  | .list item => [item]
  | .set item => [item]
  | .tuple items _ => items
  | .dict key value => [key, value]
  | .optional inner => [inner]
  | .union members => members
  | _ => []

section

variable {t u : FieldType} {f g : Frame}

theorem build_parts (h : t.frame? = some f) : f.build t.parts = t := by
  cases t <;> cases h <;> rfl

theorem sizeOf_parts {a : FieldType} (h : a ∈ t.parts) : sizeOf a < sizeOf t := by
  cases t with
  | list item =>
      rw [List.mem_singleton.1 h]
      simp
  | set item =>
      rw [List.mem_singleton.1 h]
      simp
  | optional inner =>
      rw [List.mem_singleton.1 h]
      simp
  | dict key value =>
      have hmem : a = key ∨ a = value := by simpa [parts] using h
      rw [dict.sizeOf_spec]
      rcases hmem with rfl | rfl
      · omega
      · omega
  | tuple items variadic =>
      have hitem := List.sizeOf_lt_of_mem (show a ∈ items from h)
      rw [tuple.sizeOf_spec]
      omega
  | union members =>
      have hmember := List.sizeOf_lt_of_mem (show a ∈ members from h)
      rw [union.sizeOf_spec]
      omega
  | _ => cases h

/-- Induction on types, the parts of a type being the smaller ones. -/
theorem parts_induction {motive : FieldType → Prop}
    (step : ∀ t, (∀ a ∈ t.parts, motive a) → motive t) (t : FieldType) : motive t :=
  step t fun a ha =>
    have := sizeOf_parts ha
    parts_induction step a
termination_by sizeOf t

theorem labels_eq_map (types : List FieldType) : labels types = types.map label := by
  induction types with
  | nil => rfl
  | cons t rest ih => rw [labels, ih, List.map_cons]

/-- The texts that stand in the brackets of a type. -/
def texts (f : Frame) (parts : List FieldType) : List (List Char) :=
  (parts.map fun a => a.label.toList) ++ if f.isVariadic then ["...".toList] else []

theorem bracketed_toList (name : String) (items : List String) :
    (bracketed name items).toList = name.toList ++ '[' :: joined (items.map String.toList) ++ [']'] := by
  simp [bracketed, joined, String.toList_append, String.toList_intercalate]

theorem joined_append_singleton {front : List (List Char)} {last : List Char} (h : front ≠ []) :
    joined (front ++ [last]) = joined [joined front, last] := by
  -- The last text is joined after all others, which are then one text.
  induction front with
  | nil => exact absurd rfl h
  | cons p rest ih =>
      cases rest with
      | nil => simp [joined]
      | cons q rest =>
          have hnext := ih (List.cons_ne_nil _ _)
          rw [List.cons_append, joined_cons, joined_cons, joined_cons]
          have hafter : afterFirst (q :: rest ++ [last]) = ',' :: ' ' :: joined (q :: rest ++ [last]) := rfl
          have hafter' : afterFirst (q :: rest) = ',' :: ' ' :: joined (q :: rest) := rfl
          rw [hafter, hafter', hnext, joined_cons]
          simp

theorem label_toList (h : t.frame? = some f) (hparts : f.isVariadic = true → t.parts ≠ []) :
    t.label.toList = f.name.toList ++ '[' :: joined (texts f t.parts) ++ [']'] := by
  cases t with
  | tuple items variadic =>
      cases h
      cases variadic with
      | false =>
          rw [label, bracketed_toList, labels_eq_map]
          simp [texts, Frame.name, Frame.isVariadic, parts, Function.comp_def]
      | true =>
          -- The ellipsis is joined to the texts of the items, of which there are some.
          have hitems : (items.map fun a => a.label.toList) ≠ [] := by
            have hne : items ≠ [] := hparts rfl
            simpa using hne
          rw [label, bracketed_toList, labels_eq_map]
          simp only [texts, Frame.isVariadic, parts, if_true, joined_append_singleton hitems]
          simp [Frame.name, joined, String.toList_intercalate, Function.comp_def]
  | union members =>
      cases h
      rw [label, bracketed_toList, labels_eq_map]
      simp [texts, Frame.name, Frame.isVariadic, parts, Function.comp_def]
  | list item =>
      cases h
      rw [label, bracketed_toList]
      rfl
  | set item =>
      cases h
      rw [label, bracketed_toList]
      rfl
  | dict key value =>
      cases h
      rw [label, bracketed_toList]
      rfl
  | optional inner =>
      cases h
      rw [label, bracketed_toList]
      rfl
  | _ => cases h

end

/-! ## Legible types -/

/-- The text of a leaf: it can be told where it ends, and that it is a leaf. -/
structure IsLegibleText (text : String) : Prop where
  isSealed : Sealed text.toList
  nonempty : text ≠ ""
  notEllipsis : text ≠ "..."
  bare : ∀ (f : Frame) (rest : List Char), text.toList ≠ f.name.toList ++ '[' :: rest

/-- A type whose leaves have texts that can be told apart from the text around them. -/
inductive Legible : FieldType → Prop
  | leaf {t : FieldType} : t.frame? = none → IsLegibleText t.label → Legible t
  | node {t : FieldType} {f : Frame} : t.frame? = some f → (f.isVariadic = true → t.parts ≠ []) →
      (∀ a ∈ t.parts, Legible a) → Legible t

/-- Types that have different leaves with the same text at the same place. -/
inductive Namesakes : FieldType → FieldType → Prop
  | leaf {t u : FieldType} : t.frame? = none → u.frame? = none → t ≠ u → t.label = u.label →
      Namesakes t u
  | part {t u a b : FieldType} : t.frame? = u.frame? → (a, b) ∈ t.parts.zip u.parts →
      Namesakes a b → Namesakes t u

theorem Namesakes.ne {t u : FieldType} (h : Namesakes t u) : t ≠ u := by
  induction h with
  | leaf _ _ hne _ => exact hne
  | @part t u a b _ hmem _ ih =>
      rintro rfl
      -- Equal types have equal parts at equal places.
      have hsame : ∀ (items : List FieldType), ∀ pair ∈ items.zip items, pair.1 = pair.2 := by
        intro items
        induction items with
        | nil => exact fun pair hpair => absurd hpair List.not_mem_nil
        | cons item rest ih =>
            intro pair hpair
            rcases List.mem_cons.1 hpair with rfl | hpair
            · rfl
            · exact ih pair hpair
      exact ih (hsame t.parts (a, b) hmem)

section

variable {t u : FieldType} {f g : Frame}

theorem forall_texts {P : List Char → Prop} {parts : List FieldType}
    (hparts : ∀ a ∈ parts, P a.label.toList) (hdots : P "...".toList) : ∀ p ∈ texts f parts, P p := by
  intro p hp
  rcases List.mem_append.1 hp with hp | hp
  · rcases List.mem_map.1 hp with ⟨a, ha, rfl⟩
    exact hparts a ha
  · cases hv : f.isVariadic with
    | false => simp [hv] at hp
    | true =>
        have hlast : p = "...".toList := by simpa [hv] using hp
        rw [hlast]
        exact hdots

/-- The text of a legible type is sealed, and it is not that of an ellipsis. -/
theorem Legible.label_spec (h : Legible t) :
    Sealed t.label.toList ∧ t.label.toList ≠ [] ∧ t.label.toList ≠ "...".toList := by
  induction h with
  | leaf _ htext =>
      refine ⟨htext.isSealed, ?_, ?_⟩
      · exact fun hempty => htext.nonempty (String.toList_injective hempty)
      · exact fun hdots => htext.notEllipsis (String.toList_injective hdots)
  | @node t f hframe hvariadic _ ih =>
      have htexts : ∀ p ∈ texts f t.parts, Sealed p :=
        forall_texts (fun a ha => (ih a ha).1) (by decide)
      rw [label_toList hframe hvariadic]
      refine ⟨?_, ?_, ?_⟩
      · rw [List.append_assoc]
        exact f.ordinary_name.isSealed.append (enclosed_joined htexts).bracketed
      · simp
      · intro hdots
        -- One ends with a bracket, and the other one with a dot.
        have hlast := congrArg List.getLast? hdots
        rw [List.getLast?_concat] at hlast
        exact absurd hlast (by decide)

theorem Legible.part (h : Legible t) : Sealed t.label.toList ∧ t.label.toList ≠ [] :=
  ⟨h.label_spec.1, h.label_spec.2.1⟩

theorem map_label_of_toList {types others : List FieldType}
    (h : (types.map fun a => a.label.toList) = others.map fun a => a.label.toList) :
    types.map label = others.map label := by
  have hback : ∀ items : List FieldType,
      (items.map fun a => a.label.toList).map String.ofList = items.map label := by
    intro items
    simp [Function.comp_def]
  calc
    types.map label = (types.map fun a => a.label.toList).map String.ofList := (hback types).symm
    _ = (others.map fun a => a.label.toList).map String.ofList := by rw [h]
    _ = others.map label := hback others

/-- Legible types with parts and with the same text have the same frame, and parts with the same texts. -/
theorem Legible.parts_of_label (ht : t.frame? = some f) (htv : f.isVariadic = true → t.parts ≠ [])
    (htl : ∀ a ∈ t.parts, Legible a) (hu : u.frame? = some g)
    (huv : g.isVariadic = true → u.parts ≠ []) (hul : ∀ a ∈ u.parts, Legible a)
    (h : t.label = u.label) : f = g ∧ t.parts.map label = u.parts.map label := by
  have htext := congrArg String.toList h
  rw [label_toList ht htv, label_toList hu huv] at htext
  rcases eq_of_append_bracket f.ordinary_name.bracket_not_mem g.ordinary_name.bracket_not_mem
    (List.append_cancel_right htext) with ⟨hname, hjoined⟩
  have hparts : ∀ {v : FieldType} {k : Frame}, (∀ a ∈ v.parts, Legible a) →
      ∀ p ∈ texts k v.parts, Sealed p ∧ p ≠ [] :=
    fun hv => forall_texts (fun a ha => (hv a ha).part) (by decide)
  -- The texts in the brackets are sealed, so that they are the same on both sides.
  have htexts : texts f t.parts = texts g u.parts :=
    joined_injective (hparts htl) (hparts hul) hjoined
  -- The ellipsis is the text of no part, so that it stands in both texts or in none.
  have hdots : ∀ {v : FieldType} {front : List (List Char)}, (∀ a ∈ v.parts, Legible a) →
      (v.parts.map fun a => a.label.toList) ≠ front ++ ["...".toList] := by
    intro v front hv heq
    have hmem : "...".toList ∈ v.parts.map fun a => a.label.toList := by
      rw [heq]
      exact List.mem_append_right _ List.mem_cons_self
    rcases List.mem_map.1 hmem with ⟨a, ha, hlabel⟩
    exact (hv a ha).label_spec.2.2 hlabel
  have hboth : f.isVariadic = g.isVariadic ∧
      (t.parts.map fun a => a.label.toList) = u.parts.map fun a => a.label.toList := by
    unfold texts at htexts
    cases hf : f.isVariadic with
    | true =>
        cases hg : g.isVariadic with
        | true =>
            simp only [hf, hg, if_true] at htexts
            exact ⟨rfl, List.append_cancel_right htexts⟩
        | false =>
            simp only [hf, hg, if_true, Bool.false_eq_true, if_false, List.append_nil] at htexts
            exact absurd htexts.symm (hdots hul)
    | false =>
        cases hg : g.isVariadic with
        | true =>
            simp only [hf, hg, if_true, Bool.false_eq_true, if_false, List.append_nil] at htexts
            exact absurd htexts (hdots htl)
        | false =>
            simp only [hf, hg, Bool.false_eq_true, if_false, List.append_nil] at htexts
            exact ⟨rfl, htexts⟩
  exact ⟨Frame.eq_of_name (String.toList_injective hname) hboth.1, map_label_of_toList hboth.2⟩

/-- A legible leaf has another text than a type with parts. -/
theorem IsLegibleText.ne_label (ht : IsLegibleText t.label) (hu : u.frame? = some g)
    (huv : g.isVariadic = true → u.parts ≠ []) : t.label ≠ u.label := by
  intro h
  have htext := congrArg String.toList h
  rw [label_toList hu huv, List.append_assoc] at htext
  exact ht.bare g _ htext

theorem Legible.eq_of_not_namesakes (ht : Legible t) (hu : Legible u) (h : t.label = u.label)
    (hdistinct : ¬ Namesakes t u) : t = u := by
  -- Leaves with the same text are equal, since they would be namesakes otherwise. Types with parts have
  -- the same frame, and their parts are equal by induction.
  induction t using parts_induction generalizing u with
  | step t ih =>
      cases ht with
      | leaf htf htext =>
          cases hu with
          | leaf huf _ =>
              by_contra hne
              exact hdistinct (.leaf htf huf hne h)
          | node huf huv _ => exact absurd h (htext.ne_label huf huv)
      | node htf htv htl =>
          cases hu with
          | leaf _ hutext => exact absurd h.symm (hutext.ne_label htf htv)
          | node huf huv hul =>
              rcases Legible.parts_of_label htf htv htl huf huv hul h with ⟨rfl, hlabels⟩
              have hparts : t.parts = u.parts := by
                have hlength : t.parts.length = u.parts.length := by
                  simpa using congrArg List.length hlabels
                refine List.ext_getElem hlength ?_
                intro i hi hi'
                have hlabel : t.parts[i].label = u.parts[i].label := by
                  have hat := congrArg (fun texts => texts[i]?) hlabels
                  simpa [hi, hi'] using hat
                refine ih _ (List.getElem_mem hi) (htl _ (List.getElem_mem hi))
                  (hul _ (List.getElem_mem hi')) hlabel ?_
                intro hnamesakes
                refine hdistinct (.part (htf.trans huf.symm) ?_ hnamesakes)
                -- Parts that are namesakes stand at the same place.
                have hzip : i < (t.parts.zip u.parts).length := by
                  rw [List.length_zip]
                  exact lt_min hi hi'
                exact List.mem_iff_getElem.2 ⟨i, hzip, List.getElem_zip⟩
              calc
                t = Frame.build _ t.parts := (build_parts htf).symm
                _ = Frame.build _ u.parts := by rw [hparts]
                _ = u := build_parts huf

/-- The text of a legible type shows everything but which of several namesakes a leaf is. -/
theorem Legible.eq_iff (ht : Legible t) (hu : Legible u) (h : t.label = u.label) :
    t = u ↔ ¬ Namesakes t u := by
  constructor
  · exact fun heq hnamesakes => hnamesakes.ne heq
  · exact ht.eq_of_not_namesakes hu h

end

/-! ## Texts that are legible -/

section

variable {name : String} {items : List String}

theorem IsLegibleText.of_ordinary (hordinary : Ordinary name.toList) (hempty : name ≠ "")
    (hdots : name ≠ "...") : IsLegibleText name := by
  refine ⟨hordinary.isSealed, hempty, hdots, ?_⟩
  intro f rest htext
  refine hordinary.bracket_not_mem ?_
  rw [htext]
  exact List.mem_append_right _ List.mem_cons_self

/-- Sealed parts in brackets are a legible text after a name that is not that of a frame. -/
theorem IsLegibleText.bracketed (hordinary : Ordinary name.toList)
    (hframe : ∀ f : Frame, name ≠ f.name) (hitems : ∀ item ∈ items, Sealed item.toList) :
    IsLegibleText (bracketed name items) := by
  have hsealed : ∀ p ∈ items.map String.toList, Sealed p := by
    intro p hp
    rcases List.mem_map.1 hp with ⟨item, hitem, rfl⟩
    exact hitems item hitem
  refine ⟨?_, ?_, ?_, ?_⟩
  · rw [bracketed_toList, List.append_assoc]
    exact hordinary.isSealed.append (enclosed_joined hsealed).bracketed
  · intro hempty
    have htext := congrArg String.toList hempty
    rw [bracketed_toList] at htext
    simp at htext
  · intro hdots
    have hlast := congrArg (fun text => text.toList.getLast?) hdots
    simp only [bracketed_toList, List.getLast?_concat] at hlast
    exact absurd hlast (by decide)
  · intro f rest htext
    rw [bracketed_toList, List.append_assoc] at htext
    exact hframe f (String.toList_injective
      (eq_of_append_bracket hordinary.bracket_not_mem f.ordinary_name.bracket_not_mem htext).1)

theorem hexDigit_spec (n : Nat) : Json.hexDigit n ≠ '"' ∧ Json.hexDigit n ≠ '\\' := by
  have hall : ∀ k < 16, Json.hexDigit k ≠ '"' ∧ Json.hexDigit k ≠ '\\' := by decide
  have hdigit : Json.hexDigit n = Json.hexDigit (n % 16) := by
    unfold Json.hexDigit
    rw [Nat.mod_mod]
  rw [hdigit]
  exact hall (n % 16) (Nat.mod_lt n (by decide))

/-- The characters of a string stay inside of its quotation marks. -/
theorem sealed_quoted (s : String) : Sealed (Json.quoted s).toList := by
  -- Every character is written so that the string goes on after it.
  have hescaped : ∀ ch : Char,
      Cursor.read? ⟨0, .quoted⟩ (Json.escapeChar ch) = some ⟨0, .quoted⟩ := by
    intro ch
    unfold Json.escapeChar
    split
    all_goals first | rfl | skip
    next hquote hbackslash _ _ _ _ _ =>
      split
      · have hcode : ∀ c ∈ ['0', '0', Json.hexDigit (ch.toNat / 16), Json.hexDigit ch.toNat],
            c ≠ '"' ∧ c ≠ '\\' := by
          have hhigh := hexDigit_spec (ch.toNat / 16)
          have hlow := hexDigit_spec ch.toNat
          simpa using ⟨hhigh, hlow⟩
        have hescape : Cursor.read? ⟨0, .quoted⟩ ['\\', 'u'] = some ⟨0, .quoted⟩ := rfl
        exact (Cursor.read?_append hescape).trans (Cursor.read?_quoted hcode)
      · refine Cursor.read?_quoted fun c hc => ?_
        rw [List.mem_singleton.1 hc]
        exact ⟨hquote, hbackslash⟩
  -- So do the characters one after the other, up to the last quotation mark.
  have hinner : ∀ text : List Char,
      Cursor.read? ⟨0, .quoted⟩ (text.flatMap Json.escapeChar) = some ⟨0, .quoted⟩ := by
    intro text
    induction text with
    | nil => rfl
    | cons ch rest ih =>
        rw [List.flatMap_cons]
        exact (Cursor.read?_append (hescaped ch)).trans ih
  have htext : (Json.quoted s).toList = '"' :: (s.toList.flatMap Json.escapeChar ++ ['"']) := by
    simp [Json.quoted]
  rw [htext]
  exact (Cursor.read?_cons rfl).trans ((Cursor.read?_append (hinner s.toList)).trans rfl)

theorem sealed_toString_int (n : Int) : Sealed (toString n).toList := by
  -- The digits are ordinary characters, and so is the sign.
  have hdigits : ∀ k : Nat, Ordinary (toString k).toList := by
    intro k ch hch
    have hdigit : ch.isDigit := Nat.isDigit_of_mem_toDigits (by decide) (by decide)
      (show ch ∈ Nat.toDigits 10 k by simpa [Nat.toString_eq_repr, Nat.repr] using hch)
    refine ⟨?_, ?_, ?_, ?_⟩
    all_goals
      rintro rfl
      exact absurd hdigit (by decide)
  cases n with
  | ofNat k => exact (hdigits k).isSealed
  | negSucc k =>
      have htext : (toString (Int.negSucc k)).toList = '-' :: (toString (k + 1)).toList := by
        simp [toString, Int.repr]
      rw [htext]
      refine Ordinary.isSealed fun ch hch => ?_
      rcases List.mem_cons.1 hch with rfl | hch
      · decide
      · exact hdigits _ ch hch

theorem sealed_literalValues {params : List TypeHint} :
    ∀ {values nullable}, literalValues? params = some (values, nullable) →
      ∀ v ∈ values, Sealed v.compact.toList := by
  induction params with
  | nil =>
      intro values nullable h
      cases h
      exact fun v hv => absurd hv List.not_mem_nil
  | cons hint rest ih =>
      intro values nullable h
      unfold literalValues? at h
      cases hrest : literalValues? rest with
      | none =>
          rw [hrest] at h
          cases h
      | some more =>
          rcases more with ⟨more, nullable'⟩
          rw [hrest] at h
          -- The first value is written in front of the others.
          have hcons : ∀ value : Json, Sealed value.compact.toList →
              ∀ v ∈ value :: more, Sealed v.compact.toList := by
            intro value hvalue v hv
            rcases List.mem_cons.1 hv with rfl | hv
            · exact hvalue
            · exact ih hrest v hv
          dsimp only at h
          split at h
          · cases h
            exact hcons _ (sealed_quoted _)
          · cases h
            exact hcons _ (sealed_toString_int _)
          · cases h
            next value => cases value <;> exact hcons _ (by decide)
          · cases h
            exact ih hrest
          · cases h

theorem legible_literal {params : List TypeHint} {values : List Json} {nullable : Bool}
    (h : literalValues? params = some (values, nullable)) : Legible (.literal values) := by
  refine .leaf rfl ?_
  rw [label]
  refine IsLegibleText.bracketed (by decide) ?_ ?_
  · intro f
    cases f <;> simp [Frame.name]
  · intro item hitem
    rcases List.mem_map.1 hitem with ⟨v, hv, rfl⟩
    exact sealed_literalValues h v hv

/-- The name of a legible application is legible, so that it can be the argument of another one. -/
theorem legible_instance {generic : DefinitionId} {types : List FieldType}
    (hname : IsLegibleText generic.name) (hordinary : Ordinary generic.name.toList)
    (hframe : ∀ f : Frame, generic.name ≠ f.name) (htypes : ∀ t ∈ types, Legible t) :
    Legible (.ref (instanceId generic types)) := by
  refine .leaf rfl ?_
  rw [label]
  unfold instanceId
  cases types with
  | nil => exact hname
  | cons t rest =>
      refine IsLegibleText.bracketed hordinary hframe ?_
      intro item hitem
      rcases List.mem_map.1 hitem with ⟨a, ha, rfl⟩
      exact (htypes a ha).label_spec.1

end

end FieldType
end WireTypes
