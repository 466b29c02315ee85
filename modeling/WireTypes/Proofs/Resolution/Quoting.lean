import Mathlib.Logic.Relation
import WireTypes.Proofs.Python.QuotedText
import WireTypes.Proofs.Resolution.Instantiation

/-!
# Quoting — annotations in quotation marks

A part of an annotation may be written in quotation marks, and parts of that again. Three readings look
into an annotation, and each of them reads the text in quotation marks again: for the type, for the type
variables, and for whether it is a class variable.

- `QuoteStep`: one part of an annotation is put in quotation marks;
- `Within parts steps`: reading ends within a number of steps;
- `QuoteStep.resolveType`, `QuoteStep.isClassVar`, `QuoteStep.typeVars`: one step changes nothing;
- `quoting_changes_nothing`: neither does any number of them.
-/

namespace WireTypes
namespace Resolution

open Discovery Python

/-! ## Bounded readings -/

/-- Parts, parts of these and so on end within a number of steps. -/
def Within {α : Type} (parts : α → List α) : Nat → α → Prop
  | 0, _ => False
  | steps + 1, a => ∀ b ∈ parts a, Within parts steps b

theorem Within.mono {α : Type} {parts : α → List α} {steps more : Nat} {a : α}
    (h : Within parts steps a) (hle : steps ≤ more) : Within parts more a := by
  induction steps generalizing more a with
  | zero => exact absurd h id
  | succ steps ih =>
      cases more with
      | zero => cases hle
      | succ more => exact fun b hb => ih (h b hb) (Nat.le_of_succ_le_succ hle)

theorem Within.parts {α : Type} {parts : α → List α} {steps : Nat} {a : α}
    (h : Within parts steps a) : ∃ left, steps = left + 1 ∧ ∀ b ∈ parts a, Within parts left b := by
  cases steps with
  | zero => exact absurd h id
  | succ left => exact ⟨left, rfl, h⟩

/-- What holds of related elements, where it is known of those on the right. -/
theorem forall₂_of_forall_right {α β : Type} {R S : α → β → Prop} {P : α → Prop} {Q : β → Prop}
    {as : List α} {bs : List β} (h : List.Forall₂ R as bs) (hbs : ∀ b ∈ bs, Q b)
    (hR : ∀ a b, R a b → Q b → P a ∧ S a b) : (∀ a ∈ as, P a) ∧ List.Forall₂ S as bs := by
  induction h with
  | nil => exact ⟨fun _ hmem => absurd hmem List.not_mem_nil, .nil⟩
  | @cons a b as bs hab _ ih =>
      rcases List.forall_mem_cons.1 hbs with ⟨hb, hrest⟩
      rcases hR a b hab hb with ⟨hP, hS⟩
      rcases ih hrest with ⟨hPs, hSs⟩
      exact ⟨List.forall_mem_cons.2 ⟨hP, hPs⟩, .cons hS hSs⟩

theorem forall₂_replace {α : Type} {R : α → α → Prop} (hrefl : ∀ a, R a a) (before after : List α)
    {a b : α} (h : R a b) : List.Forall₂ R (before ++ a :: after) (before ++ b :: after) := by
  have hsame : ∀ as : List α, List.Forall₂ R as as := fun as =>
    List.forall₂_same.2 fun a _ => hrefl a
  exact List.rel_append (hsame before) (.cons h (hsame after))

theorem rel_getElem? {α β : Type} {R : α → β → Prop} {as : List α} {bs : List β}
    (h : List.Forall₂ R as bs) (i : Nat) : Option.Rel R as[i]? bs[i]? := by
  induction h generalizing i with
  | nil => exact .none
  | cons hfirst _ ih =>
      cases i with
      | zero => exact .some hfirst
      | succ i => exact ih i

/-! ## The parts that are read -/

/-- The parameters of a container that are types. -/
def Container.readParams (params : List TypeHint) : Container → List TypeHint
  | .union => params
  | .tuple =>
      match params with
      | [item, .ellipsis] => [item]
      | _ => params
  | .dict => params.take 2
  | .literal => []
  | _ => params.take 1

namespace Program

/-- The annotations that are read for the type variables of one. -/
def varParts : TypeHint → List TypeHint
  | .subscript _ items => items
  | .union items => items
  | .list items => items
  | .str text =>
      match TypeHint.parse text with
      | .ok inner => [inner]
      | .error _ => []
  | _ => []

theorem typeVars_eq_flatMap (p : Program) (m : SourceModule) {hint : TypeHint}
    (h : ∀ name, hint ≠ .name name) (steps : Nat) :
    p.typeVars m (steps + 1) hint = (varParts hint).flatMap (p.typeVars m steps) := by
  unfold typeVars varParts
  cases hint with
  | name name => exact absurd rfl (h name)
  | str text =>
      dsimp only
      cases TypeHint.parse text with
      | ok inner => simp
      | error e => rfl
  | _ => rfl

/-- More steps than an annotation takes make no difference. -/
theorem typeVars_of_within (p : Program) (m : SourceModule) {steps : Nat} :
    ∀ {hint : TypeHint}, Within varParts steps hint → ∀ {more}, steps ≤ more →
      p.typeVars m more hint = p.typeVars m steps hint := by
  induction steps with
  | zero => exact fun h => absurd h id
  | succ steps ih =>
      intro hint h more hmore
      cases more with
      | zero => cases hmore
      | succ more =>
          by_cases hname : ∃ name, hint = .name name
          · rcases hname with ⟨name, rfl⟩
            rfl
          · have hother := fun name heq => hname ⟨name, heq⟩
            rw [p.typeVars_eq_flatMap m hother, p.typeVars_eq_flatMap m hother]
            exact List.flatMap_congr fun part hpart => ih (h part hpart) (Nat.le_of_succ_le_succ hmore)

end Program

namespace ClassifiedProgram

variable (c : ClassifiedProgram)

/-- The parameters of a name that are read as types. -/
def readParams (m : SourceModule) (base : String) (params : List TypeHint) : List TypeHint :=
  match c.resolve m base with
  | .external qualified =>
      match Container.named? (External.shortName qualified) with
      | some container => container.readParams params
      | none => []
  | .classDef id => if c.kind id = .genericModel then params else []
  | _ => []

/-- The annotations that are read for the type of one, each in its module. -/
def readParts : SourceModule × TypeHint → List (SourceModule × TypeHint)
  | (m, .name name) =>
      if name = "None" then []
      else
        match c.resolve m name with
        | .typeAlias home hint => [(home, hint)]
        | _ => []
  | (m, .str text) =>
      match TypeHint.parse text with
      | .ok inner => [(m, inner)]
      | .error _ => []
  | (m, .union members) => members.map (m, ·)
  | (m, .subscript base params) => (c.readParams m base params).map (m, ·)
  | _ => []

theorem readParts_of_parse (m : SourceModule) {text : String} {inner : TypeHint}
    (h : TypeHint.parse text = .ok inner) : c.readParts (m, .str text) = [(m, inner)] := by
  simp only [readParts, h]

theorem readParts_name {m : SourceModule} {name : String}
    (h : ∀ home hint, c.resolve m name ≠ .typeAlias home hint) : c.readParts (m, .name name) = [] := by
  cases hresolve : c.resolve m name with
  | typeAlias home hint => exact absurd hresolve (h home hint)
  | _ => simp [readParts, hresolve]

/-! ### Parameters -/

section

variable {c} {m : SourceModule} {base : String} {resolve resolve' : TypeHint → Resolving FieldType}
  {params params' : List TypeHint}

/-- Ellipses stand in the same places. -/
abbrev SameEllipses (params params' : List TypeHint) : Prop :=
  List.Forall₂ (fun hint hint' => hint = .ellipsis ↔ hint' = .ellipsis) params params'

theorem tuple_readParams_of_ne (h : ∀ item, params ≠ [item, .ellipsis]) :
    Container.readParams params .tuple = params := by
  unfold Container.readParams
  dsimp only
  split
  · exact absurd rfl (h _)
  · rfl

theorem forall₂_containerParams {R : TypeHint → TypeHint → Prop} (hellipsis : SameEllipses params params')
    (h : List.Forall₂ R params params') (container : Container) :
    List.Forall₂ R (container.readParams params) (container.readParams params') := by
  cases container with
  | union => exact h
  | dict => exact List.forall₂_take 2 h
  | literal => exact .nil
  | tuple =>
      by_cases hvariadic : ∃ item, params = [item, .ellipsis]
      · rcases (variadic_iff hellipsis).1 hvariadic with ⟨item', rfl⟩
        rcases hvariadic with ⟨item, rfl⟩
        exact .cons (List.forall₂_cons.1 h).1 .nil
      · have hother := hvariadic ∘ (variadic_iff hellipsis).2
        rwa [tuple_readParams_of_ne (not_exists.1 hvariadic),
          tuple_readParams_of_ne (not_exists.1 hother)]
  | _ => exact List.forall₂_take 1 h

theorem forall₂_readParams {R : TypeHint → TypeHint → Prop} (hellipsis : SameEllipses params params')
    (h : List.Forall₂ R params params') :
    List.Forall₂ R (c.readParams m base params) (c.readParams m base params') := by
  unfold readParams
  cases c.resolve m base with
  | external qualified =>
      dsimp only
      cases Container.named? (External.shortName qualified) with
      | some container => exact forall₂_containerParams hellipsis h container
      | none => exact .nil
  | classDef id =>
      dsimp only
      split
      · exact h
      · exact .nil
  | _ => exact .nil

/-- A parameter is read the same if all are up to its position. -/
theorem parameterAt_congr {count i : Nat} (hi : i < count)
    (h : List.Forall₂ (fun hint hint' => resolve hint = resolve' hint') (params.take count)
      (params'.take count)) : parameterAt resolve params i = parameterAt resolve' params' i := by
  have hrel := rel_getElem? h i
  rw [List.getElem?_take_of_lt hi, List.getElem?_take_of_lt hi] at hrel
  unfold parameterAt
  generalize params[i]? = first at hrel
  generalize params'[i]? = second at hrel
  cases hrel with
  | none => rfl
  | some hsame => exact hsame

theorem mapM_congr (h : List.Forall₂ (fun hint hint' => resolve hint = resolve' hint') params params') :
    params.mapM resolve = params'.mapM resolve' := by
  induction h with
  | nil => rfl
  | cons hfirst _ ih => rw [List.mapM_cons, List.mapM_cons, hfirst, ih]

theorem container_congr {container : Container} (hellipsis : SameEllipses params params')
    (hvalues : container = .literal → params = params')
    (h : List.Forall₂ (fun hint hint' => resolve hint = resolve' hint') (container.readParams params)
      (container.readParams params')) :
    container.typeOf resolve base params = container.typeOf resolve' base params' := by
  have hone : ∀ {f : FieldType → FieldType},
      List.Forall₂ (fun hint hint' => resolve hint = resolve' hint') (params.take 1) (params'.take 1) →
        f <$> parameterAt resolve params 0 = f <$> parameterAt resolve' params' 0 :=
    fun h => congrArg _ (parameterAt_congr Nat.one_pos h)
  cases container with
  | optional => exact hone h
  | union => exact congrArg (FieldType.unionOf <$> ·) (mapM_congr h)
  | list => exact hone h
  | set => exact hone h
  | tuple =>
      by_cases hvariadic : ∃ item, params = [item, .ellipsis]
      · rcases (variadic_iff hellipsis).1 hvariadic with ⟨item', rfl⟩
        rcases hvariadic with ⟨item, rfl⟩
        have hitem : resolve item = resolve' item' := (List.forall₂_cons.1 h).1
        exact congrArg ((FieldType.tuple [·] true) <$> ·) hitem
      · have hother := hvariadic ∘ (variadic_iff hellipsis).2
        rw [tuple_readParams_of_ne (not_exists.1 hvariadic),
          tuple_readParams_of_ne (not_exists.1 hother)] at h
        rw [tuple_typeOf_of_ne base (not_exists.1 hvariadic),
          tuple_typeOf_of_ne base (not_exists.1 hother), mapM_congr h]
  | dict =>
      have hkey := parameterAt_congr Nat.two_pos h
      have hvalue := parameterAt_congr Nat.one_lt_two h
      simp only [Container.typeOf, hkey, hvalue]
  | literal => rw [Container.typeOf, Container.typeOf, hvalues rfl]
  | wrapper => exact parameterAt_congr Nat.one_pos h

theorem subscript_congr (hellipsis : SameEllipses params params')
    (hvalues : c.IsLiteral m base → params = params')
    (h : List.Forall₂ (fun hint hint' => resolve hint = resolve' hint') (c.readParams m base params)
      (c.readParams m base params')) :
    c.subscriptType resolve m base params = c.subscriptType resolve' m base params' := by
  unfold subscriptType
  unfold readParams at h
  cases hbase : c.resolve m base with
  | external qualified =>
      rw [hbase] at h
      dsimp only at h ⊢
      cases hcontainer : Container.named? (External.shortName qualified) with
      | some container =>
          rw [hcontainer] at h
          refine container_congr hellipsis (fun hliteral => hvalues ?_) h
          exact ⟨qualified, hbase, hliteral ▸ hcontainer⟩
      | none => rfl
  | classDef id =>
      rw [hbase] at h
      dsimp only at h ⊢
      cases hkind : c.kind id with
      | genericModel =>
          rw [if_pos hkind, if_pos hkind] at h
          exact congrArg (· >>= c.apply id) (mapM_congr h)
      | _ => rfl
  | _ => rfl

end

/-! ## More steps -/

theorem namedType_congr {expand expand' : SourceModule → TypeHint → Resolving FieldType}
    {m : SourceModule} {args : TypeArgs} {name : String}
    (h : ∀ home hint, c.resolve m name = .typeAlias home hint → expand home hint = expand' home hint) :
    c.namedType expand m args name = c.namedType expand' m args name := by
  unfold namedType
  cases hresolve : c.resolve m name with
  | typeAlias home hint => exact h home hint hresolve
  | _ => rfl

/-- More steps than an annotation takes make no difference. -/
theorem resolveType_of_within {args : TypeArgs} {steps : Nat} :
    ∀ {m : SourceModule} {hint : TypeHint}, Within c.readParts steps (m, hint) → ∀ {more}, steps ≤ more →
      c.resolveType more m args hint = c.resolveType steps m args hint := by
  induction steps with
  | zero => exact fun h => absurd h id
  | succ steps ih =>
      intro m hint h more hmore
      cases more with
      | zero => cases hmore
      | succ more =>
          have hle := Nat.le_of_succ_le_succ hmore
          unfold resolveType
          cases hint with
          | name name =>
              by_cases hnone : name = "None"
              · simp only [hnone, if_true]
              · simp only [hnone, if_false]
                refine c.namedType_congr fun home hint hresolve => ?_
                exact ih (h (home, hint) (by simp [readParts, hnone, hresolve])) hle
          | str text =>
              dsimp only
              cases hparse : TypeHint.parse text with
              | ok inner => exact ih (h (m, inner) (by simp [readParts, hparse])) hle
              | error e => rfl
          | union members =>
              refine congrArg (FieldType.unionOf <$> ·) (mapM_congr ?_)
              refine List.forall₂_same.2 fun member hmember => ih (h (m, member) ?_) hle
              exact List.mem_map_of_mem hmember
          | subscript base params =>
              refine subscript_congr (List.forall₂_same.2 fun _ _ => Iff.rfl) (fun _ => rfl) ?_
              refine List.forall₂_same.2 fun param hparam => ih (h (m, param) ?_) hle
              exact List.mem_map_of_mem hparam
          | _ => rfl

/-! ## Quotation marks -/

/-- One part of an annotation is put in quotation marks: itself, or a part of it that is neither an
ellipsis nor a value. Several members of a union are put in quotation marks together where the types of
the parameters are well-formed. -/
inductive QuoteStep (args : TypeArgs) (m : SourceModule) : TypeHint → TypeHint → Prop
  | whole {hint : TypeHint} {text : String} :
      hint ≠ .ellipsis → TypeHint.parse text = .ok hint → QuoteStep args m hint (.str text)
  | text {text text' : String} {hint hint' : TypeHint} :
      TypeHint.parse text = .ok hint → TypeHint.parse text' = .ok hint' →
        QuoteStep args m hint hint' → QuoteStep args m (.str text) (.str text')
  | subscript {base : String} {before after : List TypeHint} {hint hint' : TypeHint} :
      ¬ c.IsLiteral m base → QuoteStep args m hint hint' →
        QuoteStep args m (.subscript base (before ++ hint :: after))
          (.subscript base (before ++ hint' :: after))
  | member {before after : List TypeHint} {hint hint' : TypeHint} :
      QuoteStep args m hint hint' →
        QuoteStep args m (.union (before ++ hint :: after)) (.union (before ++ hint' :: after))
  | members {before part after : List TypeHint} {text : String} :
      args.HasFormed → part ≠ [] → TypeHint.parse text = .ok (.union part) →
        QuoteStep args m (.union (before ++ part ++ after)) (.union (before ++ .str text :: after))
  | item {before after : List TypeHint} {hint hint' : TypeHint} :
      QuoteStep args m hint hint' →
        QuoteStep args m (.list (before ++ hint :: after)) (.list (before ++ hint' :: after))

section

variable {c} {args : TypeArgs} {m : SourceModule} {e e' : TypeHint}

theorem QuoteStep.ne_ellipsis (h : c.QuoteStep args m e e') : e ≠ .ellipsis ∧ e' ≠ .ellipsis := by
  cases h with
  | whole hne _ => exact ⟨hne, nofun⟩
  | _ => exact ⟨nofun, nofun⟩

/-! ### Types -/

theorem always_length_mapM {α β : Type} (f : α → Resolving β) (as : List α) :
    Always (fun bs => bs.length = as.length) (as.mapM f) := by
  induction as with
  | nil => exact .pure rfl
  | cons a rest ih =>
      rw [List.mapM_cons]
      have hall : Always (fun _ : β => True) (f a) := fun _ => trivial
      exact hall.bind fun b _ => ih.bind fun bs hbs => .pure (congrArg (· + 1) hbs)

/-- A member that is read as the union of others stands for them. -/
theorem unionOf_mapM_nest {read : TypeHint → Resolving FieldType} {quoted : TypeHint}
    {before part after : List TypeHint} (hflat : ∀ hint, Always FieldType.IsFlat (read hint))
    (hne : part ≠ []) (hquoted : read quoted = FieldType.unionOf <$> part.mapM read) :
    FieldType.unionOf <$> (before ++ quoted :: after).mapM read =
      FieldType.unionOf <$> (before ++ part ++ after).mapM read := by
  funext s
  let first := before.mapM read s
  let inner := part.mapM read first.2
  let last := after.mapM read inner.2
  have hleft : (FieldType.unionOf <$> (before ++ quoted :: after).mapM read) s =
      (FieldType.unionOf (first.1 ++ FieldType.unionOf inner.1 :: last.1), last.2) := by
    rw [List.mapM_append, List.mapM_cons, hquoted]
    rfl
  have hright : (FieldType.unionOf <$> (before ++ part ++ after).mapM read) s =
      (FieldType.unionOf (first.1 ++ inner.1 ++ last.1), last.2) := by
    rw [List.mapM_append, List.mapM_append]
    rfl
  rw [hleft, hright, FieldType.unionOf_nest]
  · intro hnil
    have hlength : inner.1.length = part.length := always_length_mapM read part first.2
    rw [hnil] at hlength
    exact hne (List.length_eq_zero_iff.1 hlength.symm)
  · intro t ht
    rcases List.mem_append.1 ht with ht | ht
    · rcases List.mem_append.1 ht with ht | ht
      · exact Always.mapM hflat before s t ht
      · exact Always.mapM hflat part first.2 t ht
    · exact Always.mapM hflat after inner.2 t ht

theorem resolveType_of_parse {text : String} {inner : TypeHint} (h : TypeHint.parse text = .ok inner)
    (steps : Nat) :
    c.resolveType (steps + 1) m args (.str text) = c.resolveType steps m args inner := by
  simp only [ClassifiedProgram.resolveType, h]

theorem within_of_parse {text : String} {inner : TypeHint} {steps : Nat}
    (h : TypeHint.parse text = .ok inner) (hwithin : Within c.readParts (steps + 1) (m, .str text)) :
    Within c.readParts steps (m, inner) := hwithin (m, inner) (by simp [readParts, h])

/-- One of several annotations is another one, which is read the same. -/
theorem readSame_of_replaced {steps : Nat} {params params' : List TypeHint} {hint hint' : TypeHint}
    (hread : Within c.readParts steps (m, hint') → Within c.readParts steps (m, hint) ∧
      c.resolveType steps m args hint' = c.resolveType steps m args hint)
    (h : List.Forall₂ (fun a b => a = b ∨ a = hint ∧ b = hint') params params')
    (hwithin : ∀ b ∈ params'.map (m, ·), Within c.readParts steps b) :
    (∀ b ∈ params.map (m, ·), Within c.readParts steps b) ∧
      List.Forall₂ (fun a b => c.resolveType steps m args a = c.resolveType steps m args b) params
        params' := by
  have hright : ∀ b ∈ params', Within c.readParts steps (m, b) := fun b hb =>
    hwithin _ (List.mem_map_of_mem hb)
  have hpair : ∀ a b, a = b ∨ a = hint ∧ b = hint' → Within c.readParts steps (m, b) →
      Within c.readParts steps (m, a) ∧
        c.resolveType steps m args a = c.resolveType steps m args b := by
    rintro a b (rfl | ⟨rfl, rfl⟩) hb
    · exact ⟨hb, rfl⟩
    · exact ⟨(hread hb).1, (hread hb).2.symm⟩
  rcases forall₂_of_forall_right h hright hpair with ⟨hleft, hsame⟩
  refine ⟨fun b hb => ?_, hsame⟩
  rcases List.mem_map.1 hb with ⟨a, ha, rfl⟩
  exact hleft a ha

/-- The type stays the same, and reading takes a step more at most. -/
theorem QuoteStep.resolveType (h : c.QuoteStep args m e e') : ∀ {steps},
    Within c.readParts steps (m, e') → Within c.readParts steps (m, e) ∧
      c.resolveType steps m args e' = c.resolveType steps m args e := by
  have hreplaced : ∀ (before after : List TypeHint) (hint hint' : TypeHint),
      List.Forall₂ (fun a b => a = b ∨ a = hint ∧ b = hint') (before ++ hint :: after)
        (before ++ hint' :: after) := fun before after _ _ =>
    forall₂_replace (fun _ => .inl rfl) before after (.inr ⟨rfl, rfl⟩)
  induction h with
  | whole _ hparse =>
      intro steps hwithin
      rcases hwithin.parts with ⟨left, rfl, -⟩
      have hinner := within_of_parse hparse hwithin
      refine ⟨hinner.mono (Nat.le_succ _), ?_⟩
      rw [resolveType_of_parse hparse, c.resolveType_of_within hinner (Nat.le_succ _)]
  | text hparse hparse' _ ih =>
      intro steps hwithin
      rcases hwithin.parts with ⟨left, rfl, -⟩
      rcases ih (within_of_parse hparse' hwithin) with ⟨hinner, hsame⟩
      refine ⟨fun b hb => ?_, ?_⟩
      · obtain rfl : b = (m, _) := by simpa [readParts, hparse] using hb
        exact hinner
      · rw [resolveType_of_parse hparse, resolveType_of_parse hparse', hsame]
  | @subscript base before after hint hint' hliteral hstep ih =>
      intro steps hwithin
      rcases hwithin.parts with ⟨left, rfl, hparts⟩
      have hparams := hreplaced before after hint hint'
      have hellipses : SameEllipses (before ++ hint :: after) (before ++ hint' :: after) := by
        refine hparams.imp ?_
        rintro a b (rfl | ⟨rfl, rfl⟩)
        · rfl
        · exact iff_of_false hstep.ne_ellipsis.1 hstep.ne_ellipsis.2
      rcases readSame_of_replaced ih (forall₂_readParams hellipses hparams) hparts with
        ⟨hleft, hsame⟩
      exact ⟨hleft, (subscript_congr hellipses (fun h => absurd h hliteral) hsame).symm⟩
  | @member before after hint hint' hstep ih =>
      intro steps hwithin
      rcases hwithin.parts with ⟨left, rfl, hparts⟩
      rcases readSame_of_replaced ih (hreplaced before after hint hint') hparts with ⟨hleft, hsame⟩
      refine ⟨hleft, ?_⟩
      rw [resolveType_union, resolveType_union, mapM_congr hsame]
  | @members before part after text hargs hne hparse =>
      intro steps hwithin
      rcases hwithin.parts with ⟨left, rfl, hparts⟩
      have hquoted : Within c.readParts left (m, .str text) := hparts _ (by simp [readParts])
      rcases hquoted.parts with ⟨inside, rfl, -⟩
      have hunion := within_of_parse hparse hquoted
      rcases hunion.parts with ⟨deep, rfl, hdeep⟩
      have hle : deep ≤ deep + 1 + 1 := Nat.le_add_right deep 2
      constructor
      · intro b hb
        rcases List.mem_map.1 hb with ⟨hint, hhint, rfl⟩
        rcases List.mem_append.1 hhint with hhint | hhint
        · rcases List.mem_append.1 hhint with hhint | hhint
          · exact hparts _ (by simp [readParts, hhint])
          -- The members in quotation marks are read with fewer steps there.
          · exact (hdeep _ (List.mem_map_of_mem hhint)).mono hle
        · exact hparts _ (by simp [readParts, hhint])
      · rw [resolveType_union, resolveType_union]
        refine unionOf_mapM_nest (c.resolveType_flat hargs _ m) hne ?_
        rw [resolveType_of_parse hparse, resolveType_union]
        refine congrArg (FieldType.unionOf <$> ·) (mapM_congr (List.forall₂_same.2 fun hint hhint => ?_))
        exact (c.resolveType_of_within (hdeep _ (List.mem_map_of_mem hhint)) hle).symm
  | item _ _ =>
      intro steps hwithin
      rcases hwithin.parts with ⟨left, rfl, -⟩
      exact ⟨fun b hb => absurd hb List.not_mem_nil, rfl⟩

/-! ### Class variables -/

/-- Any number of steps is enough that is greater than the length of the text. -/
theorem isClassVarWithin_eq {length : Nat} :
    ∀ {hint : TypeHint}, (∀ text, hint = .str text → text.length < length) →
      c.isClassVarWithin m length hint = c.isClassVar m hint := by
  induction length using Nat.strong_induction_on with
  | _ length ih =>
      intro hint hlength
      cases hint with
      | str text =>
          have htext := hlength text rfl
          rcases Nat.exists_eq_succ_of_ne_zero (Nat.ne_zero_of_lt htext) with ⟨left, rfl⟩
          show c.isClassVarWithin m (left + 1) (.str text)
            = c.isClassVarWithin m (text.length + 1) (.str text)
          unfold isClassVarWithin
          cases hparse : TypeHint.parse text with
          | error e => rfl
          | ok inner =>
              -- What is written in the text is shorter than the text.
              have hinner : ∀ s, inner = .str s → s.length + 2 ≤ text.length := by
                rintro s rfl
                exact TypeHint.length_parse_str hparse
              have hleft := ih left (Nat.lt_succ_self left) fun s hs => by
                have := hinner s hs
                omega
              have hfirst := ih text.length htext fun s hs => by
                have := hinner s hs
                omega
              exact hleft.trans hfirst.symm
      | _ =>
          unfold isClassVar isClassVarWithin
          rfl

theorem isClassVar_of_parse {text : String} {inner : TypeHint} (h : TypeHint.parse text = .ok inner) :
    c.isClassVar m (.str text) = c.isClassVar m inner := by
  have hinner : ∀ s, inner = .str s → s.length < text.length := by
    rintro s rfl
    exact Nat.lt_of_lt_of_le (Nat.lt_add_of_pos_right Nat.two_pos) (TypeHint.length_parse_str h)
  rw [← isClassVarWithin_eq hinner]
  show c.isClassVarWithin m (text.length + 1) (.str text) = _
  simp only [isClassVarWithin, h]

theorem QuoteStep.isClassVar (h : c.QuoteStep args m e e') : c.isClassVar m e' = c.isClassVar m e := by
  induction h with
  | whole _ hparse => exact isClassVar_of_parse hparse
  | text hparse hparse' _ ih => rw [isClassVar_of_parse hparse, isClassVar_of_parse hparse', ih]
  | subscript _ _ => rfl
  | member _ => rfl
  | members _ _ _ => rfl
  | item _ => rfl

/-! ### Type variables -/

/-- One of several annotations is another one, with the same type variables. -/
theorem varsSame_of_replaced {p : Program} {steps : Nat} {before after : List TypeHint}
    {hint hint' : TypeHint}
    (hread : Within Program.varParts steps hint' → Within Program.varParts steps hint ∧
      p.typeVars m steps hint' = p.typeVars m steps hint)
    (hwithin : ∀ b ∈ before ++ hint' :: after, Within Program.varParts steps b) :
    (∀ b ∈ before ++ hint :: after, Within Program.varParts steps b) ∧
      (before ++ hint' :: after).flatMap (p.typeVars m steps)
        = (before ++ hint :: after).flatMap (p.typeVars m steps) := by
  rw [List.forall_mem_append, List.forall_mem_cons] at hwithin ⊢
  rcases hwithin with ⟨hbefore, hhint, hafter⟩
  rcases hread hhint with ⟨hinner, hsame⟩
  refine ⟨⟨hbefore, hinner, hafter⟩, ?_⟩
  rw [List.flatMap_append, List.flatMap_append, List.flatMap_cons, List.flatMap_cons, hsame]

theorem varParts_of_parse {text : String} {inner : TypeHint} (h : TypeHint.parse text = .ok inner) :
    Program.varParts (.str text) = [inner] := by
  simp only [Program.varParts, h]

/-- The type variables stay the same, and reading takes a step more at most. -/
theorem QuoteStep.typeVars (h : c.QuoteStep args m e e') {p : Program} : ∀ {steps},
    Within Program.varParts steps e' → Within Program.varParts steps e ∧
      p.typeVars m steps e' = p.typeVars m steps e := by
  have htext : ∀ {text : String} {inner : TypeHint} (_ : TypeHint.parse text = .ok inner) {steps},
      p.typeVars m (steps + 1) (.str text) = p.typeVars m steps inner := by
    intro text inner hparse steps
    rw [p.typeVars_eq_flatMap m (fun _ heq => by cases heq), varParts_of_parse hparse, List.flatMap_singleton]
  have hinside : ∀ {text : String} {inner : TypeHint} {steps}, TypeHint.parse text = .ok inner →
      (∀ b ∈ Program.varParts (.str text), Within Program.varParts steps b) →
        Within Program.varParts steps inner := by
    intro text inner steps hparse hparts
    rw [varParts_of_parse hparse] at hparts
    exact hparts _ (List.mem_singleton_self _)
  have hitems : ∀ {whole whole' hint hint' : TypeHint} {before after : List TypeHint},
      (∀ steps, p.typeVars m (steps + 1) whole
        = (before ++ hint :: after).flatMap (p.typeVars m steps)) →
      (∀ steps, p.typeVars m (steps + 1) whole'
        = (before ++ hint' :: after).flatMap (p.typeVars m steps)) →
      Program.varParts whole = before ++ hint :: after →
      Program.varParts whole' = before ++ hint' :: after →
      (∀ {steps}, Within Program.varParts steps hint' → Within Program.varParts steps hint ∧
        p.typeVars m steps hint' = p.typeVars m steps hint) →
      ∀ {steps}, Within Program.varParts steps whole' → Within Program.varParts steps whole ∧
        p.typeVars m steps whole' = p.typeVars m steps whole := by
    intro whole whole' hint hint' before after hwhole hwhole' hparts hparts' ih steps hwithin
    rcases hwithin.parts with ⟨left, rfl, hright⟩
    rw [hparts'] at hright
    rcases varsSame_of_replaced ih hright with ⟨hleft, hsame⟩
    refine ⟨?_, ?_⟩
    · show ∀ b ∈ Program.varParts whole, Within Program.varParts left b
      rwa [hparts]
    · rw [hwhole, hwhole', hsame]
  induction h with
  | whole _ hparse =>
      intro steps hwithin
      rcases hwithin.parts with ⟨left, rfl, hparts⟩
      have hinner := hinside hparse hparts
      refine ⟨hinner.mono (Nat.le_succ _), ?_⟩
      rw [htext hparse, p.typeVars_of_within m hinner (Nat.le_succ _)]
  | text hparse hparse' _ ih =>
      intro steps hwithin
      rcases hwithin.parts with ⟨left, rfl, hparts⟩
      rcases ih (hinside hparse' hparts) with ⟨hinner, hsame⟩
      constructor
      · show ∀ b ∈ Program.varParts (.str _), Within Program.varParts left b
        rw [varParts_of_parse hparse]
        exact List.forall_mem_singleton.2 hinner
      · rw [htext hparse, htext hparse', hsame]
  | subscript _ _ ih => exact hitems (fun _ => rfl) (fun _ => rfl) rfl rfl ih
  | member _ ih => exact hitems (fun _ => rfl) (fun _ => rfl) rfl rfl ih
  | @members before part after text _ _ hparse =>
      intro steps hwithin
      rcases hwithin.parts with ⟨left, rfl, hparts⟩
      have hquoted : Within Program.varParts left (.str text) :=
        hparts _ (List.mem_append_right _ List.mem_cons_self)
      rcases hquoted.parts with ⟨inside, rfl, hinner⟩
      rcases (hinside hparse hinner).parts with ⟨deep, rfl, hdeep⟩
      have hle : deep ≤ deep + 1 + 1 := Nat.le_add_right deep 2
      have hpart : p.typeVars m (deep + 1 + 1) (.str text)
          = part.flatMap (p.typeVars m (deep + 1 + 1)) := by
        rw [htext hparse]
        exact List.flatMap_congr fun hint hhint => (p.typeVars_of_within m (hdeep hint hhint) hle).symm
      constructor
      · intro b hb
        rcases List.mem_append.1 hb with hb | hb
        · rcases List.mem_append.1 hb with hb | hb
          · exact hparts b (List.mem_append_left _ hb)
          -- The members in quotation marks are read with fewer steps there.
          · exact (hdeep b hb).mono hle
        · exact hparts b (List.mem_append_right _ (List.mem_cons_of_mem _ hb))
      · show (before ++ .str text :: after).flatMap _ = (before ++ part ++ after).flatMap _
        rw [List.flatMap_append, List.flatMap_cons, hpart, List.flatMap_append, List.flatMap_append,
          List.append_assoc]
  | item _ ih => exact hitems (fun _ => rfl) (fun _ => rfl) rfl rfl ih

/-- Parts of an annotation may be written in quotation marks, and parts of these again. The annotation
is read as the same type and has the same type variables, as long as the steps are enough for it, and it
is a class variable as before. -/
theorem quoting_changes_nothing (h : Relation.ReflTransGen (c.QuoteStep args m) e e') :
    (∀ steps, Within c.readParts steps (m, e') →
      c.resolveType steps m args e' = c.resolveType steps m args e) ∧
    c.isClassVar m e' = c.isClassVar m e ∧
    ∀ steps, Within Program.varParts steps e' →
      c.modules.typeVars m steps e' = c.modules.typeVars m steps e := by
  induction h with
  | refl => exact ⟨fun _ _ => rfl, rfl, fun _ _ => rfl⟩
  | tail _ hstep ih =>
      rcases ih with ⟨htype, hclassVar, hvars⟩
      refine ⟨fun steps hwithin => ?_, hstep.isClassVar.trans hclassVar, fun steps hwithin => ?_⟩
      · rcases hstep.resolveType hwithin with ⟨hbefore, hsame⟩
        exact hsame.trans (htype steps hbefore)
      · rcases hstep.typeVars hwithin with ⟨hbefore, hsame⟩
        exact hsame.trans (hvars steps hbefore)

end

end ClassifiedProgram

namespace Boxes

/-- `Union[T, I, None]`, and the same with `"T|'I'"` for the first two members. -/
def plainUnion : TypeHint := .union [.name "T", .name "I", .name "None"]

def quotedUnion : TypeHint := .union [.str "T|'I'", .name "None"]

set_option maxRecDepth 100000 in
theorem parse_item : TypeHint.parse "I" = .ok (.name "I") := by cbv

set_option maxRecDepth 100000 in
theorem parse_members : TypeHint.parse "T|I" = .ok (.union [.name "T", .name "I"]) := by cbv

set_option maxRecDepth 100000 in
theorem parse_quotedMembers :
    TypeHint.parse "T|'I'" = .ok (.union [.name "T", .str "I"]) := by cbv

/-- The two members are put in quotation marks, and then the second one of them again. -/
theorem quoteSteps_union :
    Relation.ReflTransGen (boxes.QuoteStep boxArgs source) plainUnion quotedUnion := by
  have hmembers : boxes.QuoteStep boxArgs source plainUnion (.union [.str "T|I", .name "None"]) :=
    @ClassifiedProgram.QuoteStep.members boxes boxArgs source [] [.name "T", .name "I"] [.name "None"]
      "T|I" hasFormed_boxArgs (List.cons_ne_nil _ _) parse_members
  have hitem : boxes.QuoteStep boxArgs source (.name "I") (.str "I") := .whole nofun parse_item
  have hinner : boxes.QuoteStep boxArgs source (.union [.name "T", .name "I"])
      (.union [.name "T", .str "I"]) :=
    @ClassifiedProgram.QuoteStep.member boxes boxArgs source [.name "T"] [] _ _ hitem
  have htext := ClassifiedProgram.QuoteStep.text parse_members parse_quotedMembers hinner
  have hnested : boxes.QuoteStep boxArgs source (.union [.str "T|I", .name "None"]) quotedUnion :=
    @ClassifiedProgram.QuoteStep.member boxes boxArgs source [] [.name "None"] _ _ htext
  exact .tail (.single hmembers) hnested

theorem readWithin_quotedUnion : Within boxes.readParts 5 (source, quotedUnion) := by
  have hname : ∀ {name} {s : Symbol}, boxes.resolve source name = s →
      (∀ home hint, s ≠ .typeAlias home hint) → ∀ steps,
        Within boxes.readParts (steps + 1) (source, .name name) := by
    intro name s hresolve hs steps b hb
    rw [boxes.readParts_name (hresolve ▸ hs)] at hb
    exact absurd hb List.not_mem_nil
  have htext : ∀ {text inner steps}, TypeHint.parse text = .ok inner →
      Within boxes.readParts steps (source, inner) →
        Within boxes.readParts (steps + 1) (source, .str text) := by
    intro text inner steps hparse hinner b hb
    rw [boxes.readParts_of_parse source hparse, List.mem_singleton] at hb
    exact hb ▸ hinner
  have hunion : ∀ {members steps}, (∀ hint ∈ members, Within boxes.readParts steps (source, hint)) →
      Within boxes.readParts (steps + 1) (source, .union members) := by
    intro members steps hmembers b hb
    rcases List.mem_map.1 hb with ⟨hint, hhint, rfl⟩
    exact hmembers hint hhint
  refine hunion (List.forall_mem_cons.2 ⟨htext parse_quotedMembers ?_, ?_⟩)
  · refine hunion (List.forall_mem_cons.2 ⟨hname resolve_parameter nofun _, ?_⟩)
    exact List.forall_mem_singleton.2 (htext parse_item (hname resolve_item nofun _))
  · exact List.forall_mem_singleton.2 (hname resolve_none nofun _)

theorem varsWithin_quotedUnion : Within Program.varParts 5 quotedUnion := by
  simp [quotedUnion, Within, Program.varParts, parse_quotedMembers, parse_item]

end Boxes

theorem quoted_union_changes_nothing :
    Relation.ReflTransGen (Boxes.boxes.QuoteStep Boxes.boxArgs Boxes.source) Boxes.plainUnion
      Boxes.quotedUnion ∧
    Within Boxes.boxes.readParts 5 (Boxes.source, Boxes.quotedUnion) ∧
    Within Program.varParts 5 Boxes.quotedUnion ∧
    Boxes.boxes.resolveType 5 Boxes.source Boxes.boxArgs Boxes.quotedUnion
      = Boxes.boxes.resolveType 5 Boxes.source Boxes.boxArgs Boxes.plainUnion ∧
    Boxes.boxes.isClassVar Boxes.source Boxes.quotedUnion
      = Boxes.boxes.isClassVar Boxes.source Boxes.plainUnion ∧
    Boxes.boxes.modules.typeVars Boxes.source 5 Boxes.quotedUnion
      = Boxes.boxes.modules.typeVars Boxes.source 5 Boxes.plainUnion := by
  rcases ClassifiedProgram.quoting_changes_nothing Boxes.quoteSteps_union with
    ⟨htype, hclassVar, hvars⟩
  exact ⟨Boxes.quoteSteps_union, Boxes.readWithin_quotedUnion, Boxes.varsWithin_quotedUnion,
    htype 5 Boxes.readWithin_quotedUnion, hclassVar, hvars 5 Boxes.varsWithin_quotedUnion⟩

end Resolution
end WireTypes
