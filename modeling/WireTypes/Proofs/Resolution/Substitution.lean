import WireTypes.Proofs.Resolution.FormedTypes

/-!
# Substitution — annotations with types for their parameters

The types of type parameters come from outside an annotation. The same could be written into it: an
annotation that is read as the type, in place of each parameter.

- `Written`: an annotation with others written in place of its parameters. A member of a union may become
  several members;
- `relates_of_written`: the annotation is read with the types as the one with the types written into it
  is read without.
-/

namespace WireTypes
namespace Resolution

open Discovery Python

namespace ClassifiedProgram

variable (c : ClassifiedProgram)

/-! ## Annotations with others written into them -/

/-- A hint without types in it. -/
def isAtom : TypeHint → Bool
  | .int _ => true
  | .bool _ => true
  | .ellipsis => true
  | .call _ => true
  | .other _ => true
  | _ => false

/-- A name with parameters that are values. -/
def IsLiteral (m : SourceModule) (base : String) : Prop :=
  ∃ qualified, c.resolve m base = .external qualified ∧
    Container.named? (External.shortName qualified) = some .literal

/-- A type parameter, and its type. -/
structure Binds (args : TypeArgs) (m : SourceModule) (name : String) (ty : FieldType) : Prop where
  ordinary : name ≠ "None"
  isVariable : c.resolve m name = .typeVar
  bound : args.get? name = some ty

section

variable (args : TypeArgs) (steps : Nat) (within : SourceModule → TypeHint → TypeHint → Prop)
  (m : SourceModule)

/-- What is written for a member of a union: one member, or several ones for a parameter. -/
inductive MemberWritten : TypeHint → List TypeHint → Prop
  | one {hint written : TypeHint} : within m hint written → MemberWritten hint [written]
  | several {name : String} {ty : FieldType} {first : TypeHint} {rest : List TypeHint} :
      c.Binds args m name ty → steps ≠ 0 →
      Yields (c.resolveType (steps + 1) m [] (.union (first :: rest))) ty →
      MemberWritten (.name name) (first :: rest)

/-- What is written for an annotation, where `within` says so of the annotations inside it. -/
inductive WrittenStep : TypeHint → TypeHint → Prop
  | parameter {name : String} {ty : FieldType} {written : TypeHint} :
      c.Binds args m name ty → Yields (c.resolveType (steps + 1) m [] written) ty →
      written ≠ .ellipsis → WrittenStep (.name name) written
  /-- No types are written behind an alias. -/
  | name {name : String} :
      (c.resolve m name = .typeVar → args.get? name = none) →
      (∀ home hint, c.resolve m name = .typeAlias home hint → within home hint hint) →
      WrittenStep (.name name) (.name name)
  | text {text writtenText : String} {inner written : TypeHint} :
      TypeHint.parse text = .ok inner → TypeHint.parse writtenText = .ok written →
      within m inner written → WrittenStep (.str text) (.str writtenText)
  | unreadable {text : String} {e : TypeHint.ParseError} :
      TypeHint.parse text = .error e → WrittenStep (.str text) (.str text)
  | subscript {base : String} {params written : List TypeHint} :
      ¬ c.IsLiteral m base → List.Forall₂ (within m) params written →
      WrittenStep (.subscript base params) (.subscript base written)
  | literal {base : String} {params : List TypeHint} :
      c.IsLiteral m base → WrittenStep (.subscript base params) (.subscript base params)
  | union {members : List TypeHint} {parts : List (List TypeHint)} :
      List.Forall₂ (c.MemberWritten args steps within m) members parts →
      WrittenStep (.union members) (.union parts.flatten)
  /-- Lists are no types, whatever is in them. -/
  | list {items written : List TypeHint} : WrittenStep (.list items) (.list written)
  | atom {hint : TypeHint} : isAtom hint = true → WrittenStep hint hint

end

/-- What is written for an annotation, where the types of parameters are known. -/
def Written (args : TypeArgs) : Nat → SourceModule → TypeHint → TypeHint → Prop
  | 0, _, _, _ => False
  | steps + 1, m, hint, written => c.WrittenStep args steps (Written args steps) m hint written

section

variable {c} {args : TypeArgs} {steps : Nat} {m : SourceModule}

theorem resolveType_of_binds {name : String} {ty : FieldType} (h : c.Binds args m name ty) :
    c.resolveType (steps + 1) m args (.name name) = pure ty := by
  simp [resolveType, namedType, h.ordinary, h.isVariable, h.bound]

/-- Only an ellipsis is written for an ellipsis. -/
theorem ellipsis_iff_of_written {hint written : TypeHint} (h : c.Written args steps m hint written) :
    hint = .ellipsis ↔ written = .ellipsis := by
  cases steps with
  | zero => exact absurd h id
  | succ steps =>
      cases h with
      | parameter _ _ hne => simp [hne]
      | atom => rfl
      | _ => simp

/-! ### Containers -/

section

variable {resolve resolve' : TypeHint → Resolving FieldType} {params written : List TypeHint}

theorem relates_parameterAt
    (h : List.Forall₂ (fun hint hint' => Relates Eq (resolve hint) (resolve' hint')) params written)
    (i : Nat) : Relates Eq (parameterAt resolve params i) (parameterAt resolve' written i) := by
  induction h generalizing i with
  | nil => exact .pure rfl
  | cons hfirst _ ih =>
      cases i with
      | zero => exact hfirst
      | succ i => exact ih i

theorem relates_params (hresolve : ∀ hint, c.Applying (resolve hint))
    (hresolve' : ∀ hint, c.Applying (resolve' hint))
    (h : List.Forall₂ (fun hint hint' => Relates Eq (resolve hint) (resolve' hint')) params written) :
    Relates Eq (params.mapM resolve) (written.mapM resolve') := by
  have hlists := relates_mapM hresolve hresolve' h
  rwa [List.forall₂_eq_eq_eq] at hlists

theorem tuple_typeOf_of_ne (base : String) (h : ∀ item, params ≠ [item, .ellipsis]) :
    Container.typeOf resolve base params .tuple =
      (FieldType.tuple · false) <$> params.mapM resolve := by
  simp only [Container.typeOf]
  rfl

/-- A tuple of any length stays one. -/
theorem variadic_iff
    (h : List.Forall₂ (fun hint hint' => hint = .ellipsis ↔ hint' = .ellipsis) params written) :
    (∃ item, params = [item, .ellipsis]) ↔ ∃ item, written = [item, .ellipsis] := by
  cases h with
  | nil => simp
  | cons _ hrest =>
      cases hrest with
      | nil => simp
      | cons hlast hmore => cases hmore <;> simp [hlast]

theorem relates_container (hresolve : ∀ hint, c.Applying (resolve hint))
    (hresolve' : ∀ hint, c.Applying (resolve' hint))
    (h : List.Forall₂ (fun hint hint' => Relates Eq (resolve hint) (resolve' hint')) params written)
    (hellipsis : List.Forall₂ (fun hint hint' => hint = .ellipsis ↔ hint' = .ellipsis) params written)
    (base : String) {container : Container} (hcontainer : container ≠ .literal) :
    Relates Eq (container.typeOf resolve base params) (container.typeOf resolve' base written) := by
  have hat := relates_parameterAt h
  have hall := relates_params hresolve hresolve' h
  cases container with
  | optional => exact (hat 0).map fun _ _ => congrArg _
  | union => exact hall.map fun _ _ => congrArg _
  | list => exact (hat 0).map fun _ _ => congrArg _
  | set => exact (hat 0).map fun _ _ => congrArg _
  | tuple =>
      by_cases hvariadic : ∃ item, params = [item, .ellipsis]
      · rcases (variadic_iff hellipsis).1 hvariadic with ⟨item', rfl⟩
        rcases hvariadic with ⟨item, rfl⟩
        show Relates Eq ((FieldType.tuple [·] true) <$> resolve item)
          ((FieldType.tuple [·] true) <$> resolve' item')
        exact (List.forall₂_cons.1 h).1.map fun _ _ hitem => hitem ▸ rfl
      · have hother := hvariadic ∘ (variadic_iff hellipsis).2
        rw [tuple_typeOf_of_ne base (not_exists.1 hvariadic), tuple_typeOf_of_ne base (not_exists.1 hother)]
        exact hall.map fun _ _ hitems => hitems ▸ rfl
  | dict =>
      refine (hat 0).bind (fun _ => ?_) (fun _ => ?_) ?_
      · exact ((parameterAt_applying hresolve params 1).map _).settles
      · exact ((parameterAt_applying hresolve' written 1).map _).settles
      · rintro key _ rfl
        exact (hat 1).map fun _ _ => congrArg _
  | literal => exact absurd rfl hcontainer
  | wrapper => exact hat 0

end

/-! ### Names -/

theorem relates_namedType {expand expand' : SourceModule → TypeHint → Resolving FieldType} {name : String}
    (hexpand : ∀ home hint, c.resolve m name = .typeAlias home hint →
      Relates Eq (expand home hint) (expand' home hint))
    (hfree : c.resolve m name = .typeVar → args.get? name = none) :
    Relates Eq (c.namedType expand m args name) (c.namedType expand' m [] name) := by
  unfold namedType
  cases hresolve : c.resolve m name with
  | typeVar =>
      refine .pure ?_
      rw [hfree hresolve]
      rfl
  | typeAlias home hint => exact hexpand home hint hresolve
  | module key => exact .pure rfl
  | external qualified => exact .pure rfl
  | classDef id =>
      dsimp only
      cases hkind : c.kind id with
      | genericModel => exact (Applying.apply id [] hkind).relates_self
      | _ => exact .pure rfl

theorem relates_subscriptType {resolve resolve' : TypeHint → Resolving FieldType} {base : String}
    {params written : List TypeHint} (hresolve : ∀ hint, c.Applying (resolve hint))
    (hresolve' : ∀ hint, c.Applying (resolve' hint))
    (h : List.Forall₂ (fun hint hint' => Relates Eq (resolve hint) (resolve' hint')) params written)
    (hellipsis : List.Forall₂ (fun hint hint' => hint = .ellipsis ↔ hint' = .ellipsis) params written)
    (hliteral : ¬ c.IsLiteral m base) :
    Relates Eq (c.subscriptType resolve m base params) (c.subscriptType resolve' m base written) := by
  unfold subscriptType
  cases hbase : c.resolve m base with
  | external qualified =>
      dsimp only
      cases hcontainer : Container.named? (External.shortName qualified) with
      | none => exact .pure rfl
      | some container =>
          refine relates_container hresolve hresolve' h hellipsis base ?_
          rintro rfl
          exact hliteral ⟨qualified, hbase, hcontainer⟩
  | classDef id =>
      dsimp only
      cases hkind : c.kind id with
      | genericModel =>
          have happly := fun types => Applying.apply id types hkind
          refine (relates_params hresolve hresolve' h).bind (fun types => (happly types).settles)
            (fun types => (happly types).settles) ?_
          rintro types _ rfl
          exact (happly types).relates_self
      | _ => exact .pure rfl
  | _ => exact .pure rfl

/-- Values are no types, and are the same with any types for parameters. -/
theorem resolveType_literal {base : String} (h : c.IsLiteral m base) (params : List TypeHint) :
    c.resolveType (steps + 1) m args (.subscript base params) =
      c.resolveType (steps + 1) m [] (.subscript base params) := by
  rcases h with ⟨qualified, hbase, hcontainer⟩
  simp only [resolveType, subscriptType, hbase, hcontainer]
  rfl

/-! ### Unions -/

theorem resolveType_union (members : List TypeHint) :
    c.resolveType (steps + 1) m args (.union members) =
      FieldType.unionOf <$> members.mapM (c.resolveType steps m args) := by
  unfold resolveType
  rfl

/-- A union that is written for a parameter is the type of the parameter. -/
theorem standsFor_of_union {first : TypeHint} {rest : List TypeHint} {ty : FieldType}
    {types : List FieldType}
    (hunion : Yields (c.resolveType (steps + 1) m [] (.union (first :: rest))) ty)
    (htypes : Yields ((first :: rest).mapM (c.resolveType steps m [])) types) : ty.StandsFor types := by
  have hreads := c.resolveType_applying steps m []
  rw [resolveType_union] at hunion
  rcases hunion.of_bind fun _ => .pure _ with ⟨types', htypes', hty⟩
  obtain rfl := (Applying.mapM hreads _).relates_self _ _ htypes htypes'
  refine Or.inr ⟨?_, hty.eq_of_pure⟩
  -- There is a member, and a type for it.
  rw [List.mapM_cons] at htypes
  rcases htypes.of_bind fun _ => ((Applying.mapM hreads rest).map _).settles with ⟨t, _, htypes⟩
  rcases htypes.of_bind fun _ => .pure _ with ⟨others, _, htypes⟩
  rw [htypes.eq_of_pure]
  exact List.cons_ne_nil t others

theorem relates_member {member : TypeHint} {part : List TypeHint}
    (hwithin : ∀ {hint written}, c.Written args steps m hint written →
      Relates Eq (c.resolveType steps m args hint) (c.resolveType steps m [] written))
    (h : c.MemberWritten args steps (c.Written args steps) m member part) :
    Relates FieldType.StandsFor (c.resolveType steps m args member)
      (part.mapM (c.resolveType steps m [])) := by
  cases h with
  | @one _ written hmember =>
      have hone : [written].mapM (c.resolveType steps m []) =
          ([·]) <$> c.resolveType steps m [] written := by
        simp
      rw [hone, ← id_map (c.resolveType steps m args member)]
      refine (hwithin hmember).map ?_
      rintro ty _ rfl
      exact Or.inl rfl
  | several hbinds hsteps hunion =>
      intro ty types hty htypes
      rcases Nat.exists_eq_succ_of_ne_zero hsteps with ⟨rest, rfl⟩
      rw [resolveType_of_binds hbinds] at hty
      rw [hty.eq_of_pure]
      exact standsFor_of_union hunion htypes

/-- The union of members is that of all that is written for them. -/
theorem relates_union {members : List TypeHint} {parts : List (List TypeHint)}
    (h : List.Forall₂ (fun member part => Relates FieldType.StandsFor (c.resolveType steps m args member)
      (part.mapM (c.resolveType steps m []))) members parts) :
    Relates Eq (c.resolveType (steps + 1) m args (.union members))
      (c.resolveType (steps + 1) m [] (.union parts.flatten)) := by
  have hmembers := relates_mapM_flatten (c.resolveType_applying steps m args)
    (c.resolveType_applying steps m []) h
  intro a b ha hb
  rw [resolveType_union] at ha hb
  rcases ha.of_bind fun _ => .pure _ with ⟨types, htypes, ha⟩
  rcases hb.of_bind fun _ => .pure _ with ⟨written, hwritten, hb⟩
  have hflat := hwritten.of_always (Always.mapM (c.resolveType_flat TypeArgs.hasFormed_nil steps m) _)
  rcases hmembers _ _ htypes hwritten with ⟨parted, rfl, hstands⟩
  rw [ha.eq_of_pure, hb.eq_of_pure]
  exact FieldType.unionOf_flatten hstands fun part hpart t ht =>
    hflat t (List.mem_flatten.2 ⟨part, hpart, ht⟩)

/-- What is written for an annotation is read as the annotation is with types for its parameters. -/
theorem relates_of_written (steps : Nat) :
    ∀ {m hint written}, c.Written args steps m hint written →
      Relates Eq (c.resolveType steps m args hint) (c.resolveType steps m [] written) := by
  -- The annotations inside are read with one step less.
  induction steps with
  | zero => exact fun h => absurd h id
  | succ steps ih =>
      intro m hint written h
      have hreads := c.resolveType_applying steps m args
      have hreads' := c.resolveType_applying steps m []
      cases h with
      | parameter hbinds hwritten _ =>
          rw [resolveType_of_binds hbinds]
          intro a b ha hb
          rw [ha.eq_of_pure]
          exact (c.resolveType_applying (steps + 1) m [] written).relates_self _ _ hwritten hb
      | @name name hfree halias =>
          unfold resolveType
          by_cases hnone : name = "None"
          · simp only [hnone, if_true]
            exact .pure rfl
          · simp only [hnone, if_false]
            exact relates_namedType (fun home hint h => ih (halias home hint h)) hfree
      | text hparse hparse' hinner =>
          simp only [resolveType, hparse, hparse']
          exact ih hinner
      | unreadable hparse =>
          simp only [resolveType, hparse]
          exact .pure rfl
      | subscript hliteral hparams =>
          exact relates_subscriptType hreads hreads' (hparams.imp fun _ _ h => ih h)
            (hparams.imp fun _ _ h => ellipsis_iff_of_written h) hliteral
      | literal hliteral =>
          rw [resolveType_literal hliteral]
          exact (c.resolveType_applying (steps + 1) m [] _).relates_self
      | union hmembers => exact relates_union (hmembers.imp fun _ _ h => relates_member ih h)
      | list => exact .pure rfl
      | @atom hint hatom =>
          cases hint with
          | int | bool | ellipsis | call | other => exact .pure rfl
          | _ => cases hatom

end

end ClassifiedProgram

end Resolution
end WireTypes
