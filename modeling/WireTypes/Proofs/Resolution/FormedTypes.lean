import WireTypes.Proofs.Definition.UnionLaws
import WireTypes.Proofs.Resolution.Yields

/-!
# Formed types — the shape of the types that are read

Types are put together from names, and unions are made in one way only. So a type that is read is
well-formed at every depth, whatever is written, if the types of the type parameters are.

- `HasFormed args`: the types of the parameters are well-formed;
- `AcceptsFormed P`: what is recorded for well-formed arguments is `P`;
- `resolveType_formed`: annotations are read as well-formed types, and what is recorded is `P`.
-/

namespace WireTypes

namespace FieldType

/-- A type of one alternative is formed if its components are. -/
theorem formedThroughout_of_components {ty : FieldType} (h : ty.isSingle = true)
    (hcomponents : ∀ t ∈ ty.components, t.FormedThroughout) : ty.FormedThroughout :=
  formedThroughout_iff.2 ⟨formed_of_single h, hcomponents⟩

/-- A type of one alternative is formed if nothing stands in its components. -/
theorem formedThroughout_of_shallow {ty : FieldType} (h : ty.isSingle = true)
    (hcomponents : (ty.components.all fun t => t.isSingle && t.components.isEmpty) = true) :
    ty.FormedThroughout := by
  refine formedThroughout_of_components h fun t ht => ?_
  have hatom := List.all_eq_true.1 hcomponents t ht
  rw [Bool.and_eq_true, List.isEmpty_iff] at hatom
  refine formedThroughout_of_components hatom.1 fun u hu => ?_
  rw [hatom.2] at hu
  cases hu

theorem formedThroughout_null : FieldType.null.FormedThroughout :=
  formedThroughout_iff.2 ⟨trivial, fun _ h => absurd h List.not_mem_nil⟩

theorem formedThroughout_orNull {ty : FieldType} (h : ty.FormedThroughout) :
    ty.orNull.FormedThroughout := by
  refine formedThroughout_unionOf fun t ht => ?_
  rcases List.mem_pair.1 ht with rfl | rfl
  · exact h
  · exact formedThroughout_null

end FieldType

namespace Resolution

open Discovery Python FieldType

/-! ## Type parameters -/

namespace TypeArgs

/-- The types of the parameters are well-formed. -/
def HasFormed (args : TypeArgs) : Prop := ∀ p ∈ args, p.2.FormedThroughout

theorem hasFormed_nil : HasFormed [] := fun _ h => absurd h List.not_mem_nil

theorem HasFormed.get {args : TypeArgs} (h : args.HasFormed) (name : String) :
    ((args.get? name).getD .any).FormedThroughout := by
  cases hget : args.get? name with
  | none => exact formedThroughout_of_shallow rfl rfl
  | some ty =>
      rw [TypeArgs.get?, List.lookup_eq_some_iff] at hget
      rcases hget with ⟨before, after, hargs, _⟩
      exact h (name, ty) (List.mem_reverse.1 (by simp [hargs]))

theorem hasFormed_bind {types : List FieldType} (h : ∀ t ∈ types, t.FormedThroughout) :
    ∀ parameters : List String, (TypeArgs.bind parameters types).HasFormed := by
  intro parameters
  fun_induction TypeArgs.bind parameters types with
  | case1 => exact hasFormed_nil
  | case2 p ps ih => exact List.forall_mem_cons.2 ⟨formedThroughout_of_shallow rfl rfl, ih h⟩
  | case3 p ps t ts ih =>
      rcases List.forall_mem_cons.1 h with ⟨hfirst, hrest⟩
      exact List.forall_mem_cons.2 ⟨hfirst, ih hrest⟩

end TypeArgs

namespace ClassifiedProgram

variable (c : ClassifiedProgram)

/-- What is recorded for well-formed arguments has the property. -/
def AcceptsFormed (P : Instance → Prop) : Prop :=
  ∀ generic {types}, (∀ t ∈ types, t.FormedThroughout) →
    P ⟨instanceId generic types, generic, c.bindParameters generic types⟩

theorem acceptsFormed_args : c.AcceptsFormed fun i => i.args.HasFormed :=
  fun _ _ h => TypeArgs.hasFormed_bind h _

/-! ## Containers -/

section

variable {c} {P : Instance → Prop} {resolve : TypeHint → Resolving FieldType}

theorem scalar_formed {name : String} {ty : FieldType} (h : External.scalar? name = some ty) :
    ty.FormedThroughout := by
  unfold External.scalar? at h
  split at h <;> cases h <;>
    first | exact formedThroughout_null | exact formedThroughout_of_shallow rfl rfl

theorem literal_formed {params : List TypeHint} {ty : FieldType} (h : literal? params = some ty) :
    ty.FormedThroughout := by
  rcases Option.map_eq_some_iff.1 h with ⟨⟨values, nullable⟩, _, rfl⟩
  have hvalues : (if values.isEmpty then FieldType.null else .literal values).FormedThroughout := by
    split
    · exact formedThroughout_null
    · exact formedThroughout_of_shallow rfl rfl
  dsimp only
  cases nullable with
  | true => exact formedThroughout_orNull hvalues
  | false => exact hvalues

theorem parameterAt_formed (h : ∀ hint, Upholds P FormedThroughout (resolve hint)) (params : List TypeHint) (i : Nat) :
    Upholds P FormedThroughout (parameterAt resolve params i) := by
  unfold parameterAt
  cases params[i]? with
  | none => exact .pure (formedThroughout_of_shallow rfl rfl)
  | some hint => exact h hint

theorem container_formed (h : ∀ hint, Upholds P FormedThroughout (resolve hint)) (base : String)
    (params : List TypeHint) (container : Container) :
    Upholds P FormedThroughout (container.typeOf resolve base params) := by
  -- A type of one component, which is the parameter.
  have hone : ∀ {f : FieldType → FieldType}, (∀ t, (f t).isSingle = true ∧ (f t).components = [t]) →
      Upholds P FormedThroughout (f <$> parameterAt resolve params 0) := by
    refine fun hf => (parameterAt_formed h params 0).map fun t ht => ?_
    refine formedThroughout_of_components (hf t).1 ?_
    rw [(hf t).2]
    exact List.forall_mem_singleton.2 ht
  cases container with
  | optional => exact (parameterAt_formed h params 0).map fun _ => formedThroughout_orNull
  | union => exact (Upholds.mapM h params).map fun _ => formedThroughout_unionOf
  | list => exact hone fun _ => ⟨rfl, rfl⟩
  | set => exact hone fun _ => ⟨rfl, rfl⟩
  | tuple =>
      simp only [Container.typeOf]
      split
      · exact (h _).bind fun t ht =>
          .pure (formedThroughout_of_components rfl (List.forall_mem_singleton.2 ht))
      · exact (Upholds.mapM h params).bind fun _ hitems =>
          .pure (formedThroughout_of_components rfl hitems)
  | dict =>
      refine (parameterAt_formed h params 0).bind fun key hkey =>
        (parameterAt_formed h params 1).bind fun value hvalue => .pure ?_
      refine formedThroughout_of_components rfl (List.forall_mem_cons.2 ⟨hkey, ?_⟩)
      exact List.forall_mem_singleton.2 hvalue
  | literal =>
      refine .pure ?_
      cases hliteral : literal? params with
      | none => exact formedThroughout_of_shallow rfl rfl
      | some ty => exact literal_formed hliteral
  | wrapper => exact parameterAt_formed h params 0

end

/-! ## Annotations -/

variable {P : Instance → Prop} (hP : c.AcceptsFormed P)

include hP

theorem apply_formed (generic : DefinitionId) {types : List FieldType}
    (h : ∀ t ∈ types, t.FormedThroughout) : Upholds P FormedThroughout (c.apply generic types) := by
  have hatom : ∀ id : DefinitionId, (FieldType.ref id).FormedThroughout :=
    fun _ => formedThroughout_of_shallow rfl rfl
  intro s hs
  rw [apply_eq]
  split
  · exact ⟨hs, hatom _⟩
  · split
    · exact ⟨hs, formedThroughout_of_shallow rfl rfl⟩
    · refine ⟨fun i hi => ?_, hatom _⟩
      rcases List.mem_append.1 hi with hi | hi
      · exact hs i hi
      · exact List.mem_singleton.1 hi ▸ hP generic h

theorem namedType_formed {expand : SourceModule → TypeHint → Resolving FieldType}
    (hexpand : ∀ m hint, Upholds P FormedThroughout (expand m hint)) (m : SourceModule) {args : TypeArgs}
    (hargs : args.HasFormed) (name : String) : Upholds P FormedThroughout (c.namedType expand m args name) := by
  have hunresolved : ∀ name : String, (FieldType.unresolved name).FormedThroughout :=
    fun _ => formedThroughout_of_shallow rfl rfl
  unfold namedType
  cases c.resolve m name with
  | typeVar => exact .pure (hargs.get name)
  | typeAlias home hint => exact hexpand home hint
  | module key => exact .pure (hunresolved _)
  | external qualified =>
      refine .pure ?_
      cases hscalar : External.scalar? (External.shortName qualified) with
      | none => exact hunresolved _
      | some ty => exact scalar_formed hscalar
  | classDef id =>
      dsimp only
      cases c.kind id with
      | genericModel => exact c.apply_formed hP id fun _ h => absurd h List.not_mem_nil
      | plain => exact .pure (hunresolved _)
      | _ => exact .pure (formedThroughout_of_shallow rfl rfl)

theorem subscriptType_formed {resolve : TypeHint → Resolving FieldType}
    (hresolve : ∀ hint, Upholds P FormedThroughout (resolve hint)) (m : SourceModule) (base : String)
    (params : List TypeHint) : Upholds P FormedThroughout (c.subscriptType resolve m base params) := by
  unfold subscriptType
  cases c.resolve m base with
  | external qualified =>
      dsimp only
      cases Container.named? (External.shortName qualified) with
      | some container => exact container_formed hresolve base params container
      | none => exact .pure (formedThroughout_of_shallow rfl rfl)
  | classDef id =>
      dsimp only
      cases c.kind id with
      | genericModel =>
          exact (Upholds.mapM hresolve params).bind fun types htypes => c.apply_formed hP id htypes
      | _ => exact .pure (formedThroughout_of_shallow rfl rfl)
  | _ => exact .pure (formedThroughout_of_shallow rfl rfl)

/-- An annotation is read as a well-formed type, if its parameters have well-formed types. -/
theorem resolveType_formed {args : TypeArgs} (hargs : args.HasFormed) (steps : Nat) :
    ∀ m hint, Upholds P FormedThroughout (c.resolveType steps m args hint) := by
  -- The types inside an annotation are read with one step less.
  induction steps with
  | zero => exact fun _ _ => .pure (formedThroughout_of_shallow rfl rfl)
  | succ steps ih =>
      intro m hint
      unfold resolveType
      cases hint with
      | name name =>
          by_cases hnone : name = "None"
          · simp only [hnone, if_true]
            exact .pure formedThroughout_null
          · simp only [hnone, if_false]
            exact c.namedType_formed hP ih m hargs name
      | str text =>
          dsimp only
          cases TypeHint.parse text with
          | ok inner => exact ih m inner
          | error e => exact .pure (formedThroughout_of_shallow rfl rfl)
      | union members => exact (Upholds.mapM (ih m) members).map fun _ => formedThroughout_unionOf
      | subscript base params => exact c.subscriptType_formed hP (ih m) m base params
      | _ => exact .pure (formedThroughout_of_shallow rfl rfl)

omit hP

/-- Whatever was recorded, a type that is read has no unions inside unions. -/
theorem resolveType_flat {args : TypeArgs} (hargs : args.HasFormed) (steps : Nat) (m : SourceModule)
    (hint : TypeHint) : Always FieldType.IsFlat (c.resolveType steps m args hint) := by
  intro s
  have hformed := always_iff_upholds.2
    (c.resolveType_formed (P := fun _ => True) (fun _ _ _ => trivial) hargs steps m hint)
  exact (hformed s).outside.flat

end ClassifiedProgram

end Resolution
end WireTypes
