import WireTypes.Resolution.Models

/-!
# Applying — how types are read

Reading the type of an annotation adds instances to a table, and it does so by applying generic models and
in no other way.

- `Applying`: what is put together from such applications;
- `resolveType_applying`, `fieldsOf_applying`, `modelBase?_applying`: the types of annotations are read
  so, and so are the fields and the bases of a class;
- `Applying.instances`: what holds of every application holds of all instances that are recorded.
-/

namespace WireTypes
namespace Resolution

open Discovery Python

namespace ClassifiedProgram

variable (c : ClassifiedProgram)

/-- Reading that records instances by applying generic models only. -/
inductive Applying : {α : Type} → Resolving α → Prop
  | pure {α : Type} (a : α) : Applying (Pure.pure a)
  | bind {α β : Type} {x : Resolving α} {f : α → Resolving β} :
      Applying x → (∀ a, Applying (f a)) → Applying (x >>= f)
  | apply (generic : DefinitionId) (types : List FieldType) :
      c.kind generic = .genericModel → Applying (c.apply generic types)

section

variable {c} {α β : Type}

namespace Applying

theorem map {x : Resolving α} (f : α → β) (hx : c.Applying x) : c.Applying (f <$> x) :=
  hx.bind fun a => .pure (f a)

theorem mapM {f : α → Resolving β} (hf : ∀ a, c.Applying (f a)) :
    ∀ xs : List α, c.Applying (xs.mapM f)
  | [] => .pure []
  | x :: rest => by
      rw [List.mapM_cons]
      exact (hf x).bind fun b => (mapM hf rest).bind fun bs => .pure (b :: bs)

theorem filterMapM {f : α → Resolving (Option β)} (hf : ∀ a, c.Applying (f a)) :
    ∀ xs : List α, c.Applying (xs.filterMapM f)
  | [] => .pure []
  | x :: rest => by
      rw [List.filterMapM_cons]
      refine (hf x).bind fun b? => ?_
      cases b? with
      | none => exact filterMapM hf rest
      | some b => exact (filterMapM hf rest).bind fun bs => .pure (b :: bs)

end Applying

/-! ## Instances -/

theorem apply_eq (generic : DefinitionId) (types : List FieldType) (s : List Instance) :
    c.apply generic types s =
      if s.any (·.id == instanceId generic types) then (.ref (instanceId generic types), s)
      else if instanceLimit ≤ s.length then (.unresolved (instanceId generic types).name, s)
      else (.ref (instanceId generic types),
        s ++ [⟨instanceId generic types, generic, c.bindParameters generic types⟩]) := by
  show (if s.any (·.id == instanceId generic types) then
    (Pure.pure (.ref (instanceId generic types)) : Resolving FieldType)
    else if instanceLimit ≤ s.length then
      Pure.pure (.unresolved (instanceId generic types).name)
    else _) s = _
  split
  · rfl
  · split <;> rfl

/-- What holds of every application holds of all instances that are recorded. -/
theorem Applying.instances {P : Instance → Prop} {act : Resolving α} (hact : c.Applying act)
    (happly : ∀ generic types, c.kind generic = .genericModel →
      P ⟨instanceId generic types, generic, c.bindParameters generic types⟩) :
    ∀ s, (∀ i ∈ s, P i) → ∀ i ∈ (act s).2, P i := by
  induction hact with
  | pure a => exact fun _ hs => hs
  | bind _ _ ihx ihf => exact fun s hs => ihf _ _ (ihx s hs)
  | apply generic types hkind =>
      intro s hs
      rw [apply_eq]
      split
      · exact hs
      · split
        · exact hs
        · intro i hi
          rcases List.mem_append.1 hi with hi | hi
          · exact hs i hi
          · exact List.mem_singleton.1 hi ▸ happly generic types hkind

end

/-! ## Annotations -/

section

variable {c} {resolve : TypeHint → Resolving FieldType}

theorem parameterAt_applying (hresolve : ∀ hint, c.Applying (resolve hint)) (params : List TypeHint)
    (i : Nat) : c.Applying (parameterAt resolve params i) := by
  unfold parameterAt
  cases params[i]? with
  | none => exact .pure _
  | some hint => exact hresolve hint

theorem container_applying (hresolve : ∀ hint, c.Applying (resolve hint)) (base : String)
    (params : List TypeHint) (container : Container) :
    c.Applying (container.typeOf resolve base params) := by
  cases container with
  | optional => exact (parameterAt_applying hresolve params 0).map _
  | union => exact (Applying.mapM hresolve params).map _
  | list => exact (parameterAt_applying hresolve params 0).map _
  | set => exact (parameterAt_applying hresolve params 0).map _
  | tuple =>
      simp only [Container.typeOf]
      split
      · exact (hresolve _).bind fun _ => .pure _
      · exact (Applying.mapM hresolve params).bind fun _ => .pure _
  | dict =>
      exact (parameterAt_applying hresolve params 0).bind fun _ =>
        (parameterAt_applying hresolve params 1).map _
  | literal => exact .pure _
  | wrapper => exact parameterAt_applying hresolve params 0

end

theorem namedType_applying {expand : SourceModule → TypeHint → Resolving FieldType}
    (hexpand : ∀ m hint, c.Applying (expand m hint)) (m : SourceModule) (args : TypeArgs)
    (name : String) : c.Applying (c.namedType expand m args name) := by
  unfold namedType
  cases c.resolve m name with
  | typeVar => exact .pure _
  | external qualified => exact .pure _
  | typeAlias home hint => exact hexpand home hint
  | module key => exact .pure _
  | classDef id =>
      dsimp only
      cases hkind : c.kind id with
      | genericModel => exact Applying.apply id [] hkind
      | plain => exact .pure _
      | _ => exact .pure _

theorem subscriptType_applying {resolve : TypeHint → Resolving FieldType}
    (hresolve : ∀ hint, c.Applying (resolve hint)) (m : SourceModule) (base : String)
    (params : List TypeHint) : c.Applying (c.subscriptType resolve m base params) := by
  unfold subscriptType
  cases c.resolve m base with
  | external qualified =>
      dsimp only
      cases Container.named? (External.shortName qualified) with
      | some container => exact container_applying hresolve base params container
      | none => exact .pure _
  | classDef id =>
      dsimp only
      cases hkind : c.kind id with
      | genericModel => exact (Applying.mapM hresolve params).bind fun types => Applying.apply id types hkind
      | model => exact .pure _
      | _ => exact .pure _
  | _ => exact .pure _

theorem resolveType_applying (steps : Nat) :
    ∀ (m : SourceModule) (args : TypeArgs) (hint : TypeHint),
      c.Applying (c.resolveType steps m args hint) := by
  -- The types inside an annotation are read with one step less.
  induction steps with
  | zero => exact fun _ _ hint => .pure _
  | succ steps ih =>
      intro m args hint
      unfold resolveType
      cases hint with
      | name name =>
          by_cases hnone : name = "None"
          · simp only [hnone, if_true]
            exact .pure _
          · simp only [hnone, if_false]
            exact c.namedType_applying (fun home hint => ih home args hint) m args name
      | str text =>
          cases hparse : TypeHint.parse text with
          | ok inner =>
              simp only [hparse]
              exact ih m args inner
          | error e =>
              simp only [hparse]
              exact .pure _
      | union members => exact (Applying.mapM (ih m args) members).map _
      | subscript base params => exact c.subscriptType_applying (ih m args) m base params
      | _ => exact .pure _

theorem typeOf_applying (m : SourceModule) (args : TypeArgs) (hint : TypeHint) :
    c.Applying (c.typeOf m args hint) := c.resolveType_applying _ m args hint

/-! ## Fields -/

theorem field?_applying (m : SourceModule) (args : TypeArgs) (isLegacy : Bool) (a : Attribute) :
    c.Applying (c.field? m args isLegacy a) := by
  unfold field?
  split
  · exact .pure _
  · exact (c.typeOf_applying m args a.hint).bind fun _ => .pure _

theorem computedField_applying (m : SourceModule) (args : TypeArgs) (d : Computed) :
    c.Applying (c.computedField m args d) := by
  unfold computedField
  cases d.returns with
  | none => exact .pure _
  | some hint => exact (c.typeOf_applying m args hint).bind fun _ => .pure _

theorem fieldsOf_applying (m : SourceModule) (id : DefinitionId) (d : ClassDecl) (args : TypeArgs)
    (bases : List Model) : c.Applying (c.fieldsOf m id d args bases) := by
  unfold fieldsOf
  exact (Applying.filterMapM (c.field?_applying m args _) d.attributes).bind fun _ =>
    (Applying.mapM (c.computedField_applying m args) d.computed).bind fun _ => .pure _

theorem modelBase?_applying (m : SourceModule) (args : TypeArgs) (base : Expr) :
    c.Applying (c.modelBase? m args base) := by
  unfold modelBase?
  split
  · split <;> exact .pure _
  · split
    · split
      · exact (Applying.mapM (c.typeOf_applying m args) _).bind fun _ => .pure _
      · exact .pure _
    · exact .pure _
  · exact .pure _

end ClassifiedProgram

end Resolution
end WireTypes
