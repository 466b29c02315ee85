import WireTypes.Proofs.Resolution.Applying

/-!
# Settling — what is read once is read so again

Types are read with a table of instances, to which generic models with arguments are added until it is
full. Reading depends on the table, but not on when it is read:

- `Later s t`: the table `t` comes after `s`;
- `Settles act`: what `act` reads, it reads in every later table, and it adds nothing to them;
- `Applying.settles`: so the types of annotations settle, and so do the fields and the bases of a class.
-/

namespace WireTypes
namespace Resolution

open Discovery Python

/-- A table only grows, and a full one does not. -/
structure Later (s t : List Instance) : Prop where
  grows : s <+: t
  full : instanceLimit ≤ s.length → t = s

namespace Later

variable {s t u : List Instance}

theorem refl (s : List Instance) : Later s s := ⟨List.prefix_rfl, fun _ => rfl⟩

theorem trans (h : Later s t) (h' : Later t u) : Later s u := by
  refine ⟨h.grows.trans h'.grows, ?_⟩
  intro hfull
  have hts := h.full hfull
  subst hts
  exact h'.full hfull

end Later

/-- Reading grows the table, and reading again later gives the same and leaves the table as it is. -/
def Settles {α : Type} (act : Resolving α) : Prop :=
  ∀ s, Later s (act s).2 ∧ ∀ u, Later (act s).2 u → act u = ((act s).1, u)

namespace Settles

variable {α β : Type}

theorem pure (a : α) : Settles (Pure.pure a : Resolving α) := fun s => ⟨.refl s, fun _ _ => rfl⟩

theorem bind {x : Resolving α} {f : α → Resolving β} (hx : Settles x) (hf : ∀ a, Settles (f a)) :
    Settles (x >>= f) := by
  intro s
  have hfirst := hx s
  have hnext := hf (x s).1 (x s).2
  have hrun : ∀ s, (x >>= f) s = f (x s).1 (x s).2 := fun _ => rfl
  refine ⟨hfirst.1.trans hnext.1, ?_⟩
  intro u hu
  -- The second action is run on a later table, since the first one adds nothing there.
  rw [hrun, hrun, hfirst.2 u (hnext.1.trans hu)]
  exact hnext.2 u hu

end Settles

namespace ClassifiedProgram

variable (c : ClassifiedProgram)

/-! ## Instances -/

theorem any_id_of_later {s t : List Instance} (h : Later s t) {id : DefinitionId}
    (hs : s.any (·.id == id) = true) : t.any (·.id == id) = true := by
  rcases List.any_eq_true.1 hs with ⟨i, hi, hid⟩
  exact List.any_eq_true.2 ⟨i, h.grows.subset hi, hid⟩

/-- A recorded instance stays, and what found no place in a full table never does. -/
theorem apply_settles (generic : DefinitionId) (types : List FieldType) :
    Settles (c.apply generic types) := by
  intro s
  -- An identity that is recorded stays so.
  by_cases hknown : s.any (·.id == instanceId generic types) = true
  · rw [apply_eq, if_pos hknown]
    refine ⟨.refl s, fun u hu => ?_⟩
    rw [apply_eq, if_pos (any_id_of_later hu hknown)]
  · by_cases hfull : instanceLimit ≤ s.length
    · rw [apply_eq, if_neg hknown, if_pos hfull]
      refine ⟨.refl s, fun u hu => ?_⟩
      -- A full table stays as it is, so that the identity finds no place in it later.
      have hsame : u = s := hu.full hfull
      rw [hsame, apply_eq, if_neg hknown, if_pos hfull]
    · rw [apply_eq, if_neg hknown, if_neg hfull]
      refine ⟨⟨List.prefix_append _ _, fun h => absurd h hfull⟩, fun u hu => ?_⟩
      -- What was recorded now is found in all later tables.
      have hnew : (s ++ [(⟨instanceId generic types, generic, c.bindParameters generic types⟩ :
          Instance)]).any (·.id == instanceId generic types) = true := by
        simp
      rw [apply_eq, if_pos (any_id_of_later hu hnew)]

/-- Whatever is read by applying generic models settles. -/
theorem Applying.settles {α : Type} {act : Resolving α} (h : c.Applying act) : Settles act := by
  induction h with
  | pure a => exact .pure a
  | bind _ _ ihx ihf => exact ihx.bind ihf
  | apply generic types _ => exact c.apply_settles generic types

theorem fieldsOf_settles (m : SourceModule) (id : DefinitionId) (d : ClassDecl) (args : TypeArgs)
    (bases : List Model) : Settles (c.fieldsOf m id d args bases) :=
  (c.fieldsOf_applying m id d args bases).settles

theorem modelBase?_settles (m : SourceModule) (args : TypeArgs) (base : Expr) :
    Settles (c.modelBase? m args base) := (c.modelBase?_applying m args base).settles

end ClassifiedProgram

end Resolution
end WireTypes
