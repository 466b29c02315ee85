import WireTypes.Proofs.Resolution.Inheritance

/-!
# Rebuilding — what is kept is what would be built again

Models without arguments are kept, and a class has no model while its own bases are built. Where no class
is above itself, neither makes a difference: whatever is kept, the model of a class is the one that is built
from its declaration and those of the classes above it, with nothing kept and no class left out.

- `buildEach`: what is built for those of a list that are read as something;
- `rebuild`: models as they are built with nothing kept;
- `rebuild_of_le`: any number of steps is enough that suffices for the classes above;
- `Faithful`: what is kept is what is built so, now and in every later table;
- `model_rebuilds`: what a run gives and records is what is built so, and what it keeps is faithful.
-/

namespace WireTypes
namespace Resolution

open Discovery Python

/-! ## Reading and building in turn -/

section

variable {α β γ σ : Type} {read : α → StateM σ (Option β)} {build : β → StateM σ (Option γ)}
  {a : α} {rest : List α} {s : σ}

/-- Reads each element of a list, and builds something for what it is read as. -/
def buildEach (read : α → StateM σ (Option β)) (build : β → StateM σ (Option γ)) (as : List α) :
    StateM σ (List γ) :=
  as.filterMapM fun a => do
    match ← read a with
    | some b => build b
    | none => return none

theorem buildEach_of_none (h : (read a s).1 = none) :
    buildEach read build (a :: rest) s = buildEach read build rest (read a s).2 := by
  cases hread : read a s with
  | mk result next =>
      rw [hread] at h
      subst h
      rw [buildEach, List.filterMapM_cons]
      simp only [bind, StateT.bind, hread]
      rfl

theorem buildEach_of_some {b : β} (h : (read a s).1 = some b) :
    buildEach read build (a :: rest) s =
      (let built := build b (read a s).2
       let others := buildEach read build rest built.2
       (built.1.toList ++ others.1, others.2)) := by
  cases hread : read a s with
  | mk result next =>
      rw [hread] at h
      subst h
      rw [buildEach, List.filterMapM_cons]
      simp only [bind, StateT.bind, hread]
      cases build b next with
      | mk built? later => cases built? <;> rfl

end

namespace ClassifiedProgram

variable (c : ClassifiedProgram)

/-! ## Building with nothing kept -/

/-- The model of a class with types for its parameters, with nothing kept and no class left out. -/
def rebuild : Nat → DefinitionId → TypeArgs → Resolving (Option Model)
  | 0, _, _ => pure none
  | depth + 1, id, args =>
      match c.modules.classDecl? id with
      | none => pure none
      | some (m, d) => do
          let bases ← buildEach (c.modelBase? m args) (fun base => rebuild depth base.1 base.2) d.bases
          return some (← c.assemble m id d args bases)

/-- The models of bases, with nothing kept. -/
def rebuildBases (depth : Nat) (m : SourceModule) (args : TypeArgs) (bases : List Expr) :
    Resolving (List Model) :=
  buildEach (c.modelBase? m args) (fun base => c.rebuild depth base.1 base.2) bases

section

variable {c} {depth : Nat} {m : SourceModule} {d : ClassDecl} {id : DefinitionId} {args : TypeArgs}
  {base : Expr} {rest : List Expr} {known : List Instance}

theorem rebuild_of_no_class (h : c.modules.classDecl? id = none) :
    c.rebuild depth id args known = (none, known) := by
  cases depth with
  | zero => rfl
  | succ depth =>
      rw [rebuild, h]
      rfl

theorem rebuild_of_class (h : c.modules.classDecl? id = some (m, d)) (depth : Nat) (args : TypeArgs)
    (known : List Instance) :
    c.rebuild (depth + 1) id args known =
      (let bases := c.rebuildBases depth m args d.bases known
       let assembled := c.assemble m id d args bases.1 bases.2
       (some assembled.1, assembled.2)) := by
  rw [rebuild, h]
  rfl

theorem rebuildBases_of_none (h : (c.modelBase? m args base known).1 = none) :
    c.rebuildBases depth m args (base :: rest) known =
      c.rebuildBases depth m args rest (c.modelBase? m args base known).2 := buildEach_of_none h

theorem rebuildBases_of_some {types : TypeArgs}
    (h : (c.modelBase? m args base known).1 = some (id, types)) :
    c.rebuildBases depth m args (base :: rest) known =
      (let built := c.rebuild depth id types (c.modelBase? m args base known).2
       let others := c.rebuildBases depth m args rest built.2
       (built.1.toList ++ others.1, others.2)) := buildEach_of_some h

theorem mem_modelClasses_of_model (hclass : c.baseClass? m base = some id)
    (hkind : (c.kind id).isModel = true) : id ∈ c.modelClasses m (base :: rest) := by
  rw [modelClasses_cons_of_model hclass hkind]
  exact List.mem_cons_self

end

theorem rebuild_applying (depth : Nat) (id : DefinitionId) (args : TypeArgs) :
    c.Applying (c.rebuild depth id args) := by
  induction depth generalizing id args with
  | zero => exact .pure none
  | succ depth ih =>
      unfold rebuild
      cases c.modules.classDecl? id with
      | none => exact .pure none
      | some decl =>
          obtain ⟨m, d⟩ := decl
          refine (Applying.filterMapM (fun base => ?_) d.bases).bind fun bases => ?_
          · refine (c.modelBase?_applying m args base).bind fun named => ?_
            cases named with
            | none => exact .pure none
            | some applied => exact ih applied.1 applied.2
          · exact ((c.fieldsOf_applying m id d args bases).bind fun _ => .pure _).bind fun _ => .pure _

theorem rebuild_settles (depth : Nat) (id : DefinitionId) (args : TypeArgs) :
    Settles (c.rebuild depth id args) := (c.rebuild_applying depth id args).settles

/-! ## The number of steps -/

section

variable {c} {depth more : Nat} {above : List DefinitionId} {m : SourceModule} {id : DefinitionId}
  {args : TypeArgs}

theorem rebuildBases_congr {bases : List Expr}
    (h : ∀ x ∈ c.modelClasses m bases, ∀ types, c.rebuild more x types = c.rebuild depth x types)
    (args : TypeArgs) (known : List Instance) :
    c.rebuildBases more m args bases known = c.rebuildBases depth m args bases known := by
  induction bases generalizing known with
  | nil => rfl
  | cons base rest ih =>
      have hrest := ih fun x hx => h x (mem_modelClasses_cons hx)
      rcases modelBase?_spec m args base known with ⟨hnone, _⟩ | ⟨x, types, hsome, hclass, hkind, _⟩
      · rw [rebuildBases_of_none hnone, rebuildBases_of_none hnone, hrest]
      · have hx : x ∈ c.modelClasses m (base :: rest) := mem_modelClasses_of_model hclass hkind
        rw [rebuildBases_of_some hsome, rebuildBases_of_some hsome, h x hx types]
        simp only [hrest]

/-- A class that is not above itself is not among those whose bases are being built. -/
theorem Pending.not_mem (h : c.Pending depth above id)
    (hacyclic : ∀ id, ¬ Relation.TransGen c.BaseOf id id) : id ∉ above := fun habove => hacyclic id (h.leads id habove)

theorem Pending.bases {d : ClassDecl} (h : c.Pending (depth + 1) above id) (habove : id ∉ above)
    (hdecl : c.modules.classDecl? id = some (m, d)) :
    ∀ x ∈ c.modelClasses m d.bases, c.Pending depth (id :: above) x := by
  intro x hx
  rw [← modelBasesOf_eq hdecl] at hx
  exact h.base habove (mem_classIds_of_decl hdecl) hx

variable (hacyclic : ∀ id, ¬ Relation.TransGen c.BaseOf id id)

include hacyclic

/-- More steps than there are classes left make no difference. -/
theorem rebuild_of_le (hpending : c.Pending depth above id) (hle : depth ≤ more) (args : TypeArgs) :
    c.rebuild more id args = c.rebuild depth id args := by
  induction depth generalizing more above id args with
  | zero => exact hpending.depth_pos.elim
  | succ depth ih =>
      obtain ⟨more, rfl⟩ := Nat.exists_eq_succ_of_ne_zero (Nat.ne_zero_of_lt hle)
      funext known
      cases hdecl : c.modules.classDecl? id with
      | none => rw [rebuild_of_no_class hdecl, rebuild_of_no_class hdecl]
      | some decl =>
          obtain ⟨m, d⟩ := decl
          have hbases := hpending.bases (hpending.not_mem hacyclic) hdecl
          have hsame := rebuildBases_congr
            (fun x hx types => ih (hbases x hx) (Nat.le_of_succ_le_succ hle) types) args known
          rw [rebuild_of_class hdecl, rebuild_of_class hdecl, hsame]

/-- The steps that are left for a class give what those for all classes give. -/
theorem rebuild_classDepth (hpending : c.Pending depth above id) (args : TypeArgs) :
    c.rebuild c.modules.classDepth id args = c.rebuild depth id args :=
  rebuild_of_le hacyclic hpending (hpending.depth ▸ Nat.le_add_right depth above.length) args

end

/-! ## What is kept -/

/-- What is kept is what is built with nothing kept, now and in every later table. -/
def Faithful (b : Building) : Prop :=
  ∀ id model, b.finished.lookup id = some model → ∀ later, Later b.instances later →
    c.rebuild c.modules.classDepth id [] later = (some model, later)

/-- What a run for a class does: it gives and records what is built with nothing kept, and what it keeps is
faithful. -/
def Rebuilds (depth : Nat) (id : DefinitionId) (args : TypeArgs)
    (act : StateM Building (Option Model)) : Prop :=
  ∀ b, c.Faithful b → (act b).1 = (c.rebuild depth id args b.instances).1 ∧
    (act b).2.instances = (c.rebuild depth id args b.instances).2 ∧ c.Faithful (act b).2

section

variable {c} {depth : Nat} {above : List DefinitionId} {m : SourceModule} {id : DefinitionId}
  {args : TypeArgs} {b : Building}

theorem Faithful.nothing (known : List Instance) : c.Faithful ⟨known, []⟩ := nofun

theorem Faithful.mono (h : c.Faithful b) {later : List Instance} (hlater : Later b.instances later) :
    c.Faithful { b with instances := later } :=
  fun id model hkept u hu => h id model hkept u (hlater.trans hu)

theorem Faithful.remember {model : Model} (h : c.Faithful b)
    (hmodel : args = [] → ∀ later, Later b.instances later →
      c.rebuild c.modules.classDepth id [] later = (some model, later)) :
    c.Faithful (remember id args model b).2 := by
  cases args with
  | cons a rest => exact h
  | nil =>
      intro x kept hkept
      rw [lookup_remember] at hkept
      by_cases hx : x = id
      · rw [if_pos hx] at hkept
        cases hkept
        rw [hx]
        exact hmodel rfl
      · rw [if_neg hx] at hkept
        exact h x kept hkept

/-- A model that was put together now is built so again, since what was read settles. -/
theorem Faithful.assemble {d : ClassDecl} {models : List Model} {known : List Instance}
    (h : c.Faithful b) (hall : c.rebuild c.modules.classDepth id args = c.rebuild depth id args)
    (hrun : c.rebuild depth id args known =
      (some (c.assemble m id d args models b.instances).1,
        (c.assemble m id d args models b.instances).2)) :
    c.Faithful (ClassifiedProgram.remember id args (c.assemble m id d args models b.instances).1
      { b with instances := (c.assemble m id d args models b.instances).2 }).2 := by
  have hreads := (c.fieldsOf_settles m id d args models b.instances).1
  refine (h.mono hreads).remember ?_
  rintro rfl later hlater
  have hsettles := (c.rebuild_settles depth id [] known).2 later
  rw [hrun] at hsettles
  rw [hall]
  exact hsettles hlater

/-- The bases are built one after the other, and each from what the ones before it leave. -/
theorem baseModels_rebuilds (args : TypeArgs)
    (hmodel : ∀ id args, c.Pending depth above id →
      c.Rebuilds depth id args (c.model depth above id args))
    {bases : List Expr} (hpending : ∀ x ∈ c.modelClasses m bases, c.Pending depth above x)
    (hb : c.Faithful b) :
    (c.baseModels depth above m args bases b).1 = (c.rebuildBases depth m args bases b.instances).1 ∧
      (c.baseModels depth above m args bases b).2.instances
        = (c.rebuildBases depth m args bases b.instances).2 ∧
      c.Faithful (c.baseModels depth above m args bases b).2 := by
  induction bases generalizing b with
  | nil => exact ⟨rfl, rfl, hb⟩
  | cons base rest ih =>
      have hnext := hb.mono (c.modelBase?_settles m args base b.instances).1
      have hrest : ∀ x ∈ c.modelClasses m rest, c.Pending depth above x :=
        fun x hx => hpending x (mem_modelClasses_cons hx)
      rcases modelBase?_spec m args base b.instances with
        ⟨hnone, _⟩ | ⟨x, types, hsome, hclass, hkind, _⟩
      · rw [baseModels_of_none hnone, rebuildBases_of_none hnone]
        exact ih hrest hnext
      -- The model of the base leaves the table from which the others are built.
      · have hx : x ∈ c.modelClasses m (base :: rest) := mem_modelClasses_of_model hclass hkind
        obtain ⟨hresult, hinstances, hbuilt⟩ := hmodel x types (hpending x hx) _ hnext
        obtain ⟨hothers, hlast, hfaithful⟩ := ih hrest hbuilt
        rw [baseModels_of_some hsome, rebuildBases_of_some hsome]
        dsimp only at hresult hinstances ⊢
        rw [hothers, hlast, hresult, hinstances]
        exact ⟨rfl, rfl, hfaithful⟩

/-- What is built for a class is what is built with nothing kept, by induction on the steps that are
left. -/
theorem model_rebuilds (hacyclic : ∀ id, ¬ Relation.TransGen c.BaseOf id id) (depth : Nat) :
    ∀ (above : List DefinitionId) (id : DefinitionId) (args : TypeArgs), c.Pending depth above id →
      c.Rebuilds depth id args (c.model depth above id args) := by
  induction depth with
  | zero => exact fun above id args hpending => hpending.depth_pos.elim
  | succ depth ih =>
      intro above id args hpending b hb
      have habove := hpending.not_mem hacyclic
      -- What is kept was built with other numbers of steps left, which give the same.
      have hall := rebuild_classDepth hacyclic hpending
      cases hknown : (if args.isEmpty then b.finished.lookup id else none) with
      | some model =>
          rw [model_of_known hknown]
          cases args with
          | nil =>
              have hagain := hb id model hknown b.instances (.refl _)
              rw [hall] at hagain
              rw [hagain]
              exact ⟨rfl, rfl, hb⟩
          | cons a rest => cases hknown
      | none =>
          cases hdecl : c.modules.classDecl? id with
          | none =>
              rw [model_of_no_class hknown habove hdecl, rebuild_of_no_class hdecl]
              exact ⟨rfl, rfl, hb⟩
          | some decl =>
              obtain ⟨m, d⟩ := decl
              obtain ⟨hmodels, hinstances, hbuilt⟩ :=
                baseModels_rebuilds args (ih (id :: above)) (hpending.bases habove hdecl) hb
              -- The class is put together from the same models and read with the same table.
              have hrun := rebuild_of_class hdecl depth args b.instances
              rw [model_of_class hknown habove hdecl]
              cases hbases : c.baseModels depth (id :: above) m args d.bases b with
              | mk models next =>
                  rw [hbases] at hmodels hinstances hbuilt
                  dsimp only at hmodels hinstances hbuilt hrun ⊢
                  rw [← hmodels, ← hinstances] at hrun
                  refine ⟨congrArg Prod.fst hrun.symm, ?_, hbuilt.assemble (hall args) hrun⟩
                  rw [remember_instances]
                  exact congrArg Prod.snd hrun.symm

end

end ClassifiedProgram

end Resolution
end WireTypes
