import WireTypes.Proofs.Resolution.Classification
import WireTypes.Proofs.Resolution.Rebuilding

/-!
# Marks — models that are built with one set of marked classes

A class has no model while its own bases are built. The classes that are being built may be handed down to
the bases, or one set of them may be handed on from each base to the next one, in which a class is marked
before its bases are built and unmarked behind them. A class that stays marked by mistake would be left out
wherever it is a base again.

- `markingModel`: models as they are built with one set of marks;
- `markingModel_spec`: it gives and keeps the same as with the classes above, and a class that is declared
  leaves the marks as they were.
-/

namespace WireTypes
namespace Resolution

open Discovery Python

/-- What is kept while models are built, and the classes that are marked. -/
@[ext]
structure Marking where
  building : Building
  marks : Finset DefinitionId

namespace Marking

def mark (id : DefinitionId) (s : Marking) : Marking := { s with marks := insert id s.marks }

def unmark (id : DefinitionId) (s : Marking) : Marking := { s with marks := s.marks.erase id }

/-- Does what leaves the marks alone. -/
def keeping {α : Type} (act : StateM Building α) : StateM Marking α := fun s =>
  let (a, building) := act.run s.building
  (a, { s with building })

end Marking

namespace ClassifiedProgram

variable (c : ClassifiedProgram)

/-- The model of a class with types for its parameters. The class is marked while its bases are built, and
a marked class has no model. -/
def markingModel : Nat → DefinitionId → TypeArgs → StateM Marking (Option Model)
  | 0, _, _ => pure none
  | depth + 1, id, args => do
      let s ← get
      match if args.isEmpty then s.building.finished.lookup id else none with
      | some model => return some model
      | none =>
          if id ∈ s.marks then return none
          modify (·.mark id)
          match c.modules.classDecl? id with
          -- A class that is not declared stays marked.
          | none => return none
          | some (m, d) =>
              let bases ← buildEach
                (fun base => Marking.keeping (Building.resolving (c.modelBase? m args base)))
                (fun base => markingModel depth base.1 base.2) d.bases
              let model ← Marking.keeping (Building.resolving (c.assemble m id d args bases))
              modify (·.unmark id)
              Marking.keeping (remember id args model)
              return some model

/-- The models of bases, built one after the other with one set of marks. -/
def markingBases (depth : Nat) (m : SourceModule) (args : TypeArgs) (bases : List Expr) :
    StateM Marking (List Model) :=
  buildEach (fun base => Marking.keeping (Building.resolving (c.modelBase? m args base)))
    (fun base => c.markingModel depth base.1 base.2) bases

/-! ## One step -/

section

variable {c} {depth : Nat} {m : SourceModule} {d : ClassDecl} {id : DefinitionId} {args : TypeArgs}
  {base : Expr} {rest : List Expr} {s : Marking}

theorem markingModel_of_known {model : Model}
    (h : (if args.isEmpty then s.building.finished.lookup id else none) = some model) :
    c.markingModel (depth + 1) id args s = (some model, s) := by
  simp only [markingModel, bind, StateT.bind, get, getThe, MonadStateOf.get, StateT.get, pure, h]
  rfl

theorem markingModel_of_mark
    (h : (if args.isEmpty then s.building.finished.lookup id else none) = none) (hmark : id ∈ s.marks) :
    c.markingModel (depth + 1) id args s = (none, s) := by
  simp only [markingModel, bind, StateT.bind, get, getThe, MonadStateOf.get, StateT.get, pure, h,
    hmark, if_true]
  rfl

theorem markingModel_of_no_class
    (h : (if args.isEmpty then s.building.finished.lookup id else none) = none) (hmark : id ∉ s.marks)
    (hdecl : c.modules.classDecl? id = none) :
    c.markingModel (depth + 1) id args s = (none, s.mark id) := by
  simp only [markingModel, bind, StateT.bind, get, getThe, MonadStateOf.get, StateT.get, pure, h,
    hmark, if_false, hdecl]
  rfl

theorem markingModel_of_class
    (h : (if args.isEmpty then s.building.finished.lookup id else none) = none) (hmark : id ∉ s.marks)
    (hdecl : c.modules.classDecl? id = some (m, d)) :
    c.markingModel (depth + 1) id args s =
      (let bases := c.markingBases depth m args d.bases (s.mark id)
       let assembled := c.assemble m id d args bases.1 bases.2.building.instances
       (some assembled.1,
        ⟨(remember id args assembled.1 { bases.2.building with instances := assembled.2 }).2,
          bases.2.marks.erase id⟩)) := by
  simp only [markingModel, bind, StateT.bind, get, getThe, MonadStateOf.get, StateT.get, pure, h,
    hmark, if_false, hdecl]
  rfl

theorem markingBases_of_none (h : (c.modelBase? m args base s.building.instances).1 = none) :
    c.markingBases depth m args (base :: rest) s = c.markingBases depth m args rest
      { s with building.instances := (c.modelBase? m args base s.building.instances).2 } :=
  buildEach_of_none h

theorem markingBases_of_some {types : TypeArgs}
    (h : (c.modelBase? m args base s.building.instances).1 = some (id, types)) :
    c.markingBases depth m args (base :: rest) s =
      (let built := c.markingModel depth id types
        { s with building.instances := (c.modelBase? m args base s.building.instances).2 }
       let others := c.markingBases depth m args rest built.2
       (built.1.toList ++ others.1, others.2)) := by
  unfold markingBases
  exact buildEach_of_some (b := (id, types)) h

end

/-! ## The marks and the classes above -/

section

variable {c} {depth : Nat} {above : List DefinitionId}

theorem Declared.of_isModel (h : c.Declared) {id : DefinitionId} (hkind : (c.kind id).isModel = true) :
    (c.modules.classDecl? id).isSome := by
  apply h
  intro hplain
  rw [hplain] at hkind
  cases hkind

/-- The bases of a class are models, which are declared, so that they leave the marks as they were. -/
theorem markingBases_spec (hdeclared : c.Declared)
    (hmodel : ∀ id args b, (c.modules.classDecl? id).isSome →
      c.markingModel depth id args ⟨b, above.toFinset⟩ =
        ((c.model depth above id args b).1, ⟨(c.model depth above id args b).2, above.toFinset⟩))
    (m : SourceModule) (args : TypeArgs) (bases : List Expr) (b : Building) :
    c.markingBases depth m args bases ⟨b, above.toFinset⟩ =
      ((c.baseModels depth above m args bases b).1,
        ⟨(c.baseModels depth above m args bases b).2, above.toFinset⟩) := by
  induction bases generalizing b with
  | nil => rfl
  | cons base rest ih =>
      rcases modelBase?_spec m args base b.instances with ⟨hnone, _⟩ | ⟨x, types, hsome, _, hkind, _⟩
      · rw [markingBases_of_none hnone, baseModels_of_none hnone]
        exact ih _
      · rw [markingBases_of_some hsome, baseModels_of_some hsome]
        simp only [hmodel x types _ (hdeclared.of_isModel hkind), ih]

/-- With one set of marks the same is built and kept as with the classes above. The marks are as before
behind every model, and behind every class that is declared. By induction on the steps. -/
theorem markingModel_spec (hdeclared : c.Declared) (depth : Nat) :
    ∀ (above : List DefinitionId) (id : DefinitionId) (args : TypeArgs) (b : Building),
      (c.markingModel depth id args ⟨b, above.toFinset⟩).1 = (c.model depth above id args b).1 ∧
      (c.markingModel depth id args ⟨b, above.toFinset⟩).2.building
        = (c.model depth above id args b).2 ∧
      ((c.model depth above id args b).1.isSome ∨ (c.modules.classDecl? id).isSome →
        (c.markingModel depth id args ⟨b, above.toFinset⟩).2.marks = above.toFinset) := by
  induction depth with
  | zero => exact fun above id args b => ⟨rfl, rfl, fun _ => rfl⟩
  | succ depth ih =>
      intro above id args b
      cases hknown : (if args.isEmpty then b.finished.lookup id else none) with
      | some model =>
          rw [markingModel_of_known hknown, model_of_known hknown]
          exact ⟨rfl, rfl, fun _ => rfl⟩
      | none =>
          by_cases habove : id ∈ above
          · rw [markingModel_of_mark hknown (List.mem_toFinset.mpr habove), model_of_above hknown habove]
            exact ⟨rfl, rfl, fun _ => rfl⟩
          have hmark : id ∉ above.toFinset := mt List.mem_toFinset.mp habove
          cases hdecl : c.modules.classDecl? id with
          | none =>
              rw [markingModel_of_no_class hknown hmark hdecl, model_of_no_class hknown habove hdecl]
              exact ⟨rfl, rfl, by simp⟩
          | some decl =>
              obtain ⟨m, d⟩ := decl
              have hmarks : Marking.mark id ⟨b, above.toFinset⟩ = ⟨b, (id :: above).toFinset⟩ := by
                rw [List.toFinset_cons]
                rfl
              -- The bases leave the marks as they are, so that the class is unmarked in the same set.
              have hmodel (x : DefinitionId) (types : TypeArgs) (b : Building)
                  (hx : (c.modules.classDecl? x).isSome) :
                  c.markingModel depth x types ⟨b, (id :: above).toFinset⟩ =
                    ((c.model depth (id :: above) x types b).1,
                      ⟨(c.model depth (id :: above) x types b).2, (id :: above).toFinset⟩) := by
                obtain ⟨hresult, hbuilding, hsame⟩ := ih (id :: above) x types b
                exact Prod.ext hresult (Marking.ext hbuilding (hsame (.inr hx)))
              have hbases := markingBases_spec hdeclared hmodel m args d.bases b
              rw [markingModel_of_class hknown hmark hdecl, model_of_class hknown habove hdecl, hmarks,
                hbases]
              refine ⟨rfl, rfl, fun _ => ?_⟩
              rw [List.toFinset_cons]
              exact Finset.erase_insert hmark

/-- Behind every model the marks are as they were before it. -/
theorem marks_of_markingModel (hdeclared : c.Declared) {id : DefinitionId} {args : TypeArgs}
    {s : Marking} {model : Model} (h : (c.markingModel depth id args s).1 = some model) :
    (c.markingModel depth id args s).2.marks = s.marks := by
  -- Any set of marks is that of some classes above.
  obtain ⟨b, marks⟩ := s
  have hspec := markingModel_spec hdeclared depth marks.toList id args b
  rw [Finset.toList_toFinset] at hspec
  obtain ⟨hresult, -, hsame⟩ := hspec
  have hbuilt : (c.model depth marks.toList id args b).1.isSome := by
    rw [← hresult, h]
    rfl
  exact hsame (.inl hbuilt)

end

end ClassifiedProgram

end Resolution
end WireTypes
