import WireTypes.Proofs.Resolution.ClassKinds

/-!
# Unbounded runs — classes and models without a limit on the steps

Classes are classified and models are built with a number of steps that is given in advance. Here are the
same recursions without such a number, as rules: a run is a finite tree of them. So a recursion that has a
run ends, and the number of steps that was given for it sufficed.

- `Program.ClassifiesTo`, `ClassifiedProgram.BuildsTo`: the rules, for a class and for its bases;
- `classify_run`: every class has a run, also where classes are among their own bases, since every step
  marks one class more;
- `model_run`: every model has a run, since no class is built below itself;
- `ClassifiesTo.unique`, `BuildsTo.unique`: and these are the only runs.
-/

namespace WireTypes
namespace Resolution

open Discovery Python

/-! ## Classes -/

def Classification.visit (s : Classification) (id : DefinitionId) : Classification :=
  { s with visiting := id :: s.visiting }

def Classification.addKind (s : Classification) (id : DefinitionId) (kind : ClassKind) :
    Classification :=
  { s with kinds := s.kinds ++ [(id, kind)] }

namespace Program

mutual

/-- Classifying a class, from what is known before to its kind and what is known then. -/
inductive ClassifiesTo (p : Program) :
    DefinitionId → Classification → ClassKind × Classification → Prop
  | known {id : DefinitionId} {s : Classification} {kind : ClassKind} :
      s.kinds.lookup id = some kind → ClassifiesTo p id s (kind, s)
  | visiting {id : DefinitionId} {s : Classification} :
      s.kinds.lookup id = none → id ∈ s.visiting → ClassifiesTo p id s (.plain, s)
  | undeclared {id : DefinitionId} {s : Classification} :
      s.kinds.lookup id = none → id ∉ s.visiting → p.classDecl? id = none →
      ClassifiesTo p id s (.plain, s.visit id)
  | declared {id : DefinitionId} {s : Classification} {m : SourceModule} {d : ClassDecl}
      {r : Ancestry × Classification} :
      s.kinds.lookup id = none → id ∉ s.visiting → p.classDecl? id = some (m, d) →
      BasesClassifyTo p m d.bases .none (s.visit id) r →
      ClassifiesTo p id s (r.1.result, r.2.addKind id r.1.result)

/-- Adding up what the bases of a class contribute, one after the other. -/
inductive BasesClassifyTo (p : Program) :
    SourceModule → List Expr → Ancestry → Classification → Ancestry × Classification → Prop
  | nil {m : SourceModule} {a : Ancestry} {s : Classification} : BasesClassifyTo p m [] a s (a, s)
  /-- A base that is no class of the tree. -/
  | other {m : SourceModule} {base : Expr} {rest : List Expr} {a : Ancestry} {s : Classification}
      {r : Ancestry × Classification} :
      p.classified.baseClass? m base = none →
      BasesClassifyTo p m rest (a.add (p.ancestryOf (fun _ => .plain) m base)) s r →
      BasesClassifyTo p m (base :: rest) a s r
  | base {m : SourceModule} {base : Expr} {rest : List Expr} {a : Ancestry} {s : Classification}
      {b : DefinitionId} {k : ClassKind × Classification} {r : Ancestry × Classification} :
      p.classified.baseClass? m base = some b → ClassifiesTo p b s k →
      BasesClassifyTo p m rest (a.add (p.ancestryOf (fun _ => k.1) m base)) k.2 r →
      BasesClassifyTo p m (base :: rest) a s r

end

section

variable {p : Program} {id : DefinitionId} {m : SourceModule} {bases : List Expr} {a : Ancestry}
  {s t : Classification}

/-- The classes that are not marked yet. -/
def unmet (p : Program) (s : Classification) : List DefinitionId :=
  p.classIds.filter (· ∉ s.visiting)

theorem unmet_le (h : s.visiting ⊆ t.visiting) : (p.unmet t).length ≤ (p.unmet s).length := by
  refine (List.monotone_filter_right p.classIds fun x hx => ?_).length_le
  simp only [decide_eq_true_eq] at hx ⊢
  exact fun hmem => hx (h hmem)

theorem unmet_visit_lt (hid : id ∈ p.classIds) (hnew : id ∉ s.visiting) :
    (p.unmet (s.visit id)).length < (p.unmet s).length := by
  have hfilter : p.unmet (s.visit id) = (p.unmet s).filter (· ≠ id) := by
    rw [unmet, unmet, List.filter_filter]
    refine List.filter_congr fun x _ => ?_
    simp [Classification.visit]
  rw [hfilter]
  refine List.length_filter_lt_length_iff_exists.2 ⟨id, ?_, by simp⟩
  exact List.mem_filter.2 ⟨hid, by simpa using hnew⟩

/-- Classifying a class with some steps left is a run, and no mark is taken back. -/
def HasRun (p : Program) (depth : Nat) (id : DefinitionId) (s : Classification) : Prop :=
  p.ClassifiesTo id s (p.classify depth id s) ∧ s.visiting ⊆ (p.classify depth id s).2.visiting

theorem classifyBases_run {depth : Nat}
    (hclass : ∀ b s, (p.unmet s).length < depth → p.HasRun depth b s)
    (hdepth : (p.unmet s).length < depth) :
    p.BasesClassifyTo m bases a s (p.classifyBases depth m bases a s) ∧
      s.visiting ⊆ (p.classifyBases depth m bases a s).2.visiting := by
  induction bases generalizing a s with
  | nil => exact ⟨.nil, List.Subset.refl _⟩
  | cons base rest ih =>
      rw [classifyBases_cons]
      rcases baseAncestry_run (p := p) m base (p.classify depth) s with
        ⟨hnone, hrun⟩ | ⟨b, hb, hrun⟩
      · rw [hrun fun _ => .plain]
        rcases ih hdepth with ⟨hrest, hgrows⟩
        exact ⟨.other hnone hrest, hgrows⟩
      · rw [hrun (fun _ => (p.classify depth b s).1) rfl]
        rcases hclass b s hdepth with ⟨hbase, hfirst⟩
        rcases ih ((unmet_le hfirst).trans_lt hdepth) with ⟨hrest, hgrows⟩
        exact ⟨.base hb hbase hrest, List.Subset.trans hfirst hgrows⟩

/-- Every class is classified in finitely many steps, by induction on the steps that are left: a class that
is looked at was not marked before. -/
theorem classify_run (depth : Nat) (id : DefinitionId) (s : Classification)
    (hdepth : (p.unmet s).length < depth) : p.HasRun depth id s := by
  induction depth generalizing id s with
  | zero => exact absurd hdepth (Nat.not_lt_zero _)
  | succ depth ih =>
      unfold HasRun
      cases hknown : s.kinds.lookup id with
      | some kind =>
          rw [classify_of_known hknown]
          exact ⟨.known hknown, List.Subset.refl _⟩
      | none =>
          by_cases hvisiting : id ∈ s.visiting
          · rw [classify_of_visiting hknown hvisiting]
            exact ⟨.visiting hknown hvisiting, List.Subset.refl _⟩
          · cases hdecl : p.classDecl? id with
            | none =>
                rw [classify_of_undeclared hknown hvisiting hdecl]
                exact ⟨.undeclared hknown hvisiting hdecl, List.subset_cons_self _ _⟩
            | some decl =>
                obtain ⟨m, d⟩ := decl
                have hid := ClassifiedProgram.mem_classIds_of_decl hdecl
                have hless := unmet_visit_lt hid hvisiting
                have hbases : p.BasesClassifyTo m d.bases .none (s.visit id)
                    (p.classifyBases depth m d.bases .none (s.visit id)) ∧ _ :=
                  classifyBases_run ih (by omega)
                rw [classify_of_class hknown hvisiting hdecl]
                refine ⟨.declared hknown hvisiting hdecl hbases.1, ?_⟩
                exact List.Subset.trans (List.subset_cons_self _ _) hbases.2

end

/-- Whatever runs there are of a class, they are one. -/
theorem ClassifiesTo.unique {p : Program} {id : DefinitionId} {s : Classification}
    {k k' : ClassKind × Classification} (h : p.ClassifiesTo id s k) (h' : p.ClassifiesTo id s k') :
    k = k' := by
  revert k'
  -- By induction on the run, which may be one of bases as well.
  refine @ClassifiesTo.rec p (fun id s k _ => ∀ {k'}, p.ClassifiesTo id s k' → k = k')
    (fun m bases a s r _ => ∀ {r'}, p.BasesClassifyTo m bases a s r' → r = r')
    ?known ?visiting ?undeclared ?declared ?nil ?other ?base id s k h
  case known =>
    intro id s kind hknown k' h'
    cases h' <;> simp_all
  case visiting =>
    intro id s hnone hvisiting k' h'
    cases h' <;> simp_all
  case undeclared =>
    intro id s hnone hvisiting hdecl k' h'
    cases h' <;> simp_all
  case declared =>
    intro id s m d r hnone hvisiting hdecl _ ih k' h'
    cases h' with
    | declared _ _ hdecl' hbases' =>
        cases hdecl.symm.trans hdecl'
        rw [ih hbases']
    | known hknown => simp [hnone] at hknown
    | visiting _ hvisiting' => exact absurd hvisiting' hvisiting
    | undeclared _ _ hdecl' => simp [hdecl] at hdecl'
  case nil =>
    intro m a s r' h'
    cases h'
    rfl
  case other =>
    intro m base rest a s r hnone _ ih r' h'
    cases h' with
    | other _ hrest' => exact ih hrest'
    | base hb' => simp [hnone] at hb'
  case base =>
    intro m base rest a s b k r hb _ _ hbase hrest r' h'
    cases h' with
    | other hnone' => simp [hb] at hnone'
    | base hb' hbase' hrest' =>
        cases hb.symm.trans hb'
        cases hbase hbase'
        exact hrest hrest'

/-! ### All classes -/

/-- Classifying some classes, one after the other. -/
inductive AllClassifyTo (p : Program) :
    List DefinitionId → List (DefinitionId × ClassKind) → List (DefinitionId × ClassKind) → Prop
  | nil {kinds : List (DefinitionId × ClassKind)} : AllClassifyTo p [] kinds kinds
  | cons {id : DefinitionId} {rest : List DefinitionId} {kinds last : List (DefinitionId × ClassKind)}
      {r : ClassKind × Classification} :
      ClassifiesTo p id ⟨kinds, []⟩ r → AllClassifyTo p rest r.2.kinds last →
      AllClassifyTo p (id :: rest) kinds last

theorem foldl_classifyNext_run (p : Program) (ids : List DefinitionId)
    (kinds : List (DefinitionId × ClassKind)) :
    p.AllClassifyTo ids kinds (ids.foldl p.classifyNext kinds) := by
  induction ids generalizing kinds with
  | nil => exact .nil
  | cons id rest ih =>
      have hdepth : (p.unmet ⟨kinds, []⟩).length < p.classDepth :=
        Nat.lt_succ_of_le (List.length_filter_le _ _)
      exact .cons (classify_run p.classDepth id ⟨kinds, []⟩ hdepth).1 (ih _)

theorem AllClassifyTo.unique {p : Program} {ids : List DefinitionId}
    {kinds last last' : List (DefinitionId × ClassKind)} (h : p.AllClassifyTo ids kinds last)
    (h' : p.AllClassifyTo ids kinds last') : last = last' := by
  induction h with
  | nil =>
      cases h'
      rfl
  | cons hid _ ih =>
      cases h' with
      | cons hid' hrest' =>
          cases hid.unique hid'
          exact ih hrest'

end Program

/-! ## Models -/

/-- The model that is kept for a class without arguments. -/
def Building.kept? (b : Building) (id : DefinitionId) (args : TypeArgs) : Option Model :=
  if args.isEmpty then b.finished.lookup id else none

namespace ClassifiedProgram

variable (c : ClassifiedProgram)

/-- Puts the model of a class together after its bases. -/
def finish (m : SourceModule) (id : DefinitionId) (d : ClassDecl) (args : TypeArgs)
    (bases : List Model × Building) : Option Model × Building :=
  let assembled := c.assemble m id d args bases.1 bases.2.instances
  (some assembled.1,
    (remember id args assembled.1 { bases.2 with instances := assembled.2 }).2)

mutual

/-- Building the model of a class below others, from what is kept before to the model and what is kept
then. -/
inductive BuildsTo : List DefinitionId → DefinitionId → TypeArgs → Building →
    Option Model × Building → Prop
  | known {above : List DefinitionId} {id : DefinitionId} {args : TypeArgs} {b : Building}
      {model : Model} : b.kept? id args = some model → BuildsTo above id args b (some model, b)
  | above {above : List DefinitionId} {id : DefinitionId} {args : TypeArgs} {b : Building} :
      b.kept? id args = none → id ∈ above → BuildsTo above id args b (none, b)
  | undeclared {above : List DefinitionId} {id : DefinitionId} {args : TypeArgs} {b : Building} :
      b.kept? id args = none → id ∉ above → c.modules.classDecl? id = none →
      BuildsTo above id args b (none, b)
  | declared {above : List DefinitionId} {id : DefinitionId} {args : TypeArgs} {b : Building}
      {m : SourceModule} {d : ClassDecl} {bases : List Model × Building} :
      b.kept? id args = none → id ∉ above → c.modules.classDecl? id = some (m, d) →
      BasesBuildTo (id :: above) m args d.bases b bases →
      BuildsTo above id args b (c.finish m id d args bases)

/-- Building the models among the bases of a class, one after the other. -/
inductive BasesBuildTo : List DefinitionId → SourceModule → TypeArgs → List Expr → Building →
    List Model × Building → Prop
  | nil {above : List DefinitionId} {m : SourceModule} {args : TypeArgs} {b : Building} :
      BasesBuildTo above m args [] b ([], b)
  /-- A base that is no model. -/
  | other {above : List DefinitionId} {m : SourceModule} {args : TypeArgs} {base : Expr}
      {rest : List Expr} {b : Building} {r : List Model × Building} :
      (c.modelBase? m args base b.instances).1 = none →
      BasesBuildTo above m args rest
        { b with instances := (c.modelBase? m args base b.instances).2 } r →
      BasesBuildTo above m args (base :: rest) b r
  | base {above : List DefinitionId} {m : SourceModule} {args : TypeArgs} {base : Expr}
      {rest : List Expr} {b : Building} {id : DefinitionId} {types : TypeArgs}
      {built : Option Model × Building} {others : List Model × Building} :
      (c.modelBase? m args base b.instances).1 = some (id, types) →
      BuildsTo above id types
        { b with instances := (c.modelBase? m args base b.instances).2 } built →
      BasesBuildTo above m args rest built.2 others →
      BasesBuildTo above m args (base :: rest) b (built.1.toList ++ others.1, others.2)

end

section

variable {c} {depth : Nat} {above : List DefinitionId} {m : SourceModule} {args : TypeArgs}
  {id : DefinitionId}

theorem baseModels_run (hmodel : ∀ id args b, c.Pending depth above id →
      c.BuildsTo above id args b (c.model depth above id args b))
    {bases : List Expr} (hpending : ∀ x ∈ c.modelClasses m bases, c.Pending depth above x)
    (b : Building) : c.BasesBuildTo above m args bases b (c.baseModels depth above m args bases b) := by
  induction bases generalizing b with
  | nil => exact .nil
  | cons base rest ih =>
      have hrest := ih fun x hx => hpending x (mem_modelClasses_cons hx)
      rcases modelBase?_spec m args base b.instances with
        ⟨hnone, _⟩ | ⟨x, types, hsome, hclass, hkind, _⟩
      · rw [baseModels_of_none hnone]
        exact .other hnone (hrest _)
      · have hx : x ∈ c.modelClasses m (base :: rest) := by
          rw [modelClasses_cons_of_model hclass hkind]
          exact List.mem_cons_self
        rw [baseModels_of_some hsome]
        exact .base hsome (hmodel x types _ (hpending x hx)) (hrest _)

/-- Every model is built in finitely many steps, by induction on the steps that are left: the classes that
are being built are different. -/
theorem model_run (depth : Nat) (above : List DefinitionId) (id : DefinitionId) (args : TypeArgs)
    (b : Building) (hpending : c.Pending depth above id) :
    c.BuildsTo above id args b (c.model depth above id args b) := by
  induction depth generalizing above id args b with
  | zero => exact hpending.depth_pos.elim
  | succ depth ih =>
      cases hkept : b.kept? id args with
      | some model =>
          rw [model_of_known hkept]
          exact .known hkept
      | none =>
          by_cases habove : id ∈ above
          · rw [model_of_above hkept habove]
            exact .above hkept habove
          · cases hdecl : c.modules.classDecl? id with
            | none =>
                rw [model_of_no_class hkept habove hdecl]
                exact .undeclared hkept habove hdecl
            | some decl =>
                obtain ⟨m, d⟩ := decl
                have hid := mem_classIds_of_decl hdecl
                have hbases : ∀ x ∈ c.modelClasses m d.bases, c.Pending depth (id :: above) x := by
                  intro x hx
                  rw [← modelBasesOf_eq hdecl] at hx
                  exact hpending.base habove hid hx
                rw [model_of_class hkept habove hdecl]
                exact .declared hkept habove hdecl
                  (baseModels_run (fun x types b => ih (id :: above) x types b) hbases b)

theorem modelOf_run (id : DefinitionId) (args : TypeArgs) (b : Building) :
    c.BuildsTo [] id args b (c.modelOf id args b) :=
  model_run c.modules.classDepth [] id args b (.start id)

/-- Whatever runs there are of a model, they are one. -/
theorem BuildsTo.unique {b : Building} {r r' : Option Model × Building}
    (h : c.BuildsTo above id args b r) (h' : c.BuildsTo above id args b r') : r = r' := by
  revert r'
  -- By induction on the run, which may be one of bases as well.
  refine @BuildsTo.rec c
    (fun above id args b r _ => ∀ {r'}, c.BuildsTo above id args b r' → r = r')
    (fun above m args bases b r _ => ∀ {r'}, c.BasesBuildTo above m args bases b r' → r = r')
    ?known ?above ?undeclared ?declared ?nil ?other ?base above id args b r h
  case known =>
    intro above id args b model hkept r' h'
    cases h' <;> simp_all
  case above =>
    intro above id args b hkept habove r' h'
    cases h' <;> simp_all
  case undeclared =>
    intro above id args b hkept habove hdecl r' h'
    cases h' <;> simp_all
  case declared =>
    intro above id args b m d bases hkept habove hdecl _ ih r' h'
    cases h' with
    | declared _ _ hdecl' hbases' =>
        cases hdecl.symm.trans hdecl'
        rw [ih hbases']
    | known hkept' => simp [hkept] at hkept'
    | above _ habove' => exact absurd habove' habove
    | undeclared _ _ hdecl' => simp [hdecl] at hdecl'
  case nil =>
    intro above m args b r' h'
    cases h'
    rfl
  case other =>
    intro above m args base rest b r hnone _ ih r' h'
    cases h' with
    | other _ hrest' => exact ih hrest'
    | base hsome' => simp [hnone] at hsome'
  case base =>
    intro above m args base rest b id types built others hsome _ _ hbuilt hothers r' h'
    cases h' with
    | other hnone' => simp [hsome] at hnone'
    | base hsome' hbuilt' hothers' =>
        cases hsome.symm.trans hsome'
        cases hbuilt hbuilt'
        rw [hothers hothers']

end

end ClassifiedProgram

end Resolution
end WireTypes
