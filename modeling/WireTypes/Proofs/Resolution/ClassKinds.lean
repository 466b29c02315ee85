import WireTypes.Proofs.Resolution.Inheritance

/-!
# Class kinds — a class has one kind, in whatever order classes are looked at

Classifying a class gives it the kind that its bases add up to, and remembers it for the classes that are
looked at later.

- `HasKind`: the kind of a class, by recursion over its bases; there is at most one (`HasKind.unique`);
- `classify_spec`: classifying gives this kind, from any table of such kinds, by induction on the steps that
  are left;
- `hasKind_of_classified`: so all classes have their kinds after they were classified in any order.
-/

namespace WireTypes
namespace Resolution

open Discovery Python

namespace Program

variable (p : Program)

/-! ## One base -/

/-- What a base contributes when the kinds of the classes of the tree are given. -/
def ancestryOf (kind : DefinitionId → ClassKind) (m : SourceModule) (base : Expr) : Ancestry :=
  (p.baseAncestry m (fun id => pure (kind id)) base ⟨[], []⟩).1

/-- What bases add up to. -/
def kindFrom (kind : DefinitionId → ClassKind) (m : SourceModule) (bases : List Expr) : ClassKind :=
  ((bases.map (p.ancestryOf kind m)).foldl Ancestry.add Ancestry.none).result

section

variable {p} {kind : DefinitionId → ClassKind} {m : SourceModule} {base : Expr}

/-- Only the class that a base names is classified. -/
theorem baseAncestry_run (m : SourceModule) (base : Expr)
    (classify : DefinitionId → StateM Classification ClassKind) (s : Classification) :
    (p.classified.baseClass? m base = none ∧
        ∀ kind, p.baseAncestry m classify base s = (p.ancestryOf kind m base, s)) ∨
      ∃ b, p.classified.baseClass? m base = some b ∧
        ∀ kind, kind b = (classify b s).1 →
          p.baseAncestry m classify base s = (p.ancestryOf kind m base, (classify b s).2) := by
  have hresolve : ∀ name, p.classified.resolve m name = p.resolve m name := fun _ => rfl
  cases base with
  | name name =>
      cases hsymbol : p.resolve m name with
      | classDef b =>
          refine .inr ⟨b, by simp [ClassifiedProgram.baseClass?, hresolve, hsymbol], ?_⟩
          intro kind hkind
          cases hrun : classify b s with
          | mk k s' =>
              rw [hrun] at hkind
              simp [baseAncestry, ancestryOf, hsymbol, hrun, hkind, bind, StateT.bind, pure,
                StateT.pure]
      | _ =>
          refine .inl ⟨by simp [ClassifiedProgram.baseClass?, hresolve, hsymbol], fun kind => ?_⟩
          simp [baseAncestry, ancestryOf, hsymbol, pure, StateT.pure]
  | type hint =>
      cases hint with
      | subscript name args =>
          cases hsymbol : p.resolve m name with
          | classDef b =>
              refine .inr ⟨b, by simp [ClassifiedProgram.baseClass?, hresolve, hsymbol], ?_⟩
              intro kind hkind
              cases hrun : classify b s with
              | mk k s' =>
                  rw [hrun] at hkind
                  simp only [baseAncestry, ancestryOf, hsymbol, hrun, hkind, bind, StateT.bind, pure,
                    StateT.pure]
                  split <;> rfl
          | _ =>
              refine .inl ⟨by simp [ClassifiedProgram.baseClass?, hresolve, hsymbol], fun kind => ?_⟩
              simp [baseAncestry, ancestryOf, hsymbol, pure, StateT.pure]
      | _ => exact .inl ⟨rfl, fun kind => rfl⟩
  | _ => exact .inl ⟨rfl, fun kind => rfl⟩

theorem ancestryOf_congr {kind' : DefinitionId → ClassKind}
    (h : ∀ b, p.classified.baseClass? m base = some b → kind b = kind' b) :
    p.ancestryOf kind m base = p.ancestryOf kind' m base := by
  rcases baseAncestry_run (p := p) m base (fun id => pure (kind id)) ⟨[], []⟩ with
    ⟨_, hrun⟩ | ⟨b, hb, hrun⟩
  · rw [ancestryOf, hrun kind']
  · rw [ancestryOf, hrun kind' (h b hb).symm]

end

/-! ## The kind of a class -/

/-- `b` is a base of `id`, with arguments or without. -/
def BaseOf (b id : DefinitionId) : Prop := b ∈ p.classified.basesOf id

/-- No class is above itself. -/
def Acyclic : Prop := ∀ id, ¬ Relation.TransGen p.BaseOf id id

/-- A class has the kind that its bases add up to, and one that is not declared is plain. -/
inductive HasKind : DefinitionId → ClassKind → Prop
  | undeclared {id : DefinitionId} : p.classDecl? id = none → HasKind id .plain
  | declared {id : DefinitionId} {m : SourceModule} {d : ClassDecl} (kinds : DefinitionId → ClassKind) :
      p.classDecl? id = some (m, d) → (∀ b, p.BaseOf b id → HasKind b (kinds b)) →
      HasKind id (p.kindFrom kinds m d.bases)

section

variable {p} {id : DefinitionId} {kind kind' : DefinitionId → ClassKind} {m : SourceModule}

theorem baseOf_iff {d : ClassDecl} (hdecl : p.classDecl? id = some (m, d)) {b : DefinitionId} :
    p.BaseOf b id ↔ ∃ base ∈ d.bases, p.classified.baseClass? m base = some b :=
  ClassifiedProgram.mem_basesOf (c := p.classified) hdecl

theorem kindFrom_congr {bases : List Expr}
    (h : ∀ base ∈ bases, ∀ b, p.classified.baseClass? m base = some b → kind b = kind' b) :
    p.kindFrom kind m bases = p.kindFrom kind' m bases := by
  have hbases : bases.map (p.ancestryOf kind m) = bases.map (p.ancestryOf kind' m) :=
    List.map_congr_left fun base hbase => ancestryOf_congr (h base hbase)
  rw [kindFrom, kindFrom, hbases]

theorem HasKind.unique {k k' : ClassKind} (h : p.HasKind id k) (h' : p.HasKind id k') : k = k' := by
  induction h generalizing k' with
  | undeclared hnone =>
      cases h' with
      | undeclared _ => rfl
      | declared _ hdecl _ =>
          rw [hnone] at hdecl
          cases hdecl
  | declared kinds hdecl _ ih =>
      cases h' with
      | undeclared hnone =>
          rw [hnone] at hdecl
          cases hdecl
      | declared kinds' hdecl' hbases' =>
          rw [hdecl] at hdecl'
          cases hdecl'
          refine kindFrom_congr fun base hbase b hb => ?_
          have hmem := (baseOf_iff hdecl).2 ⟨base, hbase, hb⟩
          exact ih b hmem (hbases' b hmem)

end

/-! ## Classifying -/

/-- What holds while classes are looked at: the kinds that are known are right, and a class that was looked
at without getting a kind is above, unless it is not declared. -/
structure Settled (above : List DefinitionId) (s : Classification) : Prop where
  known : ∀ id kind, s.kinds.lookup id = some kind → p.HasKind id kind
  visiting : ∀ id ∈ s.visiting, s.kinds.lookup id = none →
    id ∈ above ∨ p.classDecl? id = none

/-- What classifying a class leads to. -/
structure Classifies (above : List DefinitionId) (id : DefinitionId) (s : Classification)
    (r : ClassKind × Classification) : Prop where
  kind : p.HasKind id r.1
  settled : p.Settled above r.2
  grows : ∀ x, (s.kinds.lookup x).isSome → (r.2.kinds.lookup x).isSome
  found : (p.classDecl? id).isSome → (r.2.kinds.lookup id).isSome

/-- The bases of a class, classified one after the other. -/
def classifyBases (depth : Nat) (m : SourceModule) (bases : List Expr) (a : Ancestry) :
    StateM Classification Ancestry :=
  bases.foldlM (fun a base => do return a.add (← p.baseAncestry m (p.classify depth) base)) a

section

variable {p} {id : DefinitionId} {depth : Nat} {above : List DefinitionId} {s : Classification}
  {m : SourceModule} {d : ClassDecl}

/-! ### One class -/

theorem classify_of_known {kind : ClassKind} (h : s.kinds.lookup id = some kind) :
    p.classify (depth + 1) id s = (kind, s) := by
  simp only [classify, bind, StateT.bind, get, getThe, MonadStateOf.get, StateT.get, pure, h]
  rfl

theorem classify_of_visiting (h : s.kinds.lookup id = none) (hvisiting : id ∈ s.visiting) :
    p.classify (depth + 1) id s = (.plain, s) := by
  simp only [classify, bind, StateT.bind, get, getThe, MonadStateOf.get, StateT.get, pure, h, hvisiting,
    if_true]
  rfl

theorem classify_of_undeclared (h : s.kinds.lookup id = none) (hvisiting : id ∉ s.visiting)
    (hdecl : p.classDecl? id = none) :
    p.classify (depth + 1) id s = (.plain, { s with visiting := id :: s.visiting }) := by
  simp only [classify, bind, StateT.bind, get, getThe, MonadStateOf.get, StateT.get, pure, h, hvisiting,
    if_false, hdecl]
  rfl

theorem classify_of_class (h : s.kinds.lookup id = none) (hvisiting : id ∉ s.visiting)
    (hdecl : p.classDecl? id = some (m, d)) :
    p.classify (depth + 1) id s =
      (let r := p.classifyBases depth m d.bases .none { s with visiting := id :: s.visiting }
       (r.1.result, { r.2 with kinds := r.2.kinds ++ [(id, r.1.result)] })) := by
  simp only [classify, bind, StateT.bind, get, getThe, MonadStateOf.get, StateT.get, pure, h, hvisiting,
    if_false, hdecl]
  rfl

/-! ### All bases -/

theorem classifyBases_cons (base : Expr) (rest : List Expr) (a : Ancestry) :
    p.classifyBases depth m (base :: rest) a s =
      (let r := p.baseAncestry m (p.classify depth) base s
       p.classifyBases depth m rest (a.add r.1) r.2) := by
  rw [classifyBases, List.foldlM_cons]
  rfl

/-- A base says what it does by the kind that its class has. -/
theorem baseAncestry_spec {base : Expr} (hsettled : p.Settled above s)
    (hbase : ∀ b, p.classified.baseClass? m base = some b →
      p.Classifies above b s (p.classify depth b s)) :
    p.Settled above (p.baseAncestry m (p.classify depth) base s).2 ∧
      (∀ x, (s.kinds.lookup x).isSome →
        ((p.baseAncestry m (p.classify depth) base s).2.kinds.lookup x).isSome) ∧
      ∀ kind, (∀ b, p.classified.baseClass? m base = some b → ∀ k, p.HasKind b k → kind b = k) →
        (p.baseAncestry m (p.classify depth) base s).1 = p.ancestryOf kind m base := by
  rcases baseAncestry_run (p := p) m base (p.classify depth) s with
    ⟨_, hrun⟩ | ⟨b, hb, hrun⟩
  · refine ⟨?_, ?_, fun kind _ => by rw [hrun kind]⟩
    · rw [hrun fun _ => .plain]
      exact hsettled
    · rw [hrun fun _ => .plain]
      exact fun _ h => h
  · have hclass := hbase b hb
    refine ⟨?_, ?_, fun kind hkind => by rw [hrun kind (hkind b hb _ hclass.kind)]⟩
    · rw [hrun (fun _ => (p.classify depth b s).1) rfl]
      exact hclass.settled
    · rw [hrun (fun _ => (p.classify depth b s).1) rfl]
      exact hclass.grows

/-- The bases add up to what they say. -/
theorem classifyBases_spec {bases : List Expr} (a : Ancestry) (hsettled : p.Settled above s)
    (hbases : ∀ base ∈ bases, ∀ b, p.classified.baseClass? m base = some b →
      ∀ s, p.Settled above s → p.Classifies above b s (p.classify depth b s)) :
    p.Settled above (p.classifyBases depth m bases a s).2 ∧
      (∀ x, (s.kinds.lookup x).isSome →
        ((p.classifyBases depth m bases a s).2.kinds.lookup x).isSome) ∧
      ∀ kind, (∀ base ∈ bases, ∀ b, p.classified.baseClass? m base = some b →
          ∀ k, p.HasKind b k → kind b = k) →
        (p.classifyBases depth m bases a s).1 =
          (bases.map (p.ancestryOf kind m)).foldl Ancestry.add a := by
  induction bases generalizing a s with
  | nil => exact ⟨hsettled, fun _ h => h, fun _ _ => rfl⟩
  | cons base rest ih =>
      rw [classifyBases_cons]
      rcases baseAncestry_spec hsettled fun b hb => hbases base List.mem_cons_self b hb s hsettled with
        ⟨hnext, hgrows, hsays⟩
      rcases ih (a.add (p.baseAncestry m (p.classify depth) base s).1) hnext
        fun other hother => hbases other (List.mem_cons_of_mem _ hother) with ⟨hlast, hmore, hsum⟩
      refine ⟨hlast, fun x hx => hmore x (hgrows x hx), fun kind hkind => ?_⟩
      rw [List.map_cons, List.foldl_cons, ← hsays kind (hkind base List.mem_cons_self)]
      exact hsum kind fun other hother => hkind other (List.mem_cons_of_mem _ hother)

/-- There is a function that gives every class its kind. -/
theorem exists_kinds (p : Program) :
    ∃ kind : DefinitionId → ClassKind, ∀ id k, p.HasKind id k → kind id = k := by
  have hkind : ∀ id, ∃ kind, ∀ k, p.HasKind id k → kind = k := by
    intro id
    by_cases hsome : ∃ k, p.HasKind id k
    · rcases hsome with ⟨kind, hkind⟩
      exact ⟨kind, fun k hk => hkind.unique hk⟩
    · exact ⟨.plain, fun k hk => absurd ⟨k, hk⟩ hsome⟩
  choose kind hkind using hkind
  exact ⟨kind, hkind⟩

/-! ### One class after its bases -/

theorem lookup_concat (kinds : List (DefinitionId × ClassKind)) (x : DefinitionId) (kind : ClassKind) :
    (kinds ++ [(id, kind)]).lookup x =
      (kinds.lookup x).or (if x = id then some kind else none) := by
  rw [List.lookup_append]
  by_cases hx : x = id
  · rw [if_pos hx, hx]
    simp
  · have hne : (x == id) = false := by simpa using hx
    simp [List.lookup_cons, hne, hx]

/-- The class leaves the classes that are looked at with its kind. -/
theorem Settled.concat (h : p.Settled (id :: above) s) {kind : ClassKind} (hkind : p.HasKind id kind) :
    p.Settled above { s with kinds := s.kinds ++ [(id, kind)] } := by
  constructor
  case known =>
    intro x k hx
    rw [lookup_concat] at hx
    rcases Option.or_eq_some_iff.1 hx with hold | ⟨_, hnew⟩
    · exact h.known x k hold
    · by_cases hid : x = id
      · rw [if_pos hid] at hnew
        cases hnew
        exact hid ▸ hkind
      · rw [if_neg hid] at hnew
        cases hnew
  case visiting =>
    intro x hx hnone
    rw [lookup_concat, Option.or_eq_none_iff] at hnone
    have hne : x ≠ id := by
      rintro rfl
      simp at hnone
    rcases h.visiting x hx hnone.1 with habove | hdecl
    · exact .inl ((List.mem_cons.1 habove).resolve_left hne)
    · exact .inr hdecl

theorem Settled.visit (h : p.Settled above s) (id : DefinitionId) :
    p.Settled (id :: above) { s with visiting := id :: s.visiting } := by
  refine ⟨h.known, fun x hx hnone => ?_⟩
  rcases List.mem_cons.1 hx with rfl | hx
  · exact .inl List.mem_cons_self
  · exact (h.visiting x hx hnone).imp_left (List.mem_cons_of_mem _)

/-- Every class is given its kind, by induction on the steps that are left. -/
theorem classify_spec (hacyclic : p.Acyclic) (depth : Nat) : ∀ above id s,
    p.Descent p.BaseOf depth above id → p.Settled above s →
      p.Classifies above id s (p.classify depth id s) := by
  induction depth with
  | zero => exact fun above id s hdescent => hdescent.depth_pos.elim
  | succ depth ih =>
      intro above id s hdescent hsettled
      -- A class that is above is above itself.
      have habove : id ∉ above := fun hmem => hacyclic id (hdescent.leads id hmem)
      cases hknown : s.kinds.lookup id with
      | some kind =>
          rw [classify_of_known hknown]
          exact ⟨hsettled.known id kind hknown, hsettled, fun _ h => h, fun _ => by simp [hknown]⟩
      | none =>
          by_cases hvisiting : id ∈ s.visiting
          · rw [classify_of_visiting hknown hvisiting]
            have hdecl := (hsettled.visiting id hvisiting hknown).resolve_left habove
            exact ⟨.undeclared hdecl, hsettled, fun _ h => h, fun h => by simp [hdecl] at h⟩
          · cases hdecl : p.classDecl? id with
            | none =>
                rw [classify_of_undeclared hknown hvisiting hdecl]
                refine ⟨.undeclared hdecl, ⟨hsettled.known, fun x hx hnone => ?_⟩, fun _ h => h,
                  fun h => by simp [hdecl] at h⟩
                rcases List.mem_cons.1 hx with rfl | hx
                · exact .inr hdecl
                · exact hsettled.visiting x hx hnone
            | some decl =>
                rcases decl with ⟨m, d⟩
                rw [classify_of_class hknown hvisiting hdecl]
                have hid := ClassifiedProgram.mem_classIds_of_decl hdecl
                have hbases : ∀ base ∈ d.bases, ∀ b, p.classified.baseClass? m base = some b →
                    ∀ s, p.Settled (id :: above) s →
                      p.Classifies (id :: above) b s (p.classify depth b s) := by
                  intro base hbase b hb s hs
                  have hbaseOf := (baseOf_iff hdecl).2 ⟨base, hbase, hb⟩
                  exact ih (id :: above) b s (hdescent.base habove hid hbaseOf) hs
                rcases classifyBases_spec .none (hsettled.visit id) hbases with
                  ⟨hlast, hgrows, hsum⟩
                rcases exists_kinds p with ⟨kind, hkind⟩
                have hkinds : ∀ b, p.BaseOf b id → p.HasKind b (kind b) := by
                  intro b hb
                  rcases (baseOf_iff hdecl).1 hb with ⟨base, hbase, hclass⟩
                  have hhas := (hbases base hbase b hclass _ (hsettled.visit id)).kind
                  exact (hkind b _ hhas).symm ▸ hhas
                have hresult : p.HasKind id (p.classifyBases depth m d.bases .none
                    { s with visiting := id :: s.visiting }).1.result := by
                  rw [hsum kind fun _ _ b _ => hkind b]
                  exact .declared kind hdecl hkinds
                refine ⟨hresult, hlast.concat hresult, fun x hx => ?_, fun _ => ?_⟩
                · rw [lookup_concat, Option.isSome_or, hgrows x hx, Bool.true_or]
                · simp [lookup_concat]

/-! ### Bases with kinds -/

/-- Where the classes of all bases have kinds, none is looked at. -/
theorem classifyBases_of_known {kind : DefinitionId → ClassKind} {bases : List Expr} (a : Ancestry)
    (hknown : ∀ base ∈ bases, ∀ b, p.classified.baseClass? m base = some b →
      s.kinds.lookup b = some (kind b)) :
    p.classifyBases (depth + 1) m bases a s =
      ((bases.map (p.ancestryOf kind m)).foldl Ancestry.add a, s) := by
  induction bases generalizing a with
  | nil => rfl
  | cons base rest ih =>
      have hbase : p.baseAncestry m (p.classify (depth + 1)) base s = (p.ancestryOf kind m base, s) := by
        rcases baseAncestry_run (p := p) m base (p.classify (depth + 1)) s with
          ⟨_, hrun⟩ | ⟨b, hb, hrun⟩
        · exact hrun kind
        · have hclass : p.classify (depth + 1) b s = (kind b, s) :=
            classify_of_known (hknown base List.mem_cons_self b hb)
          rw [hrun kind (by rw [hclass]), hclass]
      rw [classifyBases_cons, hbase]
      exact ih _ fun other hother => hknown other (List.mem_cons_of_mem _ hother)

theorem classifyNext_of_known {kind : DefinitionId → ClassKind}
    {kinds : List (DefinitionId × ClassKind)} (hnew : kinds.lookup id = none)
    (hdecl : p.classDecl? id = some (m, d))
    (hknown : ∀ base ∈ d.bases, ∀ b, p.classified.baseClass? m base = some b →
      kinds.lookup b = some (kind b)) :
    p.classifyNext kinds id = kinds ++ [(id, p.kindFrom kind m d.bases)] := by
  have hdepth : ∃ depth, p.classDepth = depth + 1 + 1 := by
    have hpos := List.length_pos_of_mem (ClassifiedProgram.mem_classIds_of_decl hdecl)
    exact ⟨p.classIds.length - 1, by rw [classDepth]; omega⟩
  rcases hdepth with ⟨depth, hdepth⟩
  rw [classifyNext, hdepth]
  show (p.classify (depth + 1 + 1) id ⟨kinds, []⟩).2.kinds = _
  rw [classify_of_class hnew List.not_mem_nil hdecl, classifyBases_of_known Ancestry.none hknown]
  rfl

/-! ### Any order -/

/-- A table is right when it has the kinds of its classes. -/
def RightKinds (kinds : List (DefinitionId × ClassKind)) : Prop :=
  ∀ id kind, kinds.lookup id = some kind → p.HasKind id kind

theorem classifyNext_spec (hacyclic : p.Acyclic) {kinds : List (DefinitionId × ClassKind)}
    (hkinds : p.RightKinds kinds) (id : DefinitionId) :
    p.Classifies [] id ⟨kinds, []⟩ (p.classify p.classDepth id ⟨kinds, []⟩) :=
  classify_spec hacyclic _ [] id ⟨kinds, []⟩ (.start id)
    ⟨hkinds, fun _ h => absurd h List.not_mem_nil⟩

/-- Whatever is classified, the table stays right, and it has all classes that were classified. -/
theorem foldl_classifyNext (hacyclic : p.Acyclic) (ids : List DefinitionId)
    {kinds : List (DefinitionId × ClassKind)} (hkinds : p.RightKinds kinds) :
    p.RightKinds (ids.foldl p.classifyNext kinds) ∧
      (∀ x, (kinds.lookup x).isSome → ((ids.foldl p.classifyNext kinds).lookup x).isSome) ∧
      ∀ id ∈ ids, (p.classDecl? id).isSome →
        ((ids.foldl p.classifyNext kinds).lookup id).isSome := by
  induction ids generalizing kinds with
  | nil => exact ⟨hkinds, fun _ h => h, fun _ h => absurd h List.not_mem_nil⟩
  | cons id rest ih =>
      have hstep := classifyNext_spec hacyclic hkinds id
      have hnext : p.RightKinds (p.classifyNext kinds id) := hstep.settled.known
      rcases ih hnext with ⟨hlast, hgrows, hfound⟩
      refine ⟨hlast, fun x hx => hgrows x (hstep.grows x hx), fun x hx hdecl => ?_⟩
      rcases List.mem_cons.1 hx with rfl | hx
      · exact hgrows x (hstep.found hdecl)
      · exact hfound x hx hdecl

theorem rightKinds_nil : p.RightKinds [] := by
  intro id kind h
  cases h

/-- Classifying all classes gives every class its kind. -/
theorem hasKind_of_classified (hacyclic : p.Acyclic) {ids : List DefinitionId}
    (hids : p.classIds ⊆ ids) (id : DefinitionId) :
    p.HasKind id (ClassifiedProgram.kind ⟨p, ids.foldl p.classifyNext []⟩ id) := by
  rcases foldl_classifyNext hacyclic ids rightKinds_nil with ⟨hright, _, hfound⟩
  cases hlookup : (ids.foldl p.classifyNext []).lookup id with
  | some kind =>
      simp only [ClassifiedProgram.kind, hlookup, Option.getD_some]
      exact hright id kind hlookup
  | none =>
      -- A class without a kind was not classified, and so it is not declared.
      simp only [ClassifiedProgram.kind, hlookup, Option.getD_none]
      cases hdecl : p.classDecl? id with
      | none => exact .undeclared hdecl
      | some decl =>
          have hmem := hids (ClassifiedProgram.mem_classIds_of_decl hdecl)
          have hsome := hfound id hmem (by simp [hdecl])
          rw [hlookup] at hsome
          cases hsome

end

end Program

end Resolution
end WireTypes
