import WireTypes.Proofs.Resolution.ClassKinds
import WireTypes.Proofs.Resolution.ResolutionOrder

/-!
# Kind rules — which classes are models, generic models and enumerations

- `Ancestry.Rules`: what bases make of a class, unless there are models and enumerations among them;
- `kind_ancestryOf_iff`, `isOpen_ancestryOf_iff`: what one base says, by what it names;
- `kind_rules`: so the kinds of classes follow from the kinds of their bases;
- `classification_exact`: and classifying gives these kinds, in any order.
-/

namespace WireTypes
namespace Resolution

open Discovery Python

/-! ## Bases together -/

namespace Ancestry

variable {a b : Ancestry} {bases : List Ancestry}

theorem result_isModel : a.result.isModel = a.kind.isModel := by
  rcases a with ⟨kind, isGeneric⟩
  cases kind <;> cases isGeneric <;> rfl

theorem result_isEnum : a.result.isEnum = a.kind.isEnum := by
  rcases a with ⟨kind, isGeneric⟩
  cases kind <;> cases isGeneric <;> rfl

/-- The bases together are what one of them is, and a generic model counts as a model. -/
theorem kind_add (a b : Ancestry) : (a.add b).kind = a.kind ∨ (a.add b).kind = b.kind ∨
    b.kind = .genericModel ∧ (a.add b).kind = .model := by
  rcases a with ⟨kind, isGeneric⟩
  rcases b with ⟨other, otherGeneric⟩
  cases kind <;> cases other <;> simp [add]

theorem exists_of_foldl {P : ClassKind → Prop} (hmodel : P .model → P .genericModel)
    (h : P (bases.foldl add a).kind) : P a.kind ∨ ∃ b ∈ bases, P b.kind := by
  induction bases generalizing a with
  | nil => exact .inl h
  | cons b rest ih =>
      rcases ih h with hadd | ⟨x, hx, hP⟩
      · rcases kind_add a b with hkind | hkind | ⟨hgeneric, hkind⟩
        · exact .inl (hkind ▸ hadd)
        · exact .inr ⟨b, List.mem_cons_self, hkind ▸ hadd⟩
        · exact .inr ⟨b, List.mem_cons_self, hgeneric ▸ hmodel (hkind ▸ hadd)⟩
      · exact .inr ⟨x, List.mem_cons_of_mem _ hx, hP⟩

/-- A base with type parameters. -/
def IsOpen (a : Ancestry) : Prop := a.isGeneric = true ∨ a.kind = .genericModel

theorem add_of_no_enum (ha : a.kind = .plain ∨ a.kind = .model) (hb : b.kind.isEnum = false) :
    ((a.add b).kind = .plain ∨ (a.add b).kind = .model) ∧
      ((a.add b).kind = .model ↔ a.kind = .model ∨ b.kind.isModel = true) ∧
      ((a.add b).isGeneric = true ↔ a.isGeneric = true ∨ b.IsOpen) := by
  rcases a with ⟨kind, isGeneric⟩
  rcases b with ⟨other, otherGeneric⟩
  rcases ha with rfl | rfl <;> cases other <;> simp_all [add, IsOpen, ClassKind.isModel, ClassKind.isEnum]

/-- Without enumerations, a model among the bases makes a model. -/
theorem foldl_of_no_enum (ha : a.kind = .plain ∨ a.kind = .model)
    (hbases : ∀ b ∈ bases, b.kind.isEnum = false) :
    ((bases.foldl add a).kind = .plain ∨ (bases.foldl add a).kind = .model) ∧
      ((bases.foldl add a).kind = .model ↔ a.kind = .model ∨ ∃ b ∈ bases, b.kind.isModel = true) ∧
      ((bases.foldl add a).isGeneric = true ↔ a.isGeneric = true ∨ ∃ b ∈ bases, b.IsOpen) := by
  induction bases generalizing a with
  | nil => simpa using ha
  | cons b rest ih =>
      rcases add_of_no_enum ha (hbases b List.mem_cons_self) with ⟨hkind, hmodel, hgeneric⟩
      have hrest := ih hkind fun x hx => hbases x (List.mem_cons_of_mem _ hx)
      rw [hmodel, hgeneric] at hrest
      simpa [or_assoc] using hrest

theorem add_of_no_model (ha : a.kind.isModel = false) (hb : b.kind.isModel = false) :
    (a.add b).kind.isModel = false ∧
      ((a.add b).kind.isEnum = true ↔ a.kind.isEnum = true ∨ b.kind.isEnum = true) ∧
      ((a.add b).kind = .strEnum ↔ a.kind = .strEnum ∨ b.kind = .strEnum) := by
  rcases a with ⟨kind, isGeneric⟩
  rcases b with ⟨other, otherGeneric⟩
  cases kind <;> cases other <;> simp_all [add, ClassKind.isModel, ClassKind.isEnum]

/-- Without models, an enumeration among the bases makes an enumeration. -/
theorem foldl_of_no_model (ha : a.kind.isModel = false)
    (hbases : ∀ b ∈ bases, b.kind.isModel = false) :
    (bases.foldl add a).kind.isModel = false ∧
      ((bases.foldl add a).kind.isEnum = true ↔
        a.kind.isEnum = true ∨ ∃ b ∈ bases, b.kind.isEnum = true) ∧
      ((bases.foldl add a).kind = .strEnum ↔
        a.kind = .strEnum ∨ ∃ b ∈ bases, b.kind = .strEnum) := by
  induction bases generalizing a with
  | nil => simpa using ha
  | cons b rest ih =>
      rcases add_of_no_model ha (hbases b List.mem_cons_self) with ⟨hkind, henum, hstr⟩
      have hrest := ih hkind fun x hx => hbases x (List.mem_cons_of_mem _ hx)
      rw [henum, hstr] at hrest
      simpa [or_assoc] using hrest

theorem result_iff {P : ClassKind → Prop} (hgeneric : P .genericModel ↔ P .model) :
    P a.result ↔ P a.kind := by
  unfold result
  split
  · next h => rw [h.1, hgeneric]
  · exact Iff.rfl

theorem result_eq_genericModel_iff (h : a.kind ≠ .genericModel) :
    a.result = .genericModel ↔ a.kind = .model ∧ a.isGeneric = true := by
  unfold result
  split
  · next hopen => exact iff_of_true rfl hopen
  · next hopen => exact iff_of_false h hopen

/-- What the bases of a class make of it, unless there are models and enumerations among them. -/
structure Rules (bases : List Ancestry) (kind : ClassKind) : Prop where
  model : kind.isModel = true ↔ ∃ b ∈ bases, b.kind.isModel = true
  genericModel : kind = .genericModel ↔ kind.isModel = true ∧ ∃ b ∈ bases, b.IsOpen
  enum : kind.isEnum = true ↔ ∃ b ∈ bases, b.kind.isEnum = true
  strEnum : kind = .strEnum ↔ ∃ b ∈ bases, b.kind = .strEnum

theorem rules_of_no_enum (hbases : ∀ b ∈ bases, b.kind.isEnum = false) :
    Rules bases (bases.foldl add none).result := by
  rcases foldl_of_no_enum (a := none) (.inl rfl) hbases with ⟨hkind, hmodel, hopen⟩
  have hmodels : (bases.foldl add none).kind.isModel = true ↔ (bases.foldl add none).kind = .model := by
    rcases hkind with h | h <;> simp [h, ClassKind.isModel]
  have hnone : ¬ ∃ b ∈ bases, b.kind.isEnum = true := by
    rintro ⟨b, hb, henum⟩
    rw [hbases b hb] at henum
    cases henum
  constructor
  · rw [result_isModel, hmodels, hmodel]
    simp [none]
  · rw [result_eq_genericModel_iff (by rcases hkind with h | h <;> simp [h]), result_isModel, hmodels,
      hopen]
    simp [none]
  · rw [result_isEnum]
    exact iff_of_false (by rcases hkind with h | h <;> simp [h, ClassKind.isEnum]) hnone
  · rw [result_iff (P := (· = .strEnum)) (by decide)]
    refine iff_of_false (by rcases hkind with h | h <;> simp [h]) ?_
    rintro ⟨b, hb, hstr⟩
    exact hnone ⟨b, hb, by rw [hstr]; rfl⟩

theorem rules_of_no_model (hbases : ∀ b ∈ bases, b.kind.isModel = false) :
    Rules bases (bases.foldl add none).result := by
  rcases foldl_of_no_model (a := none) rfl hbases with ⟨hkind, henum, hstr⟩
  have hnone : ¬ ∃ b ∈ bases, b.kind.isModel = true := by
    rintro ⟨b, hb, hmodel⟩
    rw [hbases b hb] at hmodel
    cases hmodel
  have hmodel : (bases.foldl add none).result.isModel = false := result_isModel.trans hkind
  constructor
  · exact iff_of_false (by simp [hmodel]) hnone
  · refine iff_of_false (fun h => ?_) (by simp [hmodel])
    rw [h] at hmodel
    cases hmodel
  · rw [result_isEnum, henum]
    simp [none, ClassKind.isEnum]
  · rw [result_iff (P := (· = .strEnum)) (by decide), hstr]
    simp [none]

end Ancestry

namespace Program

variable (p : Program)

/-! ## One base -/

/-- A base that is the name of a class from outside the tree. -/
def NamesExternal (P : ClassKind → Prop) (m : SourceModule) (base : Expr) : Prop :=
  ∃ name qualified, base = .name name ∧ p.resolve m name = .external qualified ∧
    P (.ofExternal qualified)

/-- A base that names a class of the tree, with arguments or without. -/
def NamesClass (P : DefinitionId → Prop) (m : SourceModule) (base : Expr) : Prop :=
  ∃ b, p.classified.baseClass? m base = some b ∧ P b

/-- A base that leaves type parameters open: `Generic[...]`, a generic model without arguments, or a model
whose arguments mention type variables. -/
inductive LeavesOpen (kind : DefinitionId → ClassKind) (m : SourceModule) : Expr → Prop
  | marker {name : String} {args : List TypeHint} {qualified : String} :
      p.resolve m name = .external qualified → External.shortName qualified = "Generic" →
      LeavesOpen kind m (.type (.subscript name args))
  | external {name qualified : String} :
      p.resolve m name = .external qualified → ClassKind.ofExternal qualified = .genericModel →
      LeavesOpen kind m (.name name)
  | generic {name : String} {b : DefinitionId} :
      p.resolve m name = .classDef b → kind b = .genericModel → LeavesOpen kind m (.name name)
  | applied {name : String} {args : List TypeHint} {b : DefinitionId} :
      p.resolve m name = .classDef b → (kind b).isModel = true →
      args.any (p.mentionsTypeVar m) = true → LeavesOpen kind m (.type (.subscript name args))

section

variable {p} {kind : DefinitionId → ClassKind} {m : SourceModule} {base : Expr}

/-- What a base says, by what it names. -/
inductive Says (p : Program) (kind : DefinitionId → ClassKind) (m : SourceModule) : Expr → Ancestry → Prop
  | external {name qualified : String} :
      p.resolve m name = .external qualified →
      Says p kind m (.name name) ⟨.ofExternal qualified, false⟩
  | named {name : String} {b : DefinitionId} :
      p.resolve m name = .classDef b → Says p kind m (.name name) ⟨kind b, false⟩
  | marker {name : String} {args : List TypeHint} {qualified : String} :
      p.resolve m name = .external qualified →
      Says p kind m (.type (.subscript name args)) ⟨.plain, External.shortName qualified == "Generic"⟩
  | applied {name : String} {args : List TypeHint} {b : DefinitionId} :
      p.resolve m name = .classDef b → (kind b).isModel = true →
      Says p kind m (.type (.subscript name args)) ⟨.model, args.any (p.mentionsTypeVar m)⟩
  | appliedOther {name : String} {args : List TypeHint} {b : DefinitionId} :
      p.resolve m name = .classDef b → (kind b).isModel = false →
      Says p kind m (.type (.subscript name args)) ⟨kind b, false⟩
  | nothing {base : Expr} :
      p.classified.baseClass? m base = none →
      (∀ name, base = .name name ∨ (∃ args, base = .type (.subscript name args)) →
        ∀ qualified, p.resolve m name ≠ .external qualified) →
      Says p kind m base .none

theorem says_ancestryOf (kind : DefinitionId → ClassKind) (m : SourceModule) (base : Expr) :
    p.Says kind m base (p.ancestryOf kind m base) := by
  have hresolve : ∀ name, p.classified.resolve m name = p.resolve m name := fun _ => rfl
  -- A base is a name, a name with arguments, or an expression that names nothing.
  cases base with
  | name name =>
      cases hsymbol : p.resolve m name with
      | external qualified =>
          have hsays : p.Says kind m (.name name) _ := .external hsymbol
          simpa [ancestryOf, baseAncestry, hsymbol, pure, StateT.pure] using hsays
      | classDef b =>
          have hsays : p.Says kind m (.name name) _ := .named hsymbol
          simpa [ancestryOf, baseAncestry, hsymbol, bind, StateT.bind, pure, StateT.pure] using hsays
      | _ =>
          have hsays : p.Says kind m (.name name) .none := by
            refine .nothing (by simp [ClassifiedProgram.baseClass?, hresolve, hsymbol]) ?_
            rintro _ (h | ⟨_, h⟩) _ <;> cases h
            simp [hsymbol]
          simpa [ancestryOf, baseAncestry, hsymbol, pure, StateT.pure] using hsays
  | type hint =>
      cases hint with
      | subscript name args =>
          cases hsymbol : p.resolve m name with
          | external qualified =>
              have hsays : p.Says kind m (.type (.subscript name args)) _ := .marker hsymbol
              simpa [ancestryOf, baseAncestry, hsymbol, pure, StateT.pure] using hsays
          | classDef b =>
              by_cases hmodel : (kind b).isModel = true
              · have hsays : p.Says kind m (.type (.subscript name args)) _ :=
                  .applied hsymbol hmodel
                simpa [ancestryOf, baseAncestry, hsymbol, hmodel, bind, StateT.bind, pure,
                  StateT.pure] using hsays
              · have hsays : p.Says kind m (.type (.subscript name args)) _ :=
                  .appliedOther hsymbol (by simpa using hmodel)
                simpa [ancestryOf, baseAncestry, hsymbol, hmodel, bind, StateT.bind, pure,
                  StateT.pure] using hsays
          | _ =>
              have hsays : p.Says kind m (.type (.subscript name args)) .none := by
                refine .nothing (by simp [ClassifiedProgram.baseClass?, hresolve, hsymbol]) ?_
                rintro _ (h | ⟨_, h⟩) _ <;> cases h
                simp [hsymbol]
              simpa [ancestryOf, baseAncestry, hsymbol, pure, StateT.pure] using hsays
      | _ =>
          refine .nothing rfl ?_
          rintro _ (h | ⟨_, h⟩) _ <;> cases h
  | _ =>
      refine .nothing rfl ?_
      rintro _ (h | ⟨_, h⟩) _ <;> cases h

/-- A base has a kind by the class from outside the tree or the class of the tree that it names. -/
theorem kind_ancestryOf_iff {P : ClassKind → Prop} (hplain : ¬ P .plain)
    (hgeneric : P .genericModel ↔ P .model) :
    P (p.ancestryOf kind m base).kind ↔
      p.NamesExternal P m base ∨ p.NamesClass (fun b => P (kind b)) m base := by
  have hresolve : ∀ name, p.classified.resolve m name = p.resolve m name := fun _ => rfl
  have hmodels : ∀ k : ClassKind, k.isModel = true → (P k ↔ P .model) := by
    intro k hk
    cases k with
    | model => exact Iff.rfl
    | genericModel => exact hgeneric
    | _ => cases hk
  have hsays := says_ancestryOf (p := p) kind m base
  generalize p.ancestryOf kind m base = a at hsays
  cases hsays with
  | external hsymbol =>
      simp [NamesExternal, NamesClass, ClassifiedProgram.baseClass?, hresolve, hsymbol]
  | named hsymbol =>
      simp [NamesExternal, NamesClass, ClassifiedProgram.baseClass?, hresolve, hsymbol]
  | marker hsymbol =>
      simp [NamesExternal, NamesClass, ClassifiedProgram.baseClass?, hresolve, hsymbol, hplain]
  | applied hsymbol hmodel =>
      simp [NamesExternal, NamesClass, ClassifiedProgram.baseClass?, hresolve, hsymbol,
        hmodels _ hmodel]
  | appliedOther hsymbol hmodel =>
      simp [NamesExternal, NamesClass, ClassifiedProgram.baseClass?, hresolve, hsymbol]
  | nothing hclass hexternal =>
      have hnoName : ¬ p.NamesExternal P m base := by
        rintro ⟨name, qualified, hbase, hsymbol, _⟩
        exact hexternal name (.inl hbase) qualified hsymbol
      simp [hnoName, NamesClass, hclass, Ancestry.none, hplain]

theorem leavesOpen_name_iff {name : String} : p.LeavesOpen kind m (.name name) ↔
    (∃ qualified, p.resolve m name = .external qualified ∧
        ClassKind.ofExternal qualified = .genericModel) ∨
      ∃ b, p.resolve m name = .classDef b ∧ kind b = .genericModel := by
  constructor
  · intro h
    cases h with
    | external hsymbol hkind => exact .inl ⟨_, hsymbol, hkind⟩
    | generic hsymbol hkind => exact .inr ⟨_, hsymbol, hkind⟩
  · rintro (⟨_, hsymbol, hkind⟩ | ⟨_, hsymbol, hkind⟩)
    · exact .external hsymbol hkind
    · exact .generic hsymbol hkind

theorem leavesOpen_subscript_iff {name : String} {args : List TypeHint} :
    p.LeavesOpen kind m (.type (.subscript name args)) ↔
      (∃ qualified, p.resolve m name = .external qualified ∧
          External.shortName qualified = "Generic") ∨
        ∃ b, p.resolve m name = .classDef b ∧ (kind b).isModel = true ∧
          args.any (p.mentionsTypeVar m) = true := by
  constructor
  · intro h
    cases h with
    | marker hsymbol hname => exact .inl ⟨_, hsymbol, hname⟩
    | applied hsymbol hmodel hargs => exact .inr ⟨_, hsymbol, hmodel, hargs⟩
  · rintro (⟨_, hsymbol, hname⟩ | ⟨_, hsymbol, hmodel, hargs⟩)
    · exact .marker hsymbol hname
    · exact .applied hsymbol hmodel hargs

theorem isOpen_ancestryOf_iff :
    (p.ancestryOf kind m base).IsOpen ↔ p.LeavesOpen kind m base := by
  have hresolve : ∀ name, p.classified.resolve m name = p.resolve m name := fun _ => rfl
  have hsays := says_ancestryOf (p := p) kind m base
  generalize p.ancestryOf kind m base = a at hsays
  cases hsays with
  | external hsymbol => simp [Ancestry.IsOpen, leavesOpen_name_iff, hsymbol]
  | named hsymbol => simp [Ancestry.IsOpen, leavesOpen_name_iff, hsymbol]
  | marker hsymbol => simp [Ancestry.IsOpen, leavesOpen_subscript_iff, hsymbol]
  | applied hsymbol hmodel => simp [Ancestry.IsOpen, leavesOpen_subscript_iff, hsymbol, hmodel]
  | @appliedOther _ _ b hsymbol hmodel =>
      have hgeneric : kind b ≠ .genericModel := fun h => by simp [h, ClassKind.isModel] at hmodel
      simp [Ancestry.IsOpen, leavesOpen_subscript_iff, hsymbol, hmodel, hgeneric]
  | nothing hclass hexternal =>
      refine iff_of_false (by simp [Ancestry.IsOpen, Ancestry.none]) fun h => ?_
      -- A base that leaves parameters open names something.
      cases h with
      | marker hsymbol _ => exact hexternal _ (.inr ⟨_, rfl⟩) _ hsymbol
      | external hsymbol _ => exact hexternal _ (.inl rfl) _ hsymbol
      | generic hsymbol _ => simp [ClassifiedProgram.baseClass?, hresolve, hsymbol] at hclass
      | applied hsymbol _ _ => simp [ClassifiedProgram.baseClass?, hresolve, hsymbol] at hclass

end

/-! ## Rules -/

/-- One of the bases that the class declares is like this. -/
def HasBase (P : SourceModule → Expr → Prop) (id : DefinitionId) : Prop :=
  ∃ m d, p.classDecl? id = some (m, d) ∧ ∃ base ∈ d.bases, P m base

/-- A class of that kind from outside the tree is above the class. -/
inductive Descends (P : ClassKind → Prop) : DefinitionId → Prop
  | external {id : DefinitionId} : p.HasBase (p.NamesExternal P) id → Descends P id
  | base {b id : DefinitionId} : p.BaseOf b id → Descends P b → Descends P id

/-- No class has both a model and an enumeration above it. -/
def Unmixed : Prop :=
  ∀ id, ¬ (p.Descends (fun k => k.isModel = true) id ∧ p.Descends (fun k => k.isEnum = true) id)

/-- What the kinds of classes have to do with their bases. -/
structure KindRules (kind : DefinitionId → ClassKind) : Prop where
  model : ∀ id, (kind id).isModel = true ↔
    p.HasBase (fun m base => p.NamesExternal (fun k => k.isModel = true) m base ∨
      p.NamesClass (fun b => (kind b).isModel = true) m base) id
  genericModel : ∀ id, kind id = .genericModel ↔
    (kind id).isModel = true ∧ p.HasBase (p.LeavesOpen kind) id
  enum : ∀ id, (kind id).isEnum = true ↔
    p.HasBase (fun m base => p.NamesExternal (fun k => k.isEnum = true) m base ∨
      p.NamesClass (fun b => (kind b).isEnum = true) m base) id
  strEnum : ∀ id, kind id = .strEnum ↔
    p.HasBase (fun m base => p.NamesExternal (fun k => k = .strEnum) m base ∨
      p.NamesClass (fun b => kind b = .strEnum) m base) id
  plain : ∀ id, (kind id).isModel = false → (kind id).isEnum = false → kind id = .plain

section

variable {p}

/-- The kind of a class is that of a class from outside that is above it. -/
theorem HasKind.descends {P : ClassKind → Prop} (hplain : ¬ P .plain)
    (hgeneric : P .genericModel ↔ P .model) {id : DefinitionId} {k : ClassKind} (h : p.HasKind id k)
    (hk : P k) : p.Descends P id := by
  induction h with
  | undeclared _ => exact absurd hk hplain
  | declared kinds hdecl _ ih =>
      rcases Ancestry.exists_of_foldl hgeneric.2 ((Ancestry.result_iff hgeneric).1 hk) with
        hnone | ⟨a, ha, hP⟩
      · exact absurd hnone hplain
      · rcases List.mem_map.1 ha with ⟨base, hbase, rfl⟩
        rcases (kind_ancestryOf_iff hplain hgeneric).1 hP with hexternal | ⟨b, hb, hkind⟩
        · exact .external ⟨_, _, hdecl, base, hbase, hexternal⟩
        · have hbaseOf := (baseOf_iff hdecl).2 ⟨base, hbase, hb⟩
          exact .base hbaseOf (ih b hbaseOf hkind)

/-- A base that is of a kind makes the class descend from that kind. -/
theorem descends_of_base {P : ClassKind → Prop} (hplain : ¬ P .plain)
    (hgeneric : P .genericModel ↔ P .model) {kind : DefinitionId → ClassKind}
    (hkind : ∀ id, p.HasKind id (kind id)) {id : DefinitionId} {m : SourceModule} {d : ClassDecl}
    (hdecl : p.classDecl? id = some (m, d)) {base : Expr} (hbase : base ∈ d.bases)
    (h : P (p.ancestryOf kind m base).kind) : p.Descends P id := by
  rcases (kind_ancestryOf_iff hplain hgeneric).1 h with hexternal | ⟨b, hb, hP⟩
  · exact .external ⟨m, d, hdecl, base, hbase, hexternal⟩
  · exact .base ((baseOf_iff hdecl).2 ⟨base, hbase, hb⟩) ((hkind b).descends hplain hgeneric hP)

/-- The bases of a class are not models and enumerations together. -/
theorem rules_of_class (hunmixed : p.Unmixed) {kind : DefinitionId → ClassKind}
    (hkind : ∀ id, p.HasKind id (kind id)) {id : DefinitionId} {m : SourceModule} {d : ClassDecl}
    (hdecl : p.classDecl? id = some (m, d)) :
    Ancestry.Rules (d.bases.map (p.ancestryOf kind m)) (kind id) := by
  have hfrom : kind id = p.kindFrom kind m d.bases :=
    (hkind id).unique (.declared kind hdecl fun b _ => hkind b)
  rw [hfrom]
  by_cases hmodel : p.Descends (fun k => k.isModel = true) id
  · refine Ancestry.rules_of_no_enum fun a ha => ?_
    rcases List.mem_map.1 ha with ⟨base, hbase, rfl⟩
    refine Bool.eq_false_iff.2 fun henum => hunmixed id ⟨hmodel, ?_⟩
    exact descends_of_base (P := fun k => k.isEnum = true) (by decide) (by decide) hkind hdecl hbase
      henum
  · refine Ancestry.rules_of_no_model fun a ha => ?_
    rcases List.mem_map.1 ha with ⟨base, hbase, rfl⟩
    refine Bool.eq_false_iff.2 fun hbaseModel => hmodel ?_
    exact descends_of_base (P := fun k => k.isModel = true) (by decide) (by decide) hkind hdecl hbase
      hbaseModel

/-- What one of the bases says is what one of them is like. -/
theorem exists_ancestry_iff {Q : Ancestry → Prop} {P : SourceModule → Expr → Prop}
    {kind : DefinitionId → ClassKind} {id : DefinitionId} {m : SourceModule} {d : ClassDecl}
    (hdecl : p.classDecl? id = some (m, d)) (h : ∀ base, Q (p.ancestryOf kind m base) ↔ P m base) :
    (∃ a ∈ d.bases.map (p.ancestryOf kind m), Q a) ↔ p.HasBase P id := by
  simp [HasBase, hdecl, h]

theorem not_hasBase {P : SourceModule → Expr → Prop} {id : DefinitionId}
    (hdecl : p.classDecl? id = none) : ¬ p.HasBase P id := by
  simp [HasBase, hdecl]

theorem kind_rules (hunmixed : p.Unmixed) {kind : DefinitionId → ClassKind}
    (hkind : ∀ id, p.HasKind id (kind id)) : p.KindRules kind := by
  -- A class that is not declared is plain and has no bases.
  have hundeclared : ∀ id, p.classDecl? id = none → kind id = .plain :=
    fun id hdecl => (hkind id).unique (.undeclared hdecl)
  constructor
  case model =>
    intro id
    cases hdecl : p.classDecl? id with
    | none => exact iff_of_false (by simp [hundeclared id hdecl, ClassKind.isModel]) (not_hasBase hdecl)
    | some decl =>
        rw [(rules_of_class hunmixed hkind hdecl).model]
        exact exists_ancestry_iff hdecl fun base =>
          kind_ancestryOf_iff (P := fun k => k.isModel = true) (by decide) (by decide)
  case genericModel =>
    intro id
    cases hdecl : p.classDecl? id with
    | none =>
        exact iff_of_false (by simp [hundeclared id hdecl]) fun h => not_hasBase hdecl h.2
    | some decl =>
        rw [(rules_of_class hunmixed hkind hdecl).genericModel,
          exists_ancestry_iff hdecl fun base => isOpen_ancestryOf_iff]
  case enum =>
    intro id
    cases hdecl : p.classDecl? id with
    | none => exact iff_of_false (by simp [hundeclared id hdecl, ClassKind.isEnum]) (not_hasBase hdecl)
    | some decl =>
        rw [(rules_of_class hunmixed hkind hdecl).enum]
        exact exists_ancestry_iff hdecl fun base =>
          kind_ancestryOf_iff (P := fun k => k.isEnum = true) (by decide) (by decide)
  case strEnum =>
    intro id
    cases hdecl : p.classDecl? id with
    | none => exact iff_of_false (by simp [hundeclared id hdecl]) (not_hasBase hdecl)
    | some decl =>
        rw [(rules_of_class hunmixed hkind hdecl).strEnum]
        exact exists_ancestry_iff hdecl fun base =>
          kind_ancestryOf_iff (P := fun k => k = .strEnum) (by decide) (by decide)
  case plain =>
    intro id hmodel henum
    cases hid : kind id <;> simp_all [ClassKind.isModel, ClassKind.isEnum]

/-- Classifying all classes, in any order, gives the kinds that the bases make, and no call gives another
kind whatever was classified before it. -/
theorem classification_exact (hacyclic : p.Acyclic) (hunmixed : p.Unmixed) {ids : List DefinitionId}
    (hids : p.classIds ⊆ ids) :
    p.KindRules (ClassifiedProgram.kind ⟨p, ids.foldl p.classifyNext []⟩) ∧
      (∀ id, ClassifiedProgram.kind ⟨p, ids.foldl p.classifyNext []⟩ id = p.classified.kind id) ∧
      ∀ (before : List DefinitionId) (id : DefinitionId),
        ((p.classify p.classDepth id).run ⟨before.foldl p.classifyNext [], []⟩).1 =
          p.classified.kind id := by
  have hclassified : ∀ id, p.HasKind id (p.classified.kind id) :=
    hasKind_of_classified hacyclic (List.Subset.refl _)
  refine ⟨kind_rules hunmixed (hasKind_of_classified hacyclic hids), fun id => ?_, fun before id => ?_⟩
  · exact (hasKind_of_classified hacyclic hids id).unique (hclassified id)
  · have hright := (foldl_classifyNext hacyclic before rightKinds_nil).1
    exact (classifyNext_spec hacyclic hright id).kind.unique (hclassified id)

end

end Program

/-! ## A diamond -/

namespace Sample

theorem mem_diamond {id : DefinitionId} {m : SourceModule} {decl : ClassDecl}
    (h : Program.classDecl? [diamondModule] id = some (m, decl)) :
    id = a ∨ id = b ∨ id = c ∨ id = d := by
  rcases ClassifiedProgram.classDecl?_spec h with ⟨hm, hmodule, hdecl, hname⟩
  rw [List.mem_singleton.1 hm] at hmodule hdecl
  have hmodule' : id.module = "/m.py" := by
    rw [← hmodule]
    rfl
  rcases id with ⟨module, name⟩
  simp only [diamondModule, List.mem_cons, List.not_mem_nil, or_false] at hdecl
  rcases hdecl with rfl | rfl | rfl | rfl <;> simp_all [declare, a, b, c, d]

theorem baseOf_diamond {x id : DefinitionId} (h : Program.BaseOf [diamondModule] x id) :
    x = a ∧ (id = b ∨ id = c) ∨ (x = b ∨ x = c) ∧ id = d := by
  rw [Program.BaseOf, classified_diamondModule] at h
  cases hdecl : Program.classDecl? [diamondModule] id with
  | none =>
      have hdecl' : diamond.modules.classDecl? id = none := hdecl
      simp [ClassifiedProgram.basesOf, hdecl'] at h
  | some decl =>
      rcases mem_diamond hdecl with rfl | rfl | rfl | rfl
      · simp [basesOf_a] at h
      · exact .inl ⟨by simpa [basesOf_b] using h, .inl rfl⟩
      · exact .inl ⟨by simpa [basesOf_c] using h, .inr rfl⟩
      · exact .inr ⟨by simpa [basesOf_d] using h, rfl⟩

theorem acyclic_diamond : Program.Acyclic [diamondModule] := by
  -- Every base is higher up.
  have hrank : ∀ x id, Relation.TransGen (Program.BaseOf [diamondModule]) x id →
      (resolutionOrder x).length < (resolutionOrder id).length := by
    have hstep : ∀ x id, Program.BaseOf [diamondModule] x id →
        (resolutionOrder x).length < (resolutionOrder id).length := by
      intro x id h
      rcases baseOf_diamond h with ⟨rfl, rfl | rfl⟩ | ⟨rfl | rfl, rfl⟩ <;> decide
    intro x id h
    induction h with
    | single h => exact hstep _ _ h
    | tail _ h ih => exact ih.trans (hstep _ _ h)
  exact fun id h => Nat.lt_irrefl _ (hrank id id h)

/-- The only base from outside is that of all models. -/
theorem external_diamond {id : DefinitionId} {m : SourceModule} {decl : ClassDecl} {name : String}
    {qualified : String} (hdecl : Program.classDecl? [diamondModule] id = some (m, decl))
    (hbase : .name name ∈ decl.bases)
    (hsymbol : Program.resolve [diamondModule] m name = .external qualified) :
    qualified = "pydantic.BaseModel" := by
  rcases mem_diamond hdecl with rfl | rfl | rfl | rfl
  · cases hdecl.symm.trans classDecl?_a
    obtain rfl : name = "M" := by simpa [declare] using hbase
    cases hsymbol.symm.trans resolve_base
    rfl
  · cases hdecl.symm.trans classDecl?_b
    obtain rfl : name = "A" := by simpa [declare] using hbase
    cases hsymbol.symm.trans resolve_a
  · cases hdecl.symm.trans classDecl?_c
    obtain rfl : name = "A" := by simpa [declare] using hbase
    cases hsymbol.symm.trans resolve_a
  · cases hdecl.symm.trans classDecl?_d
    have hname : name = "B" ∨ name = "C" := by simpa [declare] using hbase
    rcases hname with rfl | rfl
    · cases hsymbol.symm.trans resolve_b
    · cases hsymbol.symm.trans resolve_c

theorem no_enum_diamond {id : DefinitionId} :
    ¬ Program.Descends [diamondModule] (fun k => k.isEnum = true) id := by
  intro h
  induction h with
  | base _ _ ih => exact ih
  | external h =>
      rcases h with ⟨m, decl, hdecl, base, hbase, name, qualified, rfl, hsymbol, henum⟩
      rw [external_diamond hdecl hbase hsymbol] at henum
      cases henum

end Sample

theorem diamond_classification_exact :
    Program.Acyclic [Sample.diamondModule] ∧ Program.Unmixed [Sample.diamondModule] ∧
      Program.classIds [Sample.diamondModule] ⊆ [Sample.d, Sample.c, Sample.b, Sample.a] ∧
      Program.KindRules [Sample.diamondModule] Sample.diamond.kind := by
  have hunmixed : Program.Unmixed [Sample.diamondModule] := fun _ h => Sample.no_enum_diamond h.2
  have hids : Program.classIds [Sample.diamondModule] ⊆ [Sample.d, Sample.c, Sample.b, Sample.a] := by
    decide
  rcases Program.classification_exact Sample.acyclic_diamond hunmixed hids with ⟨hrules, hsame, _⟩
  refine ⟨Sample.acyclic_diamond, hunmixed, hids, ?_⟩
  rw [funext hsame, Sample.classified_diamondModule] at hrules
  exact hrules

end Resolution
end WireTypes
