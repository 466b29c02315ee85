import WireTypes.Resolution.Symbol

/-!
# Agreement — programs that read their names alike

Two programs with the same modules at the same places, where a module may bind its names otherwise. They
are compared by the number of steps of a look-up: with one step more, a module reads a name as its
binding says, and all else is read with the steps before.

- `Agree p p' steps`: every module reads every name, dotted name and member alike;
- `Agree.lookup_of_unchanged`: a module that binds the same reads alike with one step more;
- `Agree.succ`: if all modules read their names alike with one step more, then dotted names and members
  too.
-/

namespace WireTypes
namespace Resolution

open Discovery Python

/-! ## Symbols of two programs -/

/-- A module without its content and its names: what tells it from other modules. -/
def bareModule (m : SourceModule) : SourceModule :=
  { m with content := Python.Module.empty, bindings := [], stars := [] }

/-- A symbol, with the module that writes a type alias told from others only. -/
def Symbol.bare : Symbol → Symbol
  | .typeAlias home hint => .typeAlias (bareModule home) hint
  | s => s

/-- Both nothing, or the same symbol. -/
def Same (a b : Option Symbol) : Prop := a.map Symbol.bare = b.map Symbol.bare

namespace Same

theorem refl (a : Option Symbol) : Same a a := rfl

theorem symm {a b : Option Symbol} (h : Same a b) : Same b a := Eq.symm h

theorem trans {a b c : Option Symbol} (h : Same a b) (h' : Same b c) : Same a c := Eq.trans h h'

theorem none_iff {a b : Option Symbol} (h : Same a b) : a = none ↔ b = none := by
  have both : a.map Symbol.bare = none ↔ b.map Symbol.bare = none := by rw [h]
  simpa using both

theorem getD {a b : Option Symbol} (h : Same a b) (name : String) :
    (a.getD (.external name)).bare = (b.getD (.external name)).bare := by
  cases a with
  | none =>
      obtain rfl : b = none := h.none_iff.mp rfl
      rfl
  | some s =>
      cases b with
      | none => cases h.none_iff.mpr rfl
      | some s' => exact Option.some.inj h

theorem orElse {a b c d : Option Symbol} (h : Same a b) (h' : Same c d) : Same (a.or c) (b.or d) := by
  cases a with
  | none =>
      obtain rfl : b = none := h.none_iff.mp rfl
      exact h'
  | some s =>
      cases b with
      | none => cases h.none_iff.mpr rfl
      | some s' => exact h

theorem bind {a b : Option Symbol} {f g : Symbol → Option Symbol} (h : Same a b)
    (next : ∀ s s', s.bare = s'.bare → Same (f s) (g s')) : Same (a.bind f) (b.bind g) := by
  cases a with
  | none =>
      obtain rfl : b = none := h.none_iff.mp rfl
      exact refl _
  | some s =>
      cases b with
      | none => cases h.none_iff.mpr rfl
      | some s' => exact next s s' (Option.some.inj h)

theorem findSome? {α : Type} {f g : α → Option Symbol} {as : List α}
    (h : ∀ a ∈ as, Same (f a) (g a)) : Same (as.findSome? f) (as.findSome? g) := by
  induction as with
  | nil => exact refl _
  | cons a rest ih =>
      have ⟨first, others⟩ := List.forall_mem_cons.mp h
      have split (f : α → Option Symbol) :
          (a :: rest).findSome? f = (f a).or (rest.findSome? f) := by
        rw [List.findSome?_cons]
        cases f a <;> rfl
      rw [split f, split g]
      exact first.orElse (ih others)

end Same

/-! ## Bindings -/

namespace Program

/-- What a binding of a name stands for. -/
def meaning (p : Program) (steps : Nat) (m : SourceModule) (name : String) : Binding → Option Symbol
  | .classDef => some (.classDef (m.classId name))
  | .alias value =>
      match aliasTarget? value with
      | some (.named levels target) =>
          some ((p.resolveAt (steps - levels) m target).getD (.external target))
      | some (.type hint) => some (.typeAlias m hint)
      | some .typeVar => some .typeVar
      | none => none
  | .imported key target => p.member steps key target
  | .module key => some (.module key)
  | .external qualified => some (.external qualified)

/-- The first of several modules that has the name. -/
def throughStars (p : Program) (steps : Nat) (stars : List Path) (name : String) : Option Symbol :=
  stars.findSome? fun key => p.member steps key name

theorem member_eq (p : Program) (steps : Nat) (key : Path) (name : String) :
    p.member steps key name
      = (p.module? key).bind fun m => (p.lookup steps m name).or (p.submodule? m name) := by
  rw [member]
  cases p.module? key with
  | none => rfl
  | some m => cases found : p.lookup steps m name <;> simp [found]

/-- A segment of a dotted name behind what stands before it. -/
def access (p : Program) (steps : Nat) (symbol : Symbol) (segment : String) : Option Symbol :=
  match symbol with
  | .module key => p.member steps key segment
  | .external qualified => some (.external (qualified ++ "." ++ segment))
  | _ => none

theorem access_bare (p : Program) (steps : Nat) (symbol : Symbol) (segment : String) :
    p.access steps symbol.bare segment = p.access steps symbol segment := by
  cases symbol <;> rfl

theorem resolveAt_succ (p : Program) (steps : Nat) (m : SourceModule) (dotted : String) :
    p.resolveAt (steps + 1) m dotted =
      match dotted.splitOn "." with
      | [] => none
      | head :: segments =>
          (p.lookup (steps + 1) m head).bind fun first => segments.foldlM (p.access steps) first := by
  rw [resolveAt]
  rfl

theorem lookup_succ (p : Program) (steps : Nat) (m : SourceModule) (name : String) :
    p.lookup (steps + 1) m name =
      match m.binding? name with
      | some b => p.meaning steps m name b
      | none => if name.startsWith "_" then none else p.throughStars steps m.stars name := by
  rw [lookup]
  cases m.binding? name with
  | none => rfl
  | some b => cases b <;> rfl

end Program

/-! ## Programs with the same places -/

/-- The same modules at the same places, with names that may differ. -/
def Twins (p p' : Program) : Prop := p'.map bareModule = p.map bareModule

namespace Twins

variable {p p' : Program}

theorem find? (h : Twins p p') {f : SourceModule → Bool}
    (places : ∀ u, f (bareModule u) = f u) :
    (p'.find? f).map bareModule = (p.find? f).map bareModule := by
  have through (q : Program) : (q.find? f).map bareModule = (q.map bareModule).find? f := by
    have same : f ∘ bareModule = f := funext places
    rw [List.find?_map, same]
  rw [through, through, h]

theorem module? (h : Twins p p') (key : Path) :
    (p'.module? key).map bareModule = (p.module? key).map bareModule :=
  h.find? fun _ => rfl

theorem submodule? (h : Twins p p') {u u' : SourceModule} (same : bareModule u' = bareModule u)
    (name : String) : p'.submodule? u' name = p.submodule? u name := by
  have directories : (bareModule u').packageDirectory = (bareModule u).packageDirectory := by
    rw [same]
  have below (q : Program) (v : SourceModule) : q.submodule? v name =
      (bareModule v).packageDirectory.bind fun directory =>
        ((q.find? (Program.placeOf · = directory ++ [name])).map bareModule).map
          fun found => Symbol.module found.key := by
    cases found : v.packageDirectory with
    | none => simp [Program.submodule?, bareModule, found]
    | some directory =>
        simp only [Program.submodule?, bareModule, found]
        cases there : q.find? (Program.placeOf · = directory ++ [name]) <;>
          simp [there, bareModule]
  have found (directory : Path) :
      (p'.find? (Program.placeOf · = directory ++ [name])).map bareModule
        = (p.find? (Program.placeOf · = directory ++ [name])).map bareModule :=
    h.find? fun _ => rfl
  simp only [below, directories, found]

end Twins

/-- Two programs read everything alike at a number of steps. -/
structure Agree (p p' : Program) (steps : Nat) : Prop where
  lookup : ∀ key u u', p.module? key = some u → p'.module? key = some u' → ∀ name,
    Same (p'.lookup steps u' name) (p.lookup steps u name)
  resolveAt : ∀ key u u', p.module? key = some u → p'.module? key = some u' → ∀ dotted,
    Same (p'.resolveAt steps u' dotted) (p.resolveAt steps u dotted)
  member : ∀ key name, Same (p'.member steps key name) (p.member steps key name)

namespace Agree

variable {p p' : Program} {steps : Nat}

theorem member_of_lookup (twins : Twins p p')
    (lookup : ∀ key u u', p.module? key = some u → p'.module? key = some u' → ∀ name,
      Same (p'.lookup steps u' name) (p.lookup steps u name)) (key : Path) (name : String) :
    Same (p'.member steps key name) (p.member steps key name) := by
  have place := twins.module? key
  rw [Program.member_eq, Program.member_eq]
  cases found : p.module? key with
  | none =>
      have absent : p'.module? key = none := by simpa [found] using place
      rw [absent]
      exact .refl _
  | some u =>
      obtain ⟨u', found', same⟩ :
          ∃ u', p'.module? key = some u' ∧ bareModule u' = bareModule u := by
        simpa [found] using place
      rw [found', Option.bind_some, Option.bind_some, twins.submodule? same]
      exact (lookup key u u' found found' name).orElse (.refl _)

theorem access (agree : Agree p p' steps) {symbol symbol' : Symbol}
    (same : symbol'.bare = symbol.bare) (segment : String) :
    Same (p'.access steps symbol' segment) (p.access steps symbol segment) := by
  rw [← p'.access_bare, same, p'.access_bare]
  cases symbol with
  | module key => exact agree.member key segment
  | _ => exact .refl _

theorem foldlM_access (agree : Agree p p' steps) (segments : List String) {symbol symbol' : Symbol}
    (same : symbol'.bare = symbol.bare) :
    Same (segments.foldlM (p'.access steps) symbol') (segments.foldlM (p.access steps) symbol) := by
  induction segments generalizing symbol symbol' with
  | nil => exact congrArg some same
  | cons segment rest ih =>
      rw [List.foldlM_cons, List.foldlM_cons]
      exact (agree.access same segment).bind fun _ _ next => ih next

/-- The segments behind the first are members of modules. -/
theorem resolveAt_of_lookup
    (lookup : ∀ key u u', p.module? key = some u → p'.module? key = some u' → ∀ name,
      Same (p'.lookup (steps + 1) u' name) (p.lookup (steps + 1) u name))
    (agree : Agree p p' steps) (key : Path) (u u' : SourceModule) (found : p.module? key = some u)
    (found' : p'.module? key = some u') (dotted : String) :
    Same (p'.resolveAt (steps + 1) u' dotted) (p.resolveAt (steps + 1) u dotted) := by
  rw [Program.resolveAt_succ, Program.resolveAt_succ]
  cases dotted.splitOn "." with
  | nil => exact .refl _
  | cons head segments =>
      exact (lookup key u u' found found' head).bind fun _ _ same =>
        agree.foldlM_access segments same

/-- A binding stands for the same in two modules at one place. -/
theorem meaning (agree : ∀ before ≤ steps, Agree p p' before) {key : Path} {u u' : SourceModule}
    (found : p.module? key = some u) (found' : p'.module? key = some u')
    (same : bareModule u' = bareModule u) (name : String) (b : Binding) :
    Same (p'.meaning steps u' name b) (p.meaning steps u name b) := by
  cases b with
  | classDef =>
      have keys : (bareModule u').key = (bareModule u).key := by rw [same]
      have ids : u'.classId name = u.classId name :=
        congrArg (fun key : Path => (⟨key.display, name⟩ : DefinitionId)) keys
      simp only [Program.meaning, ids]
      exact .refl _
  | «alias» value =>
      simp only [Program.meaning]
      cases aliasTarget? value with
      | none => exact .refl _
      | some target =>
          cases target with
          | named levels target =>
              have read := (agree (steps - levels) (Nat.sub_le _ _)).resolveAt key u u' found found'
              exact congrArg some ((read target).getD target)
          | type hint => exact congrArg (fun m => some (Symbol.typeAlias m hint)) same
          | typeVar => exact .refl _
  | imported target other => exact (agree steps (Nat.le_refl _)).member target other
  | module target => exact .refl _
  | external qualified => exact .refl _

theorem throughStars (agree : Agree p p' steps) (stars : List Path) (name : String) :
    Same (p'.throughStars steps stars name) (p.throughStars steps stars name) :=
  .findSome? fun key _ => agree.member key name

/-- A module that is left as it is reads its names alike, if all is read alike with fewer steps. -/
theorem lookup_of_unchanged (agree : ∀ before ≤ steps, Agree p p' before) {key : Path}
    {u : SourceModule} (found : p.module? key = some u) (found' : p'.module? key = some u)
    (name : String) : Same (p'.lookup (steps + 1) u name) (p.lookup (steps + 1) u name) := by
  rw [Program.lookup_succ, Program.lookup_succ]
  cases u.binding? name with
  | some b => exact meaning agree found found' rfl name b
  | none =>
      dsimp only
      split
      · exact .refl _
      · exact (agree steps (Nat.le_refl _)).throughStars u.stars name

theorem zero (twins : Twins p p') : Agree p p' 0 := by
  have lookup (q : Program) (u : SourceModule) (name : String) : q.lookup 0 u name = none := by
    rw [Program.lookup]
  have resolveAt (q : Program) (u : SourceModule) (dotted : String) :
      q.resolveAt 0 u dotted = none := by
    rw [Program.resolveAt]
  have nothing : ∀ key u u', p.module? key = some u → p'.module? key = some u' → ∀ name,
      Same (p'.lookup 0 u' name) (p.lookup 0 u name) := by
    intro _ u u' _ _ name
    rw [lookup, lookup]
    exact .refl _
  refine ⟨nothing, ?_, member_of_lookup twins nothing⟩
  intro _ u u' _ _ dotted
  rw [resolveAt, resolveAt]
  exact .refl _

theorem succ (twins : Twins p p') (agree : Agree p p' steps)
    (lookup : ∀ key u u', p.module? key = some u → p'.module? key = some u' → ∀ name,
      Same (p'.lookup (steps + 1) u' name) (p.lookup (steps + 1) u name)) :
    Agree p p' (steps + 1) :=
  ⟨lookup, resolveAt_of_lookup lookup agree, member_of_lookup twins lookup⟩

end Agree

end Resolution
end WireTypes
