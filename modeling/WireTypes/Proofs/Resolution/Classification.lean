import WireTypes.Resolution.ClassKind

/-!
# Classification — which classes have a kind

A class of the tree is classified from its declaration; an identity without a declaration stays plain.

- `Keeps p act`: from kinds of declared classes, `act` leads to kinds of declared classes;
- `classify_keeps`: classifying a class does so, whatever its bases are;
- `classified_declared`: every class of a classified program that is not plain is declared in it.
-/

namespace WireTypes
namespace Resolution

open Discovery Python

namespace Program

variable (p : Program)

/-- All classes with a kind are declared. -/
def DeclaredKinds (kinds : List (DefinitionId × ClassKind)) : Prop :=
  ∀ entry ∈ kinds, (p.classDecl? entry.1).isSome

def Keeps {α : Type} (act : StateM Classification α) : Prop :=
  ∀ s, p.DeclaredKinds s.kinds → p.DeclaredKinds (act s).2.kinds

section

variable {p} {α β : Type}

namespace Keeps

theorem pure (a : α) : p.Keeps (Pure.pure a) := fun _ h => h

theorem bind {x : StateM Classification α} {f : α → StateM Classification β} (hx : p.Keeps x)
    (hf : ∀ a, p.Keeps (f a)) : p.Keeps (x >>= f) :=
  fun s hs => hf (x s).1 (x s).2 (hx s hs)

theorem foldlM {f : β → α → StateM Classification β} (hf : ∀ b a, p.Keeps (f b a)) :
    ∀ (xs : List α) (b : β), p.Keeps (xs.foldlM f b)
  | [], b => .pure b
  | x :: rest, b => by
      rw [List.foldlM_cons]
      exact (hf b x).bind fun b' => foldlM hf rest b'

end Keeps

theorem DeclaredKinds.concat {kinds : List (DefinitionId × ClassKind)} (h : p.DeclaredKinds kinds)
    {id : DefinitionId} (hid : (p.classDecl? id).isSome) (kind : ClassKind) :
    p.DeclaredKinds (kinds ++ [(id, kind)]) := by
  intro entry hentry
  rcases List.mem_append.1 hentry with hold | hnew
  · exact h entry hold
  · have hentry : entry = (id, kind) := List.mem_singleton.1 hnew
    simpa [hentry] using hid

theorem baseAncestry_keeps {classify : DefinitionId → StateM Classification ClassKind}
    (hclassify : ∀ id, p.Keeps (classify id)) (m : SourceModule) (base : Expr) :
    p.Keeps (p.baseAncestry m classify base) := by
  unfold baseAncestry
  -- Only a base that names a class of the tree is classified itself.
  split
  · split
    · exact .pure _
    · exact (hclassify _).bind fun _ => .pure _
    · exact .pure _
  · split
    · exact .pure _
    · refine (hclassify _).bind fun kind => ?_
      split
      · exact .pure _
      · exact .pure _
    · exact .pure _
  · exact .pure _

/-- Only declared classes are given a kind, by induction on the steps that are left. -/
theorem classify_keeps (depth : Nat) : ∀ id, p.Keeps (p.classify depth id) := by
  induction depth with
  | zero => exact fun _ => .pure _
  | succ depth ih =>
      intro id s hs
      have hbases : ∀ (m : SourceModule) (bases : List Expr) (a : Ancestry), p.Keeps
          (bases.foldlM (fun a base => do
            return a.add (← p.baseAncestry m (p.classify depth) base)) a) := by
        intro m bases a
        exact Keeps.foldlM (fun a base => (baseAncestry_keeps ih m base).bind fun _ => .pure _) bases a
      cases hknown : s.kinds.lookup id with
      | some kind =>
          simp only [classify, bind, StateT.bind, get, getThe, MonadStateOf.get, StateT.get, Pure.pure,
            hknown]
          exact hs
      | none =>
          by_cases hvisiting : id ∈ s.visiting
          · simp only [classify, bind, StateT.bind, get, getThe, MonadStateOf.get, StateT.get, Pure.pure,
              hknown, hvisiting, if_true]
            exact hs
          · cases hdecl : p.classDecl? id with
            | none =>
                simp only [classify, bind, StateT.bind, get, getThe, MonadStateOf.get, StateT.get,
                  Pure.pure, hknown, hvisiting, if_false, hdecl]
                exact hs
            | some decl =>
                rcases decl with ⟨m, d⟩
                -- The bases are classified first, and then the class itself is added.
                have hrest := hbases m d.bases Ancestry.none
                  { s with visiting := id :: s.visiting } hs
                have hid : (p.classDecl? id).isSome := by simp [hdecl]
                have hadded := hrest.concat hid
                simp only [classify, bind, StateT.bind, get, getThe, MonadStateOf.get, StateT.get,
                  Pure.pure, hknown, hvisiting, if_false, hdecl]
                exact hadded _

theorem classKinds_declared : p.DeclaredKinds p.classKinds := by
  have hall : ∀ (ids : List DefinitionId) (kinds : List (DefinitionId × ClassKind)),
      p.DeclaredKinds kinds → p.DeclaredKinds (ids.foldl p.classifyNext kinds) := by
    intro ids
    induction ids with
    | nil => exact fun _ h => h
    | cons id rest ih =>
        intro kinds hkinds
        exact ih _ (classify_keeps p.classDepth id ⟨kinds, []⟩ hkinds)
  exact hall p.classIds [] fun _ h => absurd h List.not_mem_nil

end

end Program

namespace ClassifiedProgram

/-- Every class that is not plain is declared in the tree. -/
def Declared (c : ClassifiedProgram) : Prop :=
  ∀ id, c.kind id ≠ .plain → (c.modules.classDecl? id).isSome

end ClassifiedProgram

theorem Program.classified_declared (p : Program) : p.classified.Declared := by
  intro id hkind
  cases hlookup : p.classKinds.lookup id with
  | none =>
      have hplain : p.classified.kind id = .plain := by
        simp [ClassifiedProgram.kind, Program.classified, hlookup]
      exact absurd hplain hkind
  | some kind =>
      rcases List.lookup_eq_some_iff.1 hlookup with ⟨front, back, hsplit, _⟩
      have hmem : (id, kind) ∈ p.classKinds := by
        simp [hsplit]
      exact classKinds_declared _ hmem

end Resolution
end WireTypes
