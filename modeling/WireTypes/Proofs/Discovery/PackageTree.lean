import Mathlib
import WireTypes.Discovery.SourceModule

/-!
# Package trees — the modules in a package, each once

`Frontier.drain` visits children only, so that nothing is forgiven and every place is queued at most once.
-/

namespace WireTypes
namespace Discovery

namespace Frontier

variable {f : Frontier}

/-- The places that wait or may still be met. -/
def known (f : Frontier) : List Path := f.queue.map Prod.fst ++ f.unmet

/-- No place waits twice, and none that waits is unmet. -/
def Fresh (f : Frontier) : Prop :=
  (f.queue.map Prod.fst).Nodup ∧ ∀ p ∈ f.unmet, p ∉ f.queue.map Prod.fst

theorem Fresh.follow (h : f.Fresh) (q : Path) :
    (f.follow q .child).Fresh ∧ (f.follow q .child).known ⊆ f.known := by
  unfold Frontier.follow
  by_cases hq : q ∈ f.unmet
  -- An unmet place moves to the end of the queue, and what is known stays the same.
  · simp only [hq, if_true]
    refine ⟨⟨?_, ?_⟩, ?_⟩
    · rw [List.map_append, List.map_singleton, ← List.concat_eq_append]
      exact List.Nodup.concat (h.2 q hq) h.1
    · intro p hp
      rcases List.mem_filter.1 hp with ⟨hunmet, hne⟩
      have hne' : p ≠ q := by simpa using hne
      simp only [List.map_append, List.map_singleton, List.mem_append, List.mem_singleton, not_or]
      exact ⟨h.2 p hunmet, hne'⟩
    · intro p hp
      simp only [known, List.map_append, List.map_singleton, List.mem_append, List.mem_singleton,
        List.mem_filter] at hp ⊢
      rcases hp with (hold | rfl) | hunmet
      · exact Or.inl hold
      · exact Or.inr hq
      · exact Or.inr hunmet.1
  -- A child is queued once only, so that nothing changes.
  · simp only [hq, if_false]
    exact ⟨h, fun p hp => hp⟩

theorem Fresh.followAll (h : f.Fresh) (children : List Path) :
    (f.followAll (children.map fun p => (p, .child))).Fresh ∧
      (f.followAll (children.map fun p => (p, .child))).known ⊆ f.known := by
  induction children generalizing f with
  | nil => exact ⟨h, fun p hp => hp⟩
  | cons q rest ih =>
      rcases h.follow q with ⟨hfresh, hknown⟩
      rcases ih hfresh with ⟨hfresh', hknown'⟩
      exact ⟨hfresh', fun p hp => hknown (hknown' hp)⟩

theorem Fresh.pop {p : Path} {edge : Edge} {rest : List (Path × Edge)} (h : f.Fresh)
    (hqueue : f.queue = (p, edge) :: rest) :
    ({ f with queue := rest } : Frontier).Fresh ∧ p ∉ ({ f with queue := rest } : Frontier).known ∧
      ({ f with queue := rest } : Frontier).known ⊆ f.known := by
  rcases h with ⟨hnodup, hunmet⟩
  rw [hqueue, List.map_cons, List.nodup_cons] at hnodup
  simp only [hqueue, List.map_cons, List.mem_cons, not_or] at hunmet
  refine ⟨⟨hnodup.2, fun q hq => (hunmet q hq).2⟩, ?_, ?_⟩
  · intro hp
    rcases List.mem_append.1 hp with hwaits | hmem
    · exact hnodup.1 hwaits
    · exact (hunmet p hmem).1 rfl
  · intro q hq
    simp only [known, hqueue, List.map_cons, List.cons_append]
    exact List.mem_cons_of_mem _ hq

theorem Fresh.drain (next : Path → List Path) (h : f.Fresh) :
    (f.drain next).Nodup ∧ f.drain next ⊆ f.known := by
  fun_induction Frontier.drain next f with
  | case1 => exact ⟨List.nodup_nil, List.nil_subset _⟩
  | case2 f p edge rest hqueue ih =>
      -- The place that is visited is not known any more, so that it is not among those that follow.
      rcases h.pop hqueue with ⟨hpop, hp, hknown⟩
      rcases hpop.followAll (next p) with ⟨hfollow, hsub⟩
      rcases ih hfollow with ⟨hnodup, hdrain⟩
      refine ⟨List.nodup_cons.2 ⟨fun hmem => hp (hsub (hdrain hmem)), hnodup⟩, ?_⟩
      intro q hq
      rcases List.mem_cons.1 hq with rfl | hq
      · simp [known, hqueue]
      · exact hknown (hsub (hdrain hq))

theorem fresh_start (places : List Path) (first : Path) : (start places first).Fresh := by
  refine ⟨List.nodup_singleton _, ?_⟩
  intro p hp
  have hmem : p ∈ places ∧ p ≠ first := by simpa [start] using hp
  simpa [start] using hmem.2

theorem drain_of_nil {next : Path → List Path} (h : f.queue = []) : f.drain next = [] := by
  rw [drain]
  split
  · rfl
  · next h' => simp [h] at h'

theorem drain_of_cons {next : Path → List Path} {p : Path} {edge : Edge}
    {rest : List (Path × Edge)} (h : f.queue = (p, edge) :: rest) :
    f.drain next = p :: (({ f with queue := rest } : Frontier).followAll
      ((next p).map fun q => (q, .child))).drain next := by
  rw [drain]
  split
  · next h' => simp [h] at h'
  · next h' =>
      rw [h] at h'
      cases h'
      rfl

end Frontier

/-- A module and the modules in its package are different paths of the tree. -/
theorem packageTree_spec (t : FileTree) (key : Path) :
    (key :: packageTree t key).Nodup ∧ ∀ p ∈ packageTree t key, p ∈ t.paths := by
  have hfresh := Frontier.fresh_start t.paths key
  rcases hfresh.drain (submodules t) with ⟨hnodup, hknown⟩
  -- The package tree is what is drained after its first module.
  have htree : (Frontier.start t.paths key).drain (submodules t) = key :: packageTree t key := by
    unfold packageTree
    rw [Frontier.drain_of_cons rfl]
    rfl
  rw [htree] at hnodup hknown
  refine ⟨hnodup, ?_⟩
  intro p hp
  have hmem := hknown (List.mem_cons_of_mem _ hp)
  have hne : p ≠ key := fun heq => (List.nodup_cons.1 hnodup).1 (heq ▸ hp)
  simpa [Frontier.known, Frontier.start, hne] using hmem

end Discovery
end WireTypes
