import WireTypes.Files.Path

/-!
# Frontier — what remains to be visited

A frontier holds the places that were not met yet, a queue of places to visit, and the places whose
visit failed and was forgiven.

- `Frontier.follow` queues a place when it is met for the first time, and once more when a forgiven
  place is needed after all;
- `Frontier.drain` visits everything breadth first;
- `Frontier.explore` visits with a step that may fail.

Both end because every step makes `Frontier.weight` smaller.
-/

namespace WireTypes
namespace Discovery

/-- Why a module is visited. -/
inductive Edge
  | entry
  /-- It stands in the package of the entry module. -/
  | child
  /-- Another module imports it. -/
  | imported
  deriving DecidableEq, Repr

structure Frontier where
  unmet : List Path
  forgiven : List Path
  queue : List (Path × Edge)

namespace Frontier

/-- The start of a visit: one place is queued, and all others of `places` are unmet. -/
def start (places : List Path) (first : Path) : Frontier :=
  ⟨places.filter (· ≠ first), [], [(first, .entry)]⟩

def follow (f : Frontier) (target : Path) (edge : Edge) : Frontier :=
  -- A place is met once,
  if target ∈ f.unmet then
    { f with unmet := f.unmet.filter (· ≠ target), queue := f.queue ++ [(target, edge)] }
  -- and a forgiven place once more when it is imported.
  else if edge = .imported ∧ target ∈ f.forgiven then
    { f with
      forgiven := f.forgiven.filter (· ≠ target), queue := f.queue ++ [(target, edge)] }
  else f

def followAll (f : Frontier) (edges : List (Path × Edge)) : Frontier :=
  edges.foldl (fun f e => f.follow e.1 e.2) f

/-! ## Weight -/

/-- A child counts more than the forgiven place that it may become, and that more than an import. -/
def edgeWeight : Edge → Nat
  | .child => 3
  | _ => 1

def queueWeight : List (Path × Edge) → Nat
  | [] => 0
  | q :: rest => edgeWeight q.2 + queueWeight rest

def weight (f : Frontier) : Nat :=
  4 * f.unmet.length + 2 * f.forgiven.length + queueWeight f.queue

theorem edgeWeight_pos (e : Edge) : 0 < edgeWeight e := by cases e <;> decide

theorem edgeWeight_le (e : Edge) : edgeWeight e ≤ 3 := by cases e <;> decide

theorem queueWeight_append (queue : List (Path × Edge)) (q : Path × Edge) :
    queueWeight (queue ++ [q]) = queueWeight queue + edgeWeight q.2 := by
  induction queue with
  | nil => simp [queueWeight]
  | cons first rest ih => simp [queueWeight, ih, Nat.add_assoc]

theorem length_filter_ne_lt {p : Path} {l : List Path} (h : p ∈ l) :
    (l.filter (· ≠ p)).length < l.length :=
  List.length_filter_lt_length_iff_exists.mpr ⟨p, h, by simp⟩

theorem weight_follow_le (f : Frontier) (target : Path) (edge : Edge) :
    (f.follow target edge).weight ≤ f.weight := by
  have hle := edgeWeight_le edge
  unfold follow
  split
  · next h =>
      have := length_filter_ne_lt h
      simp only [weight, queueWeight_append]
      omega
  · split
    · next h =>
        have := length_filter_ne_lt h.2
        have hw : edgeWeight edge = 1 := by rw [h.1]; rfl
        simp only [weight, queueWeight_append]
        omega
    · exact Nat.le_refl _

theorem weight_followAll_le (f : Frontier) (edges : List (Path × Edge)) :
    (f.followAll edges).weight ≤ f.weight := by
  induction edges generalizing f with
  | nil => exact Nat.le_refl _
  | cons e rest ih => exact Nat.le_trans (ih _) (weight_follow_le f e.1 e.2)

theorem weight_pop_lt {f : Frontier} {p : Path} {e : Edge} {rest : List (Path × Edge)}
    (h : f.queue = (p, e) :: rest) : ({ f with queue := rest } : Frontier).weight < f.weight := by
  have := edgeWeight_pos e
  simp only [weight, h, queueWeight]
  omega

/-- The frontier after the visit of a child was forgiven. -/
def forgive (f : Frontier) (p : Path) : Frontier := { f with forgiven := p :: f.forgiven }

theorem weight_forgive_lt {f : Frontier} {p : Path} {rest : List (Path × Edge)}
    (h : f.queue = (p, .child) :: rest) :
    (({ f with queue := rest } : Frontier).forgive p).weight < f.weight := by
  simp only [weight, forgive, h, queueWeight, List.length_cons, edgeWeight]
  omega

/-! ## Visits -/

/-- Visits everything that `next` leads to, in the order in which it is met. -/
def drain (next : Path → List Path) (f : Frontier) : List Path :=
  match _h : f.queue with
  | [] => []
  | (p, _) :: rest =>
      p :: drain next
        (({ f with queue := rest } : Frontier).followAll ((next p).map fun q => (q, .child)))
termination_by f.weight
decreasing_by exact Nat.lt_of_le_of_lt (weight_followAll_le _ _) (weight_pop_lt (by assumption))

/-- Visits with a step that gives a result and the places it leads to. A failure is forgiven for a
child and ends the visit otherwise. -/
def explore {ε α : Type} (visit : Path → Except ε (α × List (Path × Edge))) (f : Frontier) :
    Except ε (List α) :=
  match _h : f.queue with
  | [] => .ok []
  -- The failure of a child is forgiven.
  | (p, .child) :: rest =>
      match visit p with
      | .ok (a, edges) =>
          (explore visit (({ f with queue := rest } : Frontier).followAll edges)).map (a :: ·)
      | .error _ => explore visit (({ f with queue := rest } : Frontier).forgive p)
  | (p, _) :: rest =>
      match visit p with
      | .ok (a, edges) =>
          (explore visit (({ f with queue := rest } : Frontier).followAll edges)).map (a :: ·)
      | .error e => .error e
termination_by f.weight
decreasing_by
  · exact Nat.lt_of_le_of_lt (weight_followAll_le _ _) (weight_pop_lt (by assumption))
  · exact weight_forgive_lt (by assumption)
  · exact Nat.lt_of_le_of_lt (weight_followAll_le _ _) (weight_pop_lt (by assumption))

end Frontier

end Discovery
end WireTypes
