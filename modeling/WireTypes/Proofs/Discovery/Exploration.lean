import Mathlib
import WireTypes.Discovery.Frontier

/-!
# Exploration — which places are visited, and when a visit fails

An exploration starts from a first place and a list of children, which are all queued before anything is
visited. What a visited place leads to is imported.

- `Exploration.Leads`: the places to be visited, whatever the order;
- `Exploration.Run`: the frontiers that are met, with the places that were visited before;
- `Run.sound`, `Run.answered`: what holds of every such frontier, by induction over the visits;
- `explore_error_iff`: an exploration fails if its first place does, or if a visited place imports one
  that fails, unless this is a child that was still waiting when it was imported;
- `explore_ok`: otherwise all places are visited, each once.
-/

namespace WireTypes
namespace Discovery

structure Exploration (ε α : Type) where
  visit : Path → Except ε (α × List (Path × Edge))
  places : List Path
  first : Path
  children : List Path
  distinct : (first :: children).Nodup
  children_places : ∀ p ∈ children, p ∈ places
  /-- What a place leads to is a place that it imports. -/
  imports : ∀ {p a edges}, visit p = .ok (a, edges) → ∀ e ∈ edges, e.2 = .imported ∧ e.1 ∈ places

namespace Exploration

variable {ε α : Type} (x : Exploration ε α)

def Fails (p : Path) : Prop := ∃ e, x.visit p = .error e

def Needs (p q : Path) : Prop := ∃ a edges, x.visit p = .ok (a, edges) ∧ (q, .imported) ∈ edges

/-- The places that are queued at the start, in order. -/
def order : List Path := x.first :: x.children

/-- Both places are queued at the start, and `p` is visited before `q`. -/
def Precedes (p q : Path) : Prop := ∃ front back, x.order = front ++ p :: back ∧ q ∈ back

inductive Leads : Path → Prop
  | first : Leads x.first
  | child {p : Path} : p ∈ x.children → Leads p
  | needed {p q : Path} : Leads p → x.Needs p q → Leads q

/-- The frontier at the start. -/
def frontier : Frontier :=
  (Frontier.start x.places x.first).followAll (x.children.map fun p => (p, .child))

def succeeds (p : Path) : Bool := (x.visit p).toBool

theorem not_fails_of_ok {p : Path} {r : α × List (Path × Edge)} (h : x.visit p = .ok r) :
    ¬ x.Fails p := by
  rintro ⟨e, he⟩
  rw [h] at he
  cases he

theorem succeeds_of_ok {p : Path} {r : α × List (Path × Edge)} (h : x.visit p = .ok r) :
    x.succeeds p = true := by
  rw [succeeds, h]
  rfl

theorem not_succeeds {p : Path} (h : x.Fails p) : x.succeeds p = false := by
  rcases h with ⟨e, he⟩
  rw [succeeds, he]
  rfl

theorem Needs.ok {p q : Path} (h : x.Needs p q) : ∃ r, x.visit p = .ok r := by
  rcases h with ⟨a, edges, hok, _⟩
  exact ⟨_, hok⟩

theorem Needs.mem_places {p q : Path} (h : x.Needs p q) : q ∈ x.places := by
  rcases h with ⟨a, edges, hok, hmem⟩
  exact (x.imports hok _ hmem).2

/-- The first place fails, or a place that is visited imports one that fails and that does not wait for
its turn as a child. -/
def Aborts : Prop :=
  x.Fails x.first ∨ ∃ p q, x.Leads p ∧ x.Needs p q ∧ x.Fails q ∧ ¬ x.Precedes p q

/-- A place that is visited imports a child that fails when its turn comes. -/
def Overlooks (p q : Path) : Prop := x.Leads p ∧ x.Needs p q ∧ x.Fails q ∧ x.Precedes p q

/-! ## Runs -/

/-- A frontier that is met after the places in `done` were visited. -/
inductive Run : List Path → Frontier → Prop
  | start : Run [] x.frontier
  | visited {done : List Path} {f : Frontier} {p : Path} {edge : Edge} {rest : List (Path × Edge)}
      {a : α} {edges : List (Path × Edge)} :
      Run done f → f.queue = (p, edge) :: rest → x.visit p = .ok (a, edges) →
      Run (done ++ [p]) (({ f with queue := rest } : Frontier).followAll edges)
  | forgiven {done : List Path} {f : Frontier} {p : Path} {rest : List (Path × Edge)} {e : ε} :
      Run done f → f.queue = (p, .child) :: rest → x.visit p = .error e →
      Run (done ++ [p]) (({ f with queue := rest } : Frontier).forgive p)

/-- The results of the places that do not fail. -/
def results (done : List Path) : List α :=
  done.filterMap fun p => (x.visit p).toOption.map Prod.fst

theorem results_cons_ok {p : Path} {a : α} {edges : List (Path × Edge)} (rest : List Path)
    (h : x.visit p = .ok (a, edges)) : x.results (p :: rest) = a :: x.results rest := by
  simp [results, h, Except.toOption]

theorem results_cons_error {p : Path} {e : ε} (rest : List Path) (h : x.visit p = .error e) :
    x.results (p :: rest) = x.results rest := by
  simp [results, h, Except.toOption]

/-- How an exploration ends: with an empty queue, or with the failure of a place that is not forgiven. -/
inductive Outcome (done : List Path) : Except ε (List α) → Prop
  | finished {more : List Path} {f : Frontier} :
      x.Run (done ++ more) f → f.queue = [] → Outcome done (.ok (x.results more))
  | failed {more : List Path} {f : Frontier} {p : Path} {edge : Edge} {rest : List (Path × Edge)}
      {e : ε} :
      x.Run (done ++ more) f → f.queue = (p, edge) :: rest → edge ≠ .child → x.visit p = .error e →
      Outcome done (.error e)

end Exploration

namespace Frontier

variable {ε α : Type} {visit : Path → Except ε (α × List (Path × Edge))} {f : Frontier} {p : Path}
  {edge : Edge} {rest : List (Path × Edge)}

theorem explore_of_nil (h : f.queue = []) : f.explore visit = .ok [] := by
  rw [explore]
  split
  · rfl
  · next h' => simp [h] at h'
  · next h' => simp [h] at h'

theorem explore_of_ok {a : α} {edges : List (Path × Edge)} (h : f.queue = (p, edge) :: rest)
    (hvisit : visit p = .ok (a, edges)) :
    f.explore visit =
      ((({ f with queue := rest } : Frontier).followAll edges).explore visit).map (a :: ·) := by
  rw [explore]
  split
  · next h' => simp [h] at h'
  · next q rest' h' =>
      rw [h] at h'
      cases h'
      simp [hvisit]
  · next q edge' rest' _ h' =>
      rw [h] at h'
      cases h'
      simp [hvisit]

theorem explore_of_forgiven {e : ε} (h : f.queue = (p, .child) :: rest)
    (hvisit : visit p = .error e) :
    f.explore visit = (({ f with queue := rest } : Frontier).forgive p).explore visit := by
  rw [explore]
  split
  · next h' => simp [h] at h'
  · next q rest' h' =>
      rw [h] at h'
      cases h'
      simp [hvisit]
  · next q edge' rest' hne h' =>
      rw [h] at h'
      cases h'
      exact absurd rfl hne

theorem explore_of_error {e : ε} (h : f.queue = (p, edge) :: rest) (hedge : edge ≠ .child)
    (hvisit : visit p = .error e) : f.explore visit = .error e := by
  rw [explore]
  split
  · next h' => simp [h] at h'
  · next q rest' h' =>
      rw [h] at h'
      cases h'
      exact absurd rfl hedge
  · next q edge' rest' _ h' =>
      rw [h] at h'
      cases h'
      simp [hvisit]

end Frontier

namespace Exploration

variable {ε α : Type} {x : Exploration ε α} {done : List Path} {f : Frontier}

theorem Outcome.cons_ok {p : Path} {a : α} {edges : List (Path × Edge)} {r : Except ε (List α)}
    (hvisit : x.visit p = .ok (a, edges)) (h : x.Outcome (done ++ [p]) r) :
    x.Outcome done (r.map (a :: ·)) := by
  cases h with
  | finished hrun hqueue =>
      rename_i more f
      rw [List.append_assoc] at hrun
      have hresults : x.results ([p] ++ more) = a :: x.results more := x.results_cons_ok more hvisit
      show x.Outcome done (.ok (a :: x.results more))
      rw [← hresults]
      exact .finished hrun hqueue
  | failed hrun hqueue hedge hfail =>
      rw [List.append_assoc] at hrun
      exact .failed hrun hqueue hedge hfail

theorem Outcome.cons_error {p : Path} {e : ε} {r : Except ε (List α)}
    (hvisit : x.visit p = .error e) (h : x.Outcome (done ++ [p]) r) : x.Outcome done r := by
  cases h with
  | finished hrun hqueue =>
      rename_i more f
      rw [List.append_assoc] at hrun
      have hresults : x.results ([p] ++ more) = x.results more := x.results_cons_error more hvisit
      rw [← hresults]
      exact .finished hrun hqueue
  | failed hrun hqueue hedge hfail =>
      rw [List.append_assoc] at hrun
      exact .failed hrun hqueue hedge hfail

/-- The frontiers of an exploration are those of a run, down to the end. -/
theorem Run.outcome (h : x.Run done f) : x.Outcome done (f.explore x.visit) := by
  -- Every visit lowers the weight of the frontier, also one that adds imports to the queue: what it adds
  -- was unmet or forgiven, and weighed more there.
  induction hweight : f.weight using Nat.strongRecOn generalizing done f with
  | ind n ih =>
      subst hweight
      cases hqueue : f.queue with
      | nil =>
          rw [Frontier.explore_of_nil hqueue]
          exact .finished (by rw [List.append_nil]; exact h) hqueue
      | cons entry rest =>
          rcases entry with ⟨p, edge⟩
          cases hvisit : x.visit p with
          | ok r =>
              rcases r with ⟨a, edges⟩
              have hlt : (({ f with queue := rest } : Frontier).followAll edges).weight < f.weight :=
                calc
                  (({ f with queue := rest } : Frontier).followAll edges).weight
                      ≤ ({ f with queue := rest } : Frontier).weight := Frontier.weight_followAll_le _ _
                  _ < f.weight := Frontier.weight_pop_lt hqueue
              rw [Frontier.explore_of_ok hqueue hvisit]
              exact (ih _ hlt (h.visited hqueue hvisit) rfl).cons_ok hvisit
          | error e =>
              by_cases hedge : edge = .child
              · subst hedge
                have hlt := Frontier.weight_forgive_lt hqueue
                rw [Frontier.explore_of_forgiven hqueue hvisit]
                exact (ih _ hlt (h.forgiven hqueue hvisit) rfl).cons_error hvisit
              · have hfailed : x.Outcome done (Except.error e) :=
                  .failed (by rw [List.append_nil]; exact h) hqueue hedge hvisit
                rw [Frontier.explore_of_error hqueue hedge hvisit]
                exact hfailed

/-! ## What holds of every frontier -/

/-- The places that were visited and those that wait. -/
def met (done : List Path) (f : Frontier) : List Path := done ++ f.queue.map Prod.fst

structure Sound (x : Exploration ε α) (done : List Path) (f : Frontier) : Prop where
  order : x.order <+: met done f
  once : ((met done f).filter x.succeeds).Nodup
  unmet : ∀ p ∈ f.unmet, p ∉ met done f
  covered : ∀ p ∈ x.places, p ∈ f.unmet ∨ p ∈ met done f
  leads : ∀ p ∈ met done f, x.Leads p
  forgiven : ∀ p ∈ f.forgiven, p ∈ done ∧ x.Fails p
  /-- A place that failed was a child, and it waits again as soon as it is not forgiven any more. -/
  failed : ∀ p ∈ done, x.Fails p → p ∈ x.children ∧ (p ∈ f.forgiven ∨ (p, .imported) ∈ f.queue)
  entry : ∀ p, (p, .entry) ∈ f.queue → p = x.first
  child : ∀ p, (p, .child) ∈ f.queue → p ∈ x.children
  imported : ∀ q, (q, .imported) ∈ f.queue → ∃ p ∈ done, x.Needs p q ∧ ¬ x.Precedes p q

/-- A needed place was met. If it fails, it waits as an import, unless it was a child that was still
waiting then. -/
def Answered (x : Exploration ε α) (done : List Path) (f : Frontier) (p q : Path) : Prop :=
  q ∈ met done f ∧ (x.Fails q → (q, .imported) ∈ f.queue ∨ x.Precedes p q)

theorem Answered.mono {g : Frontier} {p q : Path} (h : Answered x done f p q)
    (hqueue : f.queue <+: g.queue) : Answered x done g p q := by
  -- The queue only grows at its end, so that nothing that was met or waits is lost.
  refine ⟨(List.prefix_append_right_inj done).2 (hqueue.map Prod.fst) |>.subset h.1, fun hfails => ?_⟩
  rcases h.2 hfails with hwaits | hprecedes
  · exact Or.inl (hqueue.subset hwaits)
  · exact Or.inr hprecedes

/-! ## One import -/

section

variable {p q : Path}

theorem prefix_of_not_mem {front back rest : List Path} (hp : p ∉ done)
    (hstart : front ++ p :: back <+: done ++ p :: rest) : done <+: front := by
  have hfront : front <+: done ++ p :: rest := (List.prefix_append _ _).trans hstart
  -- Both lists begin the same list. If `front` were shorter, the place after it would be in `done`.
  rcases List.prefix_or_prefix_of_prefix (List.prefix_append done (p :: rest)) hfront with h | h
  · exact h
  · rcases h with ⟨between, rfl⟩
    cases between with
    | nil => simp
    | cons head tail =>
        rw [List.append_assoc, List.prefix_append_right_inj, List.cons_append,
          List.cons_prefix_cons] at hstart
        exact absurd (by rw [hstart.1]; simp) hp

/-- What was visited before a place that succeeds is not preceded by it. -/
theorem Sound.not_precedes (hsound : Sound x (done ++ [p]) f) (hok : x.succeeds p = true)
    (hq : q ∈ done) : ¬ x.Precedes p q := by
  rintro ⟨front, back, horder, hback⟩
  -- A place that succeeds is met once, so that the places in `done` do not hold `p`.
  have honce := hsound.once
  simp only [met, List.append_assoc, List.filter_append, List.singleton_append,
    List.filter_cons_of_pos hok] at honce
  have hp : p ∉ done := by
    intro hmem
    have hfilter : p ∈ done.filter x.succeeds := List.mem_filter.2 ⟨hmem, hok⟩
    exact (List.nodup_append.1 honce).2.2 p hfilter p List.mem_cons_self rfl
  -- They stand in front of `p` in the start order, and this order holds nothing twice.
  have hstart := hsound.order
  rw [horder, met, List.append_assoc, List.singleton_append] at hstart
  have hfront : q ∈ front := (prefix_of_not_mem hp hstart).subset hq
  have hdistinct : (front ++ p :: back).Nodup := horder ▸ x.distinct
  exact (List.nodup_append.1 hdistinct).2.2 q hfront q (List.mem_cons_of_mem _ hback) rfl

/-- A child that was not visited yet is preceded by the place that is visited. -/
theorem Sound.precedes (hsound : Sound x (done ++ [p]) f) (hq : q ∈ x.order)
    (hnot : q ∉ done ++ [p]) : x.Precedes p q := by
  -- The places that were met begin with the start order. What was not visited comes after what was, and
  -- `p` is the last of this.
  have hdone : done ++ [p] <+: met (done ++ [p]) f := List.prefix_append _ _
  rcases List.prefix_or_prefix_of_prefix hsound.order hdone with h | h
  · exact absurd (h.subset hq) hnot
  · rcases h with ⟨back, hback⟩
    rw [List.append_assoc, List.singleton_append] at hback
    refine ⟨done, back, hback.symm, ?_⟩
    rw [← hback] at hq
    simp only [List.mem_append, List.mem_cons, not_or] at hq hnot
    exact (hq.resolve_left hnot.1).resolve_left hnot.2.1

/-- An import is put at the end of the queue: a place that was not met, or a forgiven one. -/
theorem Sound.enqueue (hsound : Sound x done f) (hp : p ∈ done) (hneeds : x.Needs p q)
    (hlate : ¬ x.Precedes p q) (honce : x.succeeds q = true → q ∉ met done f) {g : Frontier}
    (hqueue : g.queue = f.queue ++ [(q, .imported)])
    (hunmet : ∀ r, r ∈ g.unmet ↔ r ∈ f.unmet ∧ r ≠ q)
    (hforgiven : ∀ r ∈ g.forgiven, r ∈ f.forgiven)
    (hkept : ∀ r ∈ f.forgiven, r ≠ q → r ∈ g.forgiven) : Sound x done g := by
  have hmet : met done g = met done f ++ [q] := by simp [met, hqueue]
  have hold : ∀ {r edge}, (r, edge) ∈ f.queue → (r, edge) ∈ g.queue := by
    intro r edge hr
    rw [hqueue]
    exact List.mem_append_left _ hr
  -- The new entry of the queue is the import of `q`, and all others are old ones.
  have hnew : ∀ {r edge}, (r, edge) ∈ g.queue →
      (r, edge) ∈ f.queue ∨ (r = q ∧ edge = .imported) := by
    intro r edge hr
    simpa [hqueue] using hr
  constructor
  case order =>
    rw [hmet]
    exact hsound.order.trans (List.prefix_append _ _)
  case once =>
    rw [hmet, List.filter_append]
    cases hok : x.succeeds q with
    | false => simpa [hok] using hsound.once
    | true =>
        have hq : q ∉ (met done f).filter x.succeeds := fun h => honce hok (List.mem_filter.1 h).1
        rw [List.filter_cons_of_pos hok, List.filter_nil, ← List.concat_eq_append]
        exact List.Nodup.concat hq hsound.once
  case unmet =>
    intro r hr
    have hr' := (hunmet r).1 hr
    rw [hmet]
    simp [hsound.unmet r hr'.1, hr'.2]
  case covered =>
    intro r hr
    rw [hmet]
    by_cases hrq : r = q
    · exact Or.inr (by simp [hrq])
    · rcases hsound.covered r hr with h | h
      · exact Or.inl ((hunmet r).2 ⟨h, hrq⟩)
      · exact Or.inr (List.mem_append_left _ h)
  case leads =>
    intro r hr
    rw [hmet] at hr
    rcases List.mem_append.1 hr with h | h
    · exact hsound.leads r h
    · rw [List.mem_singleton.1 h]
      exact .needed (hsound.leads p (List.mem_append_left _ hp)) hneeds
  case forgiven =>
    intro r hr
    exact hsound.forgiven r (hforgiven r hr)
  case failed =>
    intro r hr hfails
    rcases hsound.failed r hr hfails with ⟨hchild, hstate⟩
    refine ⟨hchild, ?_⟩
    by_cases hrq : r = q
    · rw [hqueue, hrq]
      exact Or.inr (by simp)
    · rcases hstate with h | h
      · exact Or.inl (hkept r h hrq)
      · exact Or.inr (hold h)
  case entry =>
    intro r hr
    rcases hnew hr with h | ⟨_, h⟩
    · exact hsound.entry r h
    · cases h
  case child =>
    intro r hr
    rcases hnew hr with h | ⟨_, h⟩
    · exact hsound.child r h
    · cases h
  case imported =>
    intro r hr
    rcases hnew hr with h | ⟨rfl, _⟩
    · exact hsound.imported r h
    · exact ⟨p, hp, hneeds, hlate⟩

/-- A place that was met already, and that does not wait for an import, is a child whose turn comes
later or has come. -/
theorem Sound.answered_of_met (hsound : Sound x (done ++ [p]) f) (hmem : q ∈ met (done ++ [p]) f)
    (hforgiven : q ∉ f.forgiven) : Answered x (done ++ [p]) f p q := by
  refine ⟨hmem, fun hfails => ?_⟩
  -- A place that was visited and fails waits again, since it is not forgiven. One that was not visited
  -- waits for the first time, as a child or as an import.
  by_cases hdone : q ∈ done ++ [p]
  · rcases (hsound.failed q hdone hfails).2 with h | h
    · exact absurd h hforgiven
    · exact Or.inl h
  · have hqueue : q ∈ f.queue.map Prod.fst := (List.mem_append.1 hmem).resolve_left hdone
    rcases List.mem_map.1 hqueue with ⟨⟨r, edge⟩, hr, rfl⟩
    cases edge with
    | entry =>
        have hfirst : x.order.head? = some r := by
          rw [hsound.entry r hr]
          rfl
        exact Or.inr (hsound.precedes (List.mem_of_head? hfirst) hdone)
    | child => exact Or.inr (hsound.precedes (List.mem_cons_of_mem _ (hsound.child r hr)) hdone)
    | imported => exact Or.inl hr

theorem Sound.follow (hsound : Sound x (done ++ [p]) f) (hneeds : x.Needs p q) :
    Sound x (done ++ [p]) (f.follow q .imported) ∧
      Answered x (done ++ [p]) (f.follow q .imported) p q ∧
      f.queue <+: (f.follow q .imported).queue := by
  rcases hneeds.ok with ⟨r, hok⟩
  have hp : p ∈ done ++ [p] := by simp
  unfold Frontier.follow
  by_cases hunmet : q ∈ f.unmet
  · simp only [hunmet, if_true]
    -- The place was not met. It is no child then, since all children are queued at the start.
    have hnew := hsound.unmet q hunmet
    have hlate : ¬ x.Precedes p q := by
      rintro ⟨front, back, horder, hback⟩
      refine hnew (hsound.order.subset ?_)
      rw [horder]
      exact List.mem_append_right _ (List.mem_cons_of_mem _ hback)
    refine ⟨hsound.enqueue hp hneeds hlate (fun _ => hnew) rfl ?_ (fun _ h => h)
      (fun _ h _ => h), ⟨?_, fun _ => Or.inl ?_⟩, List.prefix_append _ _⟩
    · intro r
      simp [List.mem_filter]
    · simp [met]
    · simp
  · simp only [hunmet, if_false]
    by_cases hforgiven : q ∈ f.forgiven
    · simp only [hforgiven, and_self, if_true]
      -- The place is a child that was visited before, and it is queued once more.
      rcases hsound.forgiven q hforgiven with ⟨hdone, hfails⟩
      have hne : q ∈ done := by
        rcases List.mem_append.1 hdone with h | h
        · exact h
        · rw [List.mem_singleton.1 h] at hfails
          exact absurd hfails (x.not_fails_of_ok hok)
      have hlate := hsound.not_precedes (x.succeeds_of_ok hok) hne
      refine ⟨hsound.enqueue hp hneeds hlate ?_ rfl ?_ ?_ ?_, ⟨?_, fun _ => Or.inl ?_⟩,
        List.prefix_append _ _⟩
      · intro hsucceeds
        rw [x.not_succeeds hfails] at hsucceeds
        cases hsucceeds
      · intro r
        constructor
        · intro hr
          exact ⟨hr, fun hrq => hunmet (hrq ▸ hr)⟩
        · exact And.left
      · intro r hr
        exact List.mem_of_mem_filter hr
      · intro r hr hrq
        exact List.mem_filter.2 ⟨hr, by simpa using hrq⟩
      · simp [met]
      · simp
    · simp only [hforgiven, and_false, if_false]
      -- Nothing is queued: the place waits, or it was visited and does not fail.
      have hmem := (hsound.covered q hneeds.mem_places).resolve_left hunmet
      exact ⟨hsound, hsound.answered_of_met hmem hforgiven, List.prefix_rfl⟩

theorem Sound.followAll {edges : List (Path × Edge)} (hsound : Sound x (done ++ [p]) f)
    (hedges : ∀ e ∈ edges, e.2 = .imported ∧ x.Needs p e.1) :
    Sound x (done ++ [p]) (f.followAll edges) ∧
      (∀ e ∈ edges, Answered x (done ++ [p]) (f.followAll edges) p e.1) ∧
      f.queue <+: (f.followAll edges).queue := by
  induction edges generalizing f with
  | nil => exact ⟨hsound, fun e he => absurd he List.not_mem_nil, List.prefix_rfl⟩
  | cons e rest ih =>
      rcases e with ⟨q, edge⟩
      rcases hedges (q, edge) List.mem_cons_self with ⟨hedge, hneeds⟩
      subst hedge
      rcases hsound.follow hneeds with ⟨hnext, hanswered, hgrows⟩
      rcases ih hnext fun e he => hedges e (List.mem_cons_of_mem _ he) with ⟨hlast, hall, hmore⟩
      refine ⟨hlast, ?_, hgrows.trans hmore⟩
      intro e he
      rcases List.mem_cons.1 he with rfl | he
      · exact hanswered.mono hmore
      · exact hall e he

end

/-! ## One visit -/

section

variable {p : Path} {edge : Edge} {rest : List (Path × Edge)}

/-- The place whose turn it is leaves the queue. -/
theorem Sound.pop (hsound : Sound x done f) (hqueue : f.queue = (p, edge) :: rest) {g : Frontier}
    (hrest : g.queue = rest) (hunmet : g.unmet = f.unmet)
    (hkept : ∀ r ∈ f.forgiven, r ∈ g.forgiven)
    (hforgiven : ∀ r ∈ g.forgiven, r ∈ f.forgiven ∨ (r = p ∧ x.Fails p))
    (hfailed : x.Fails p → edge = .child ∧ p ∈ g.forgiven) : Sound x (done ++ [p]) g := by
  have hmet : met (done ++ [p]) g = met done f := by simp [met, hqueue, hrest]
  have hold : ∀ {r edge'}, (r, edge') ∈ g.queue → (r, edge') ∈ f.queue := by
    intro r edge' hr
    rw [hqueue, ← hrest]
    exact List.mem_cons_of_mem _ hr
  have hdone : ∀ {r}, r ∈ done → r ∈ done ++ [p] := fun hr => List.mem_append_left _ hr
  constructor
  case order =>
    rw [hmet]
    exact hsound.order
  case once =>
    rw [hmet]
    exact hsound.once
  case unmet =>
    rw [hmet, hunmet]
    exact hsound.unmet
  case covered =>
    rw [hmet, hunmet]
    exact hsound.covered
  case leads =>
    rw [hmet]
    exact hsound.leads
  case forgiven =>
    intro r hr
    rcases hforgiven r hr with h | ⟨rfl, hfails⟩
    · exact ⟨hdone (hsound.forgiven r h).1, (hsound.forgiven r h).2⟩
    · exact ⟨by simp, hfails⟩
  case failed =>
    intro r hr hfails
    -- The place that is visited now is a forgiven child if it fails. The entries of others stay.
    by_cases hrp : r = p
    · subst hrp
      rcases hfailed hfails with ⟨rfl, hmem⟩
      exact ⟨hsound.child r (by rw [hqueue]; exact List.mem_cons_self), Or.inl hmem⟩
    · have hr' : r ∈ done := by simpa [hrp] using hr
      rcases hsound.failed r hr' hfails with ⟨hchild, h | h⟩
      · exact ⟨hchild, Or.inl (hkept r h)⟩
      · rw [hqueue] at h
        have hne : (r, Edge.imported) ≠ (p, edge) := fun heq => hrp (congrArg Prod.fst heq)
        exact ⟨hchild, Or.inr (hrest ▸ (List.mem_cons.1 h).resolve_left hne)⟩
  case entry =>
    exact fun r hr => hsound.entry r (hold hr)
  case child =>
    exact fun r hr => hsound.child r (hold hr)
  case imported =>
    intro r hr
    rcases hsound.imported r (hold hr) with ⟨q, hq, hneeds⟩
    exact ⟨q, hdone hq, hneeds⟩

theorem Sound.pop_of_ok (hsound : Sound x done f) (hqueue : f.queue = (p, edge) :: rest)
    {r : α × List (Path × Edge)} (hvisit : x.visit p = .ok r) :
    Sound x (done ++ [p]) { f with queue := rest } := by
  have hfails := x.not_fails_of_ok hvisit
  exact hsound.pop hqueue rfl rfl (fun _ h => h) (fun _ h => Or.inl h) fun h => absurd h hfails

/-- What was answered stays so, since a place that fails leaves the queue as a child only. -/
theorem Answered.pop {r q : Path} (h : Answered x done f r q) (hqueue : f.queue = (p, edge) :: rest)
    {g : Frontier} (hrest : g.queue = rest) (hfailed : x.Fails p → edge = .child) :
    Answered x (done ++ [p]) g r q := by
  refine ⟨?_, fun hfails => ?_⟩
  · have hmet : met (done ++ [p]) g = met done f := by simp [met, hqueue, hrest]
    rw [hmet]
    exact h.1
  -- The entry of a place that fails can only leave the queue as that of a child.
  · rcases h.2 hfails with hwaits | hprecedes
    · rw [hqueue] at hwaits
      rcases List.mem_cons.1 hwaits with heq | hmem
      · cases heq
        cases hfailed hfails
      · exact Or.inl (hrest ▸ hmem)
    · exact Or.inr hprecedes

end

/-! ## The start -/

theorem followAll_children {children : List Path} (hchildren : ∀ p ∈ children, p ∈ f.unmet)
    (hdistinct : children.Nodup) :
    f.followAll (children.map fun p => (p, .child)) =
      { f with
        unmet := f.unmet.filter (· ∉ children)
        queue := f.queue ++ children.map fun p => (p, .child) } := by
  induction children generalizing f with
  | nil => simp [Frontier.followAll]
  | cons p rest ih =>
      rcases List.nodup_cons.1 hdistinct with ⟨hp, hrest⟩
      have hfollow : f.follow p .child =
          { f with unmet := f.unmet.filter (· ≠ p), queue := f.queue ++ [(p, .child)] } := by
        rw [Frontier.follow, if_pos (hchildren p List.mem_cons_self)]
      -- The children are distinct, so that those that follow are still unmet.
      have hunmet : ∀ q ∈ rest, q ∈ f.unmet.filter (· ≠ p) := by
        intro q hq
        have hne : q ≠ p := fun heq => hp (heq ▸ hq)
        exact List.mem_filter.2 ⟨hchildren q (List.mem_cons_of_mem _ hq), by simpa using hne⟩
      show (f.follow p .child).followAll (rest.map fun p => (p, .child)) = _
      rw [hfollow, ih hunmet hrest]
      simp [List.filter_filter, Bool.and_comm]

theorem frontier_eq (x : Exploration ε α) :
    x.frontier =
      { unmet := (x.places.filter (· ≠ x.first)).filter (· ∉ x.children)
        forgiven := []
        queue := (x.first, .entry) :: x.children.map fun p => (p, .child) } := by
  rcases List.nodup_cons.1 x.distinct with ⟨hfirst, hchildren⟩
  have hunmet : ∀ p ∈ x.children, p ∈ (Frontier.start x.places x.first).unmet := by
    intro p hp
    have hne : p ≠ x.first := fun heq => hfirst (heq ▸ hp)
    exact List.mem_filter.2 ⟨x.children_places p hp, by simpa using hne⟩
  rw [frontier, followAll_children hunmet hchildren]
  rfl

theorem sound_start (x : Exploration ε α) : Sound x [] x.frontier := by
  have hmet : met [] x.frontier = x.order := by
    simp [met, frontier_eq, order, Function.comp_def]
  constructor
  case order =>
    rw [hmet]
  case once =>
    rw [hmet]
    exact List.Nodup.filter _ x.distinct
  case unmet =>
    intro p hp
    rw [hmet]
    simp only [frontier_eq, List.mem_filter, decide_eq_true_eq] at hp
    simp [order, hp.1.2, hp.2]
  case covered =>
    intro p hp
    rw [hmet, frontier_eq]
    by_cases hmem : p ∈ x.order
    · exact Or.inr hmem
    · simp only [order, List.mem_cons, not_or] at hmem
      exact Or.inl (by simp [hp, hmem.1, hmem.2])
  case leads =>
    intro p hp
    rw [hmet] at hp
    rcases List.mem_cons.1 hp with rfl | hp
    · exact .first
    · exact .child hp
  case forgiven =>
    intro p hp
    simp [frontier_eq] at hp
  case failed =>
    intro p hp
    cases hp
  case entry =>
    intro p hp
    simpa [frontier_eq] using hp
  case child =>
    intro p hp
    simpa [frontier_eq] using hp
  case imported =>
    intro p hp
    simp [frontier_eq] at hp

/-! ## Every frontier -/

theorem needs_of_mem {p : Path} {a : α} {edges : List (Path × Edge)}
    (hvisit : x.visit p = .ok (a, edges)) : ∀ e ∈ edges, e.2 = .imported ∧ x.Needs p e.1 := by
  intro e he
  have hedge := (x.imports hvisit e he).1
  exact ⟨hedge, _, _, hvisit, hedge ▸ he⟩

theorem Run.sound (h : x.Run done f) : Sound x done f := by
  induction h with
  | start => exact sound_start x
  | visited _ hqueue hvisit ih =>
      exact ((ih.pop_of_ok hqueue hvisit).followAll (needs_of_mem hvisit)).1
  | @forgiven done f p rest e _ hqueue hvisit ih =>
      refine ih.pop (g := ({ f with queue := rest } : Frontier).forgive p) hqueue rfl rfl
        (fun _ h => List.mem_cons_of_mem _ h) ?_ fun _ => ⟨rfl, List.mem_cons_self⟩
      intro r hr
      rcases List.mem_cons.1 hr with rfl | hr
      · exact Or.inr ⟨rfl, _, hvisit⟩
      · exact Or.inl hr

theorem Run.answered (h : x.Run done f) : ∀ p ∈ done, ∀ q, x.Needs p q → Answered x done f p q := by
  induction h with
  | start => exact fun p hp => absurd hp List.not_mem_nil
  | @visited done f p edge rest a edges hrun hqueue hvisit ih =>
      have hfails := x.not_fails_of_ok hvisit
      rcases (hrun.sound.pop_of_ok hqueue hvisit).followAll (needs_of_mem hvisit) with
        ⟨_, hall, hgrows⟩
      intro r hr q hneeds
      rcases List.mem_append.1 hr with hr | hr
      · exact ((ih r hr q hneeds).pop hqueue rfl fun h => absurd h hfails).mono hgrows
      · rw [List.mem_singleton] at hr
        subst hr
        -- The imports of the place that was visited now were all followed.
        rcases hneeds with ⟨a', edges', hvisit', hmem⟩
        rw [hvisit] at hvisit'
        cases hvisit'
        exact hall _ hmem
  | forgiven _ hqueue hvisit ih =>
      intro r hr q hneeds
      rcases List.mem_append.1 hr with hr | hr
      · exact (ih r hr q hneeds).pop hqueue rfl fun _ => rfl
      · rw [List.mem_singleton] at hr
        subst hr
        -- A place that fails imports nothing.
        rcases hneeds.ok with ⟨r, hok⟩
        rw [hvisit] at hok
        cases hok

/-! ## The end -/

section

variable (hrun : x.Run done f) (hend : f.queue = [])

include hrun hend

theorem Run.mem_done_iff {p : Path} : p ∈ done ↔ x.Leads p := by
  have hsound := hrun.sound
  -- Nothing waits, so that the places that were met are the visited ones.
  have hmet : met done f = done := by simp [met, hend]
  constructor
  · intro hp
    exact hsound.leads p (hmet.symm ▸ hp)
  · intro hleads
    have horder := hmet ▸ hsound.order
    induction hleads with
    | first => exact horder.subset List.mem_cons_self
    | child hchild => exact horder.subset (List.mem_cons_of_mem _ hchild)
    | needed _ hneeds ih =>
        have hmem := (hrun.answered _ ih _ hneeds).1
        exact hmet ▸ hmem

theorem Run.precedes_of_fails {p q : Path} (hleads : x.Leads p) (hneeds : x.Needs p q)
    (hfails : x.Fails q) : x.Precedes p q := by
  have hp := (hrun.mem_done_iff hend).2 hleads
  rcases (hrun.answered p hp q hneeds).2 hfails with hwaits | hprecedes
  · rw [hend] at hwaits
    cases hwaits
  · exact hprecedes

theorem Run.first_succeeds : ¬ x.Fails x.first := by
  intro hfails
  have hdone := (hrun.mem_done_iff hend).2 .first
  -- A visited place that fails is a child, and the first place is none.
  have hchild := (hrun.sound.failed _ hdone hfails).1
  exact (List.nodup_cons.1 x.distinct).1 hchild

end

/-- A place that is not forgiven is the first one, or it is imported by a visited place that it does not
come after. -/
theorem Run.aborts_of_error {p : Path} {edge : Edge} {rest : List (Path × Edge)} {e : ε}
    (hrun : x.Run done f) (hqueue : f.queue = (p, edge) :: rest) (hedge : edge ≠ .child)
    (hvisit : x.visit p = .error e) : x.Aborts := by
  have hsound := hrun.sound
  have hmem : (p, edge) ∈ f.queue := by
    rw [hqueue]
    exact List.mem_cons_self
  cases edge with
  | entry =>
      have hfirst : p = x.first := hsound.entry p hmem
      exact Or.inl ⟨e, hfirst ▸ hvisit⟩
  | child => exact absurd rfl hedge
  | imported =>
      rcases hsound.imported p hmem with ⟨r, hr, hneeds, hlate⟩
      exact Or.inr ⟨r, p, hsound.leads r (List.mem_append_left _ hr), hneeds, ⟨e, hvisit⟩, hlate⟩

theorem explore_error_iff (x : Exploration ε α) :
    (∃ e, x.frontier.explore x.visit = .error e) ↔ x.Aborts := by
  have houtcome := (Run.start (x := x)).outcome
  -- The outcome is one of a run, and the two ways to end match the two sides.
  generalize x.frontier.explore x.visit = result at houtcome
  cases houtcome with
  | finished hrun hend =>
      constructor
      · rintro ⟨e, h⟩
        cases h
      · rintro (hfirst | ⟨p, q, hleads, hneeds, hfails, hlate⟩)
        · exact absurd hfirst (hrun.first_succeeds hend)
        · exact absurd (hrun.precedes_of_fails hend hleads hneeds hfails) hlate
  | failed hrun hqueue hedge hvisit =>
      exact iff_of_true ⟨_, rfl⟩ (hrun.aborts_of_error hqueue hedge hvisit)

/-- An exploration that does not fail gives the results of all places that do not fail, each once. -/
theorem explore_ok {as : List α} (h : x.frontier.explore x.visit = .ok as) :
    ∃ done, as = x.results done ∧ (done.filter x.succeeds).Nodup ∧
      ∀ p, p ∈ done ↔ x.Leads p := by
  have houtcome := (Run.start (x := x)).outcome
  rw [h] at houtcome
  cases houtcome with
  | finished hrun hend =>
      rename_i more f
      have honce := hrun.sound.once
      have hmet : met ([] ++ more) f = more := by simp [met, hend]
      rw [hmet] at honce
      exact ⟨more, rfl, honce, fun p => hrun.mem_done_iff hend⟩

end Exploration

end Discovery
end WireTypes
