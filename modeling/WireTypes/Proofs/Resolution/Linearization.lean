import Mathlib

/-!
# Linearization — orders of the classes above a class

For the classes above a class there are two orders in question:

- `Linearizes bases x order`: the method resolution order, in which the orders of the bases and the list
  of the bases are merged, and a class comes after all classes below it;
- `DepthFirst bases x order`: the order of a walk that goes up from the first base before it comes to
  the second one, and so meets a class once for each way up to it.

`linearizes_of_nodup`: the two agree where no class is met twice.
-/

namespace WireTypes
namespace Resolution

variable {α : Type} [DecidableEq α]

/-! ## The method resolution order -/

/-- The first head that is in no tail. -/
def nextHead? (lists : List (List α)) : Option α :=
  (lists.filterMap List.head?).find? fun x => lists.all fun l => decide (x ∉ l.tail)

def advance (x : α) (l : List α) : List α := if l.head? = some x then l.tail else l

inductive Merges : List (List α) → List α → Prop
  | done {lists : List (List α)} : (∀ l ∈ lists, l = []) → Merges lists []
  | step {lists : List (List α)} {x : α} {rest : List α} :
      nextHead? lists = some x → Merges (lists.map (advance x)) rest → Merges lists (x :: rest)

inductive Linearizes (bases : α → List α) : α → List α → Prop
  | merge {x : α} {order : List α} (orders : α → List α) :
      (∀ b ∈ bases x, Linearizes bases b (orders b)) →
      Merges ((bases x).map orders ++ [bases x]) order → Linearizes bases x (x :: order)

/-! ## Depth first -/

inductive DepthFirst (bases : α → List α) : α → List α → Prop
  | walk {x : α} (orders : α → List α) :
      (∀ b ∈ bases x, DepthFirst bases b (orders b)) →
      DepthFirst bases x (x :: (bases x).flatMap orders)

/-! ## Acyclic bases -/

section

variable {bases : α → List α} {x : α} {order : List α}

/-- A class with a method resolution order is not above itself, nor is any class above it. -/
theorem Linearizes.acc (h : Linearizes bases x order) : Acc (fun b y => b ∈ bases y) x := by
  induction h with
  | merge _ _ _ ih => exact .intro _ ih

omit [DecidableEq α]

theorem not_transGen_self {r : α → α → Prop} (h : Acc r x) : ¬ Relation.TransGen r x x := by
  intro hself
  have hacc : Acc (Relation.TransGen r) x := Acc.transGen h
  induction hacc with
  | intro y _ ih => exact ih y hself (h.inv_of_transGen hself) hself

theorem DepthFirst.of_bases {bs : List α} (hbases : bases x = bs) (orders : α → List α)
    (horders : ∀ b ∈ bs, DepthFirst bases b (orders b)) (horder : bs.flatMap orders = order) :
    DepthFirst bases x (x :: order) := by
  subst hbases horder
  exact .walk orders horders

theorem DepthFirst.acc (h : DepthFirst bases x order) : Acc (fun b y => b ∈ bases y) x := by
  induction h with
  | walk _ _ ih => exact .intro _ ih

/-- There is a walk up from every class that has no class above itself on the way. -/
theorem DepthFirst.exists_of_acc (h : Acc (fun b y => b ∈ bases y) x) :
    ∃ order, DepthFirst bases x order := by
  induction h with
  | intro y _ ih =>
      have hall : ∀ b, ∃ order, b ∈ bases y → DepthFirst bases b order := by
        intro b
        by_cases hb : b ∈ bases y
        · rcases ih b hb with ⟨order, horder⟩
          exact ⟨order, fun _ => horder⟩
        · exact ⟨[], fun h => absurd h hb⟩
      -- The walks up from the bases, put together.
      choose orders horders using hall
      exact ⟨_, .walk orders fun b hb => horders b hb⟩

theorem DepthFirst.unique {order' : List α} (h : DepthFirst bases x order)
    (h' : DepthFirst bases x order') : order = order' := by
  induction h generalizing order' with
  | @walk x orders _ ih =>
      cases h' with
      | walk orders' horders' =>
          have hsame : ∀ b ∈ bases x, orders b = orders' b := fun b hb => ih b hb (horders' b hb)
          rw [List.flatMap_congr hsame]

theorem DepthFirst.head? (h : DepthFirst bases x order) : order.head? = some x := by
  cases h with
  | walk _ _ => rfl

end

/-! ## Members of orders -/

section

variable {x : α} {bases upBases : α → List α} {order mro : List α} {lists : List (List α)}

theorem mem_advance {l : List α} {y : α} (h : y ∈ l) (hne : y ≠ x) : y ∈ advance x l := by
  unfold advance
  by_cases hhead : l.head? = some x
  · rw [if_pos hhead]
    cases l with
    | nil => cases h
    | cons z tail =>
        have hz : z = x := Option.some.inj hhead
        rcases List.mem_cons.1 h with rfl | htail
        · exact absurd hz hne
        · exact htail
  · rw [if_neg hhead]
    exact h

/-- Nothing gets lost in a merge. -/
theorem Merges.mem (h : Merges lists order) {l : List α} (hl : l ∈ lists) {y : α} (hy : y ∈ l) :
    y ∈ order := by
  induction h generalizing l with
  | done hempty =>
      rw [hempty l hl] at hy
      cases hy
  | @step lists x rest _ _ ih =>
      by_cases hne : y = x
      · rw [hne]
        exact List.mem_cons_self
      · exact List.mem_cons_of_mem _ (ih (List.mem_map_of_mem hl) (mem_advance hy hne))

/-- A walk up meets only classes of the method resolution order, also if it leaves out bases. -/
theorem Linearizes.mem_of_depthFirst (h : Linearizes bases x mro)
    (hbases : ∀ y, ∀ b ∈ upBases y, b ∈ bases y) (hwalk : DepthFirst upBases x order) :
    ∀ y ∈ order, y ∈ mro := by
  induction h generalizing order with
  | @merge x mro orders _ hmerges ih =>
      cases hwalk with
      | walk ups hups =>
          intro y hy
          rcases List.mem_cons.1 hy with rfl | hy
          · exact List.mem_cons_self
          -- A class above a base is in the order of that base, and this order is merged.
          · rcases List.mem_flatMap.1 hy with ⟨b, hb, hmem⟩
            have hbase := hbases x b hb
            have hup : y ∈ orders b := ih b hbase (hups b hb) y hmem
            have hlist : orders b ∈ (bases x).map orders ++ [bases x] :=
              List.mem_append_left _ (List.mem_map_of_mem hbase)
            exact List.mem_cons_of_mem _ (hmerges.mem hlist hup)

end

/-! ## Where no class is met twice -/

section

variable {x : α} {l : List α} {front others : List (List α)}

theorem nextHead?_eq (hfront : ∀ m ∈ front, m = [])
    (hx : ∀ m ∈ (x :: l) :: others, x ∉ m.tail) :
    nextHead? (front ++ (x :: l) :: others) = some x := by
  -- The lists that are used up have no heads.
  have hheads : (front ++ (x :: l) :: others).filterMap List.head? =
      x :: others.filterMap List.head? := by
    have hnone : front.filterMap List.head? = [] := by
      rw [List.filterMap_eq_nil_iff]
      intro m hm
      rw [hfront m hm]
      rfl
    calc
      (front ++ (x :: l) :: others).filterMap List.head?
          = front.filterMap List.head? ++ ((x :: l) :: others).filterMap List.head? :=
            List.filterMap_append
      _ = ((x :: l) :: others).filterMap List.head? := by rw [hnone, List.nil_append]
      _ = x :: others.filterMap List.head? := rfl
  have hall : (front ++ (x :: l) :: others).all (fun m => decide (x ∉ m.tail)) = true := by
    rw [List.all_eq_true]
    intro m hm
    rcases List.mem_append.1 hm with hm | hm
    · rw [hfront m hm]
      simp
    · simpa using hx m hm
  unfold nextHead?
  rw [hheads]
  exact List.find?_cons_of_pos hall

theorem map_advance_of_not_mem (h : ∀ m ∈ others, x ∉ m) : others.map (advance x) = others := by
  have hsame : ∀ m ∈ others, advance x m = m := by
    intro m hm
    have hhead : m.head? ≠ some x := fun heq => h m hm (List.mem_of_head? heq)
    rw [advance, if_neg hhead]
  rw [List.map_congr_left hsame, List.map_id']

/-- A head that is in no tail goes first. -/
theorem Merges.of_head {order : List α} (hfront : ∀ m ∈ front, m = [])
    (hx : ∀ m ∈ (x :: l) :: others, x ∉ m.tail)
    (hrest : Merges (front ++ l :: others.map (advance x)) order) :
    Merges (front ++ (x :: l) :: others) (x :: order) := by
  have hempty : front.map (advance x) = front := by
    refine map_advance_of_not_mem fun m hm => ?_
    rw [hfront m hm]
    exact List.not_mem_nil
  have hadvance : (front ++ (x :: l) :: others).map (advance x) =
      front ++ l :: others.map (advance x) := by
    rw [List.map_append, List.map_cons, hempty]
    simp [advance]
  refine .step (nextHead?_eq hfront hx) ?_
  rw [hadvance]
  exact hrest

/-- A list without common members with the others is merged before they are. -/
theorem Merges.prepend {order : List α} (hfront : ∀ m ∈ front, m = []) (hnodup : l.Nodup)
    (hothers : ∀ y ∈ l, ∀ m ∈ others, y ∉ m) (hrest : Merges (front ++ [] :: others) order) :
    Merges (front ++ l :: others) (l ++ order) := by
  -- The members of the list are taken off one by one, and the others do not get shorter.
  induction l with
  | nil => exact hrest
  | cons y l ih =>
      rcases List.nodup_cons.1 hnodup with ⟨hy, hl⟩
      have hnew := hothers y List.mem_cons_self
      refine .of_head hfront ?_ ?_
      · intro m hm
        rcases List.mem_cons.1 hm with rfl | hm
        · exact hy
        · exact fun hmem => hnew m hm (List.mem_of_mem_tail hmem)
      · rw [map_advance_of_not_mem hnew]
        exact ih hl fun z hz => hothers z (List.mem_cons_of_mem _ hz)

section

variable {orders : α → List α} {b y : α} {tail rest : List α}

omit [DecidableEq α] in
/-- What the order of a base has in common with other orders is met twice. -/
theorem orders_apart_of_nodup (h : ((b :: rest).flatMap orders).Nodup) :
    (orders b).Nodup ∧ (rest.flatMap orders).Nodup ∧ ∀ z ∈ orders b, ∀ r ∈ rest, z ∉ orders r := by
  rw [List.flatMap_cons, List.nodup_append] at h
  rcases h with ⟨hown, hrest, hapart⟩
  refine ⟨hown, hrest, ?_⟩
  intro z hz r hr hmem
  exact hapart z hz z (List.mem_flatMap.2 ⟨r, hr, hmem⟩) rfl

/-- The first base goes first, since it is in no other order and is no other base. -/
theorem Merges.of_first_base {order : List α} (hfront : ∀ m ∈ front, m = []) (hy : y ∉ tail)
    (horders : ∀ r ∈ rest, y ∉ orders r) (hbases : y ∉ rest)
    (hmerges : Merges (front ++ tail :: (rest.map orders ++ [rest])) order) :
    Merges (front ++ (y :: tail) :: (rest.map orders ++ [y :: rest])) (y :: order) := by
  -- The base is a head in its own order and in the list of the bases, and nowhere else.
  have hothers : ∀ m ∈ rest.map orders, y ∉ m := by
    intro m hm
    rcases List.mem_map.1 hm with ⟨r, hr, rfl⟩
    exact horders r hr
  refine .of_head hfront ?_ ?_
  · intro m hm
    rcases List.mem_cons.1 hm with rfl | hm
    · exact hy
    · rcases List.mem_append.1 hm with hm | hm
      · exact fun hmem => hothers m hm (List.mem_of_mem_tail hmem)
      · rw [List.mem_singleton.1 hm]
        exact hbases
  · rw [List.map_append, map_advance_of_not_mem hothers]
    simpa [advance] using hmerges

/-- Orders without common members are merged one after the other. -/
theorem merges_flatMap :
    ∀ (bs : List α) (front : List (List α)), (∀ m ∈ front, m = []) →
      (∀ b ∈ bs, (orders b).head? = some b) → (bs.flatMap orders).Nodup →
      Merges (front ++ (bs.map orders ++ [bs])) (bs.flatMap orders) := by
  intro bs
  induction bs with
  | nil =>
      intro front hfront _ _
      refine .done ?_
      intro m hm
      rcases List.mem_append.1 hm with hm | hm
      · exact hfront m hm
      · simpa using hm
  | cons b rest ih =>
      intro front hfront hheads hnodup
      rcases orders_apart_of_nodup hnodup with ⟨hown, hrest, hapart⟩
      have hb := hheads b List.mem_cons_self
      have hrestHeads : ∀ r ∈ rest, (orders r).head? = some r :=
        fun r hr => hheads r (List.mem_cons_of_mem _ hr)
      -- The order of a base starts with it, so that a base in the order of `b` would be met twice.
      have hbases : ∀ z ∈ orders b, z ∉ rest :=
        fun z hz hmem => hapart z hz z hmem (List.mem_of_head? (hrestHeads z hmem))
      -- The order of `b` is used up by the merge, and stays behind as an empty list.
      have hmerged := ih (front ++ [[]]) (by simpa [or_imp, forall_and] using hfront) hrestHeads hrest
      rw [List.append_assoc, List.singleton_append] at hmerged
      rw [List.flatMap_cons, List.map_cons]
      cases horder : orders b with
      | nil =>
          rw [horder] at hb
          cases hb
      | cons y tail =>
          rw [horder] at hb hown hapart hbases
          have hy : y = b := Option.some.inj hb
          subst hy
          rcases List.nodup_cons.1 hown with ⟨hyTail, htail⟩
          refine .of_first_base hfront hyTail (hapart y List.mem_cons_self)
            (hbases y List.mem_cons_self) ?_
          refine Merges.prepend hfront htail ?_ hmerged
          intro z hz m hm
          have hz' := List.mem_cons_of_mem y hz
          rcases List.mem_append.1 hm with hm | hm
          · rcases List.mem_map.1 hm with ⟨r, hr, rfl⟩
            exact hapart z hz' r hr
          · rw [List.mem_singleton.1 hm]
            exact hbases z hz'

end

/-- Where no class is met twice, the walk up is the method resolution order. -/
theorem linearizes_of_nodup {bases : α → List α} {order : List α} (h : DepthFirst bases x order)
    (hnodup : order.Nodup) : Linearizes bases x order := by
  induction h with
  | @walk x orders horders ih =>
      rcases List.nodup_cons.1 hnodup with ⟨_, htail⟩
      refine .merge orders (fun b hb => ih b hb ?_) ?_
      · rw [List.flatMap_def] at htail
        exact htail.sublist (List.sublist_flatten_of_mem (List.mem_map_of_mem hb))
      · exact merges_flatMap (bases x) [] (fun m hm => absurd hm List.not_mem_nil)
          (fun b hb => (horders b hb).head?) htail

end

end Resolution
end WireTypes
