import WireTypes.Proofs.Selection

/-!
# Collisions — when a selection fails, and what it tells then

Kept models are those that no exclusion names. Where equal identities are equal models, a selection gives all
of them, each once and in order of their names, unless a name stands for several.

- `Kept`, `Collides`: what a selection is about, apart from how it is made;
- `several_iff_collides`: a group has several models exactly if its name collides;
- `least_of_select`, `locations_exact`: a failed selection tells the least name that collides, and the
  identities that have it;
- `select_ok_iff`: without a collision there is no failure;
- `select_exact`: all of this for a selection.
-/

namespace WireTypes

open Selection

variable {models retained : List Model} {excluded names : List String} {collision : NameCollision}

namespace Selection

/-- A model whose name and whose qualified name are not excluded. -/
def Kept (models : List Model) (excluded : List String) (m : Model) : Prop :=
  m ∈ models ∧ m.name ∉ excluded ∧ m.qualname ∉ excluded

/-- Two kept definitions have the name. -/
def Collides (models : List Model) (excluded : List String) (name : String) : Prop :=
  ∃ a b, Kept models excluded a ∧ Kept models excluded b ∧ a.name = name ∧ b.name = name ∧ a.id ≠ b.id

/-- What is put into groups. -/
def remaining (models : List Model) (excluded : List String) : List Model :=
  distinct (models.filter (!isExcluded excluded ·))

theorem select_eq (models : List Model) (excluded : List String) :
    select models excluded =
      ((sortedNames (remaining models excluded)).mapM (single (remaining models excluded))).map
        List.flatten := rfl

/-! ## Groups -/

section

variable (h : Identified models)

include h

theorem mem_remaining_iff {m : Model} : m ∈ remaining models excluded ↔ Kept models excluded m := by
  have hfiltered : Identified (models.filter (!isExcluded excluded ·)) := fun a ha b hb =>
    h a (List.mem_filter.1 ha).1 b (List.mem_filter.1 hb).1
  rw [remaining, mem_distinct_iff hfiltered, List.mem_filter]
  simp [isExcluded, Kept]

theorem mem_named_iff {name : String} {m : Model} :
    m ∈ named name (remaining models excluded) ↔ Kept models excluded m ∧ m.name = name := by
  rw [named, List.mem_filter, mem_remaining_iff h, beq_iff_eq]

/-- Several models of one name are several definitions. -/
theorem several_iff_collides (name : String) :
    1 < (named name (remaining models excluded)).length ↔ Collides models excluded name := by
  have hnodup : (named name (remaining models excluded)).Nodup := (nodup_distinct _).filter _
  rw [one_lt_length_iff hnodup]
  constructor
  · rintro ⟨a, ha, b, hb, hne⟩
    obtain ⟨hkept, hname⟩ := (mem_named_iff h).1 ha
    obtain ⟨hkept', hname'⟩ := (mem_named_iff h).1 hb
    exact ⟨a, b, hkept, hkept', hname, hname', fun hid => hne (h a hkept.1 b hkept'.1 hid)⟩
  · rintro ⟨a, b, ha, hb, hname, hname', hne⟩
    exact ⟨a, (mem_named_iff h).2 ⟨ha, hname⟩, b, (mem_named_iff h).2 ⟨hb, hname'⟩,
      fun heq => hne (heq ▸ rfl)⟩

/-- Every name of a kept model has a group. -/
theorem mem_sortedNames_iff {name : String} :
    name ∈ sortedNames (remaining models excluded) ↔ ∃ m, Kept models excluded m ∧ m.name = name := by
  rw [sortedNames, List.mem_mergeSort, List.mem_eraseDups, List.mem_map]
  simp only [mem_remaining_iff h]

theorem mem_sortedNames_of_collides {name : String} (hname : Collides models excluded name) :
    name ∈ sortedNames (remaining models excluded) := by
  rcases hname with ⟨a, _, ha, _, hnamed, _⟩
  exact (mem_sortedNames_iff h).2 ⟨a, ha, hnamed⟩

end

theorem single_eq_ok_iff {name : String} :
    (∃ group, single models name = .ok group) ↔ ¬ 1 < (named name models).length := by
  unfold single
  by_cases hseveral : 1 < (named name models).length
  · simp [hseveral]
  · simp [hseveral]

/-- If no name fails, there is no failure. -/
theorem mapM_ok : ∀ {names : List String}, (∀ name ∈ names, ∃ group, single models name = .ok group) →
    ∃ groups, names.mapM (single models) = .ok groups
  | [], _ => ⟨[], rfl⟩
  | name :: rest, h => by
      rcases List.forall_mem_cons.1 h with ⟨⟨group, hfirst⟩, hrest⟩
      rcases mapM_ok hrest with ⟨groups, hgroups⟩
      refine ⟨group :: groups, ?_⟩
      rw [List.mapM_cons, hfirst, hgroups]
      rfl

end Selection

/-! ## Selections -/

section

variable (h : Identified models)

include h

/-- A failed selection tells the least name that collides. -/
theorem least_of_select (hselect : select models excluded = .error collision) :
    Collides models excluded collision.name ∧
      ∀ name, Collides models excluded name → collision.name ≤ name := by
  have hgroups : (sortedNames (remaining models excluded)).mapM (single (remaining models excluded)) =
      .error collision := by
    rw [select_eq] at hselect
    cases hrun : (sortedNames (remaining models excluded)).mapM
        (single (remaining models excluded)) with
    | error e => simpa [hrun, Except.map] using hselect
    | ok groups => simp [hrun, Except.map] at hselect
  rcases first_of_mapM_error hgroups with ⟨front, name, back, hnames, hfailed, hfront⟩
  rcases single_error hfailed with ⟨hseveral, rfl⟩
  refine ⟨(several_iff_collides h name).1 hseveral, fun other hother => ?_⟩
  -- The names in front do not collide, and those behind are greater.
  have hmem := mem_sortedNames_of_collides h hother
  have hsorted := sortedNames_pairwise (remaining models excluded)
  rw [hnames] at hmem hsorted
  rcases List.mem_append.1 hmem with hmem | hmem
  · exact absurd ((several_iff_collides h other).2 hother) (single_eq_ok_iff.1 (hfront other hmem))
  · rcases List.mem_cons.1 hmem with rfl | hmem
    · exact le_rfl
    · have hback := (List.pairwise_cons.1 (List.pairwise_append.1 hsorted).2.1).1
      exact (hback other hmem).le

/-- A failed selection tells all identities that have the name, in order and each once. -/
theorem locations_exact (hselect : select models excluded = .error collision) :
    collision.locations.Pairwise (fun a b => a.precedes b = true) ∧ collision.locations.Nodup ∧
      ∀ id, id ∈ collision.locations ↔
        ∃ m, Kept models excluded m ∧ m.name = collision.name ∧ m.id = id := by
  rw [(select_error hselect).2]
  refine ⟨List.pairwise_mergeSort DefinitionId.precedes_trans DefinitionId.precedes_total _, ?_, ?_⟩
  · -- Models of the group that have the same identity are the same model.
    have hnodup : (named collision.name (remaining models excluded)).Nodup :=
      (nodup_distinct _).filter _
    refine (List.mergeSort_perm _ _).nodup_iff.2 (hnodup.map_on ?_)
    intro a ha b hb hid
    exact h a ((mem_named_iff h).1 ha).1.1 b ((mem_named_iff h).1 hb).1.1 hid
  · intro id
    rw [List.mem_mergeSort, List.mem_map]
    exact exists_congr fun m => (and_congr_left' (mem_named_iff h)).trans and_assoc

/-- Without a collision a selection does not fail. -/
theorem select_ok_iff :
    (∃ retained, select models excluded = .ok retained) ↔ ∀ name, ¬ Collides models excluded name := by
  constructor
  · rintro ⟨retained, hselect⟩ name ⟨a, b, ha, hb, hname, hname', hne⟩
    -- Both models would be retained, and names are retained once.
    have hmem := (mem_select_iff h hselect a).2 ⟨ha.1, by simpa [isExcluded] using ha.2⟩
    have hmem' := (mem_select_iff h hselect b).2 ⟨hb.1, by simpa [isExcluded] using hb.2⟩
    have hnames : (retained.map (·.name)).Nodup := (select_names hselect).imp ne_of_lt
    exact hne (congrArg Model.id (List.inj_on_of_nodup_map hnames hmem hmem' (hname.trans hname'.symm)))
  · intro hnone
    have hsingle : ∀ name ∈ sortedNames (remaining models excluded),
        ∃ group, single (remaining models excluded) name = .ok group := fun name _ =>
      single_eq_ok_iff.2 fun hseveral => hnone name ((several_iff_collides h name).1 hseveral)
    rcases mapM_ok hsingle with ⟨groups, hgroups⟩
    exact ⟨groups.flatten, by rw [select_eq, hgroups]; rfl⟩

/-- Where equal identities are equal models: a selection gives exactly the kept models, one for each
identity and in strict order of names, if no name is that of several. Otherwise it tells the least such name,
and the identities that have it in strict order. -/
theorem select_exact (excluded : List String) :
    ((∃ retained, select models excluded = .ok retained) ↔
        ∀ name, ¬ Collides models excluded name) ∧
      (∀ retained, select models excluded = .ok retained →
        (retained.map (·.name)).Pairwise (· < ·) ∧ (retained.map (·.id)).Nodup ∧
          ∀ m, m ∈ retained ↔ Kept models excluded m) ∧
      ∀ collision, select models excluded = .error collision →
        (Collides models excluded collision.name ∧
          ∀ name, Collides models excluded name → collision.name ≤ name) ∧
        collision.locations.Pairwise (fun a b => a.precedes b = true) ∧ collision.locations.Nodup ∧
          ∀ id, id ∈ collision.locations ↔
            ∃ m, Kept models excluded m ∧ m.name = collision.name ∧ m.id = id := by
  refine ⟨select_ok_iff h, fun retained hselect => ?_, fun collision hselect =>
    ⟨least_of_select h hselect, locations_exact h hselect⟩⟩
  have hkept : ∀ m, m ∈ retained ↔ Kept models excluded m := by
    intro m
    rw [mem_select_iff h hselect]
    simp [isExcluded, Kept]
  have hnames := select_names hselect
  -- Names are retained once, and a model has one name.
  have hnodup : retained.Nodup := List.Nodup.of_map _ (hnames.imp ne_of_lt)
  refine ⟨hnames, hnodup.map_on fun a ha b hb hid => ?_, hkept⟩
  exact h a ((hkept a).1 ha).1 b ((hkept b).1 hb).1 hid

end

namespace Sample

def modelIn (module name : String) : Model where
  id := ⟨"/" ++ module ++ ".py", name⟩
  name
  qualname := module ++ "." ++ name
  docs := none
  fields := []
  extra := none

/-- A model that is listed twice, another one of the same name, and one of another name. -/
def users : List Model := [modelIn "a" "User", modelIn "b" "User", modelIn "a" "Team", modelIn "a" "User"]

theorem identified_users : Identified users := by
  -- The repetition adds no model, and the identities of the others differ.
  have hmem : ∀ m ∈ users, m ∈ [modelIn "a" "User", modelIn "b" "User", modelIn "a" "Team"] := by
    simp [users]
  intro a ha b hb
  exact identified_of_nodup (by decide) a (hmem a ha) b (hmem b hb)

end Sample

/-- The two models of one name collide, and do not if one of them is excluded. -/
theorem users_collide :
    Identified Sample.users ∧ (∀ retained, select Sample.users [] ≠ .ok retained) ∧
      ∃ retained, select Sample.users ["b.User"] = .ok retained := by
  refine ⟨Sample.identified_users, fun retained hselect => ?_, ?_⟩
  · refine (select_exact Sample.identified_users []).1.1 ⟨retained, hselect⟩ "User" ?_
    refine ⟨Sample.modelIn "a" "User", Sample.modelIn "b" "User", ?_, ?_, rfl, rfl, by decide⟩
    · exact ⟨List.mem_cons_self, List.not_mem_nil, List.not_mem_nil⟩
    · exact ⟨List.mem_cons_of_mem _ List.mem_cons_self, List.not_mem_nil, List.not_mem_nil⟩
  · refine (select_exact Sample.identified_users ["b.User"]).1.2 ?_
    have hkept : ∀ m, Kept Sample.users ["b.User"] m →
        m = Sample.modelIn "a" "User" ∨ m = Sample.modelIn "a" "Team" := by
      rintro m ⟨hm, _, hincluded⟩
      simp only [Sample.users, List.mem_cons, List.not_mem_nil, or_false] at hm
      rcases hm with rfl | rfl | rfl | rfl
      · exact Or.inl rfl
      · exact absurd hincluded (by decide)
      · exact Or.inr rfl
      · exact Or.inl rfl
    rintro name ⟨a, b, ha, hb, hname, hname', hne⟩
    rcases hkept a ha with rfl | rfl <;> rcases hkept b hb with rfl | rfl
    · exact hne rfl
    · exact absurd (hname.trans hname'.symm) (by decide)
    · exact absurd (hname.trans hname'.symm) (by decide)
    · exact hne rfl

end WireTypes
