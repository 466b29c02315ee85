import Mathlib.Data.List.Nodup
import WireTypes.Proofs.Definition.Order
import WireTypes.Selection

/-!
# Selection — which models are retained, and in what order

Retained models come in groups, one for each name, and a group has one model.

- `select_groups`: what a selection consists of;
- `select_names`: the names of retained models are in strict order, so that no name is retained twice;
- `mem_of_select`, `not_excluded_of_select`: retained models are among those that were selected from,
  and none of them is excluded;
- `select_eq_of_same`: if equal identities are equal models, neither the order of the models nor how often
  each of them is repeated makes a difference;
- `locations_of_select`: a failed selection tells the models of one name that are not excluded;
- `select_without_others`: once all of them but one are excluded, this one is retained.
-/

namespace WireTypes

open Selection

variable {models retained group : List Model} {names : List String}

namespace Selection

theorem sortedNames_pairwise (models : List Model) : (sortedNames models).Pairwise (· < ·) := by
  have hdistinct : (((models.map (·.name)).eraseDups).map fun name => name).Nodup := by
    simpa using nodup_eraseDups (models.map (·.name))
  have hsorted := pairwise_lt_mergeSort (fun name : String => name) hdistinct
  simpa [sortedNames] using hsorted

/-- What is left after repetitions are dropped was there before. -/
theorem mem_of_mem_distinct {m : Model} (h : m ∈ distinct models) : m ∈ models := by
  refine List.foldlRecOn (motive := fun acc => ∀ x ∈ acc, x ∈ models) models _
    (fun x hx => absurd hx List.not_mem_nil) (fun acc hacc first hfirst => ?_) m h
  split
  · exact hacc
  · intro x hx
    rcases List.mem_append.1 hx with hx | hx
    · exact hacc x hx
    · exact List.mem_singleton.1 hx ▸ hfirst

/-- Models that are left are different ones, since a model repeats itself. -/
theorem nodup_distinct (models : List Model) : (distinct models).Nodup := by
  refine List.foldlRecOn models _ List.nodup_nil fun acc hacc m _ => ?_
  split
  · exact hacc
  · next hnew =>
      have hfresh : m ∉ acc := fun hm => hnew (List.any_eq_true.2 ⟨m, hm, by simp [repeats]⟩)
      refine List.nodup_append.2 ⟨hacc, List.pairwise_singleton _ _, ?_⟩
      rintro a ha b hb rfl
      exact hfresh (List.mem_singleton.1 hb ▸ ha)

/-- Equal identities are equal models. -/
def Identified (models : List Model) : Prop := ∀ a ∈ models, ∀ b ∈ models, a.id = b.id → a = b

/-- A model is dropped only if it is there already. -/
theorem mem_distinct_iff (h : Identified models) (m : Model) : m ∈ distinct models ↔ m ∈ models := by
  have hfold : ∀ (rest acc : List Model), (∀ x ∈ acc, x ∈ models) → (∀ x ∈ rest, x ∈ models) →
      m ∈ acc ∨ m ∈ rest →
        m ∈ rest.foldl (fun acc m => if acc.any (repeats · m) then acc else acc ++ [m]) acc := by
    intro rest
    induction rest with
    | nil => exact fun _ _ _ hm => hm.resolve_right List.not_mem_nil
    | cons first rest ih =>
        intro acc hacc hrest hm
        have hfirst := hrest first List.mem_cons_self
        have hothers := fun x hx => hrest x (List.mem_cons_of_mem first hx)
        by_cases hrepeated : acc.any (repeats · first) = true
        · -- What repeats a model is that model.
          rcases List.any_eq_true.1 hrepeated with ⟨a, ha, hsame⟩
          have hid : a.name = first.name ∧ a.id = first.id := by simpa [repeats] using hsame
          have heq : a = first := h a (hacc a ha) first hfirst hid.2
          simp only [List.foldl_cons, hrepeated, if_true]
          refine ih acc hacc hothers ?_
          rcases hm with hm | hm
          · exact Or.inl hm
          · rcases List.mem_cons.1 hm with rfl | hm
            · exact Or.inl (heq ▸ ha)
            · exact Or.inr hm
        · simp only [List.foldl_cons, hrepeated]
          refine ih (acc ++ [first]) ?_ hothers ?_
          · intro x hx
            rcases List.mem_append.1 hx with hx | hx
            · exact hacc x hx
            · exact List.mem_singleton.1 hx ▸ hfirst
          · rcases hm with hm | hm
            · exact Or.inl (List.mem_append_left _ hm)
            · rcases List.mem_cons.1 hm with rfl | hm
              · exact Or.inl (List.mem_append_right _ List.mem_cons_self)
              · exact Or.inr hm
  constructor
  · exact mem_of_mem_distinct
  · intro hm
    exact hfold models [] (fun _ hx => absurd hx List.not_mem_nil) (fun _ hx => hx) (Or.inr hm)

/-- Where all identities differ, no model is dropped. -/
theorem distinct_of_nodup (h : (models.map (·.id)).Nodup) : distinct models = models := by
  have hfold : ∀ (rest acc : List Model), ((acc ++ rest).map (·.id)).Nodup →
      rest.foldl (fun acc m => if acc.any (repeats · m) then acc else acc ++ [m]) acc = acc ++ rest := by
    intro rest
    induction rest with
    | nil => exact fun acc _ => (List.append_nil acc).symm
    | cons first rest ih =>
        intro acc hids
        have hfresh : acc.any (repeats · first) = false := by
          refine List.any_eq_false.2 fun a ha hrepeats => ?_
          have hsame : a.name = first.name ∧ a.id = first.id := by simpa [repeats] using hrepeats
          rw [List.map_append, List.map_cons] at hids
          exact (List.nodup_append.1 hids).2.2 a.id (List.mem_map_of_mem ha) first.id
            List.mem_cons_self hsame.2
        have hrest := ih (acc ++ [first]) (by simpa using hids)
        rw [List.foldl_cons, hfresh, if_neg Bool.false_ne_true, hrest, List.append_assoc,
          List.singleton_append]
  simpa [distinct] using hfold models [] (by simpa using h)

/-! ## Groups -/

theorem single_ok {name : String} (h : single models name = .ok group) :
    group = named name models ∧ group.length ≤ 1 := by
  unfold single at h
  by_cases hseveral : 1 < (named name models).length
  · simp [hseveral] at h
  · have hgroup : group = named name models := by simpa [hseveral] using h.symm
    rw [hgroup]
    exact ⟨rfl, by omega⟩

theorem mem_of_single {name : String} (h : single models name = .ok group) :
    ∀ m ∈ group, m ∈ models ∧ m.name = name := by
  intro m hm
  rw [(single_ok h).1] at hm
  rcases List.mem_filter.1 hm with ⟨hmem, hname⟩
  exact ⟨hmem, by simpa using hname⟩

/-- Of each name there is one model at most. -/
theorem names_of_single {name : String} (h : single models name = .ok group) :
    (group.map (·.name)).Sublist [name] := by
  have hlength := (single_ok h).2
  have hnames := mem_of_single h
  match group, hnames, hlength with
  | [], _, _ => simp
  | [m], hnames, _ => simp [(hnames m List.mem_cons_self).2]
  | _ :: _ :: _, _, hlength => simp at hlength

theorem groups_of_mapM : ∀ {names : List String} {groups : List (List Model)},
    names.mapM (single models) = .ok groups →
      List.Forall₂ (fun name group => single models name = .ok group) names groups
  | [], groups, h => by
      cases h
      exact .nil
  | name :: rest, groups, h => by
      rw [List.mapM_cons] at h
      cases hfirst : single models name with
      | error e => simp [hfirst, bind, Except.bind] at h
      | ok group =>
          cases hrest : rest.mapM (single models) with
          | error e => simp [hfirst, hrest, bind, Except.bind] at h
          | ok others =>
              have hgroups : groups = group :: others := by
                simpa [hfirst, hrest, bind, Except.bind, pure, Except.pure] using h.symm
              rw [hgroups]
              exact .cons hfirst (groups_of_mapM hrest)

theorem mem_groups_of_mem {m : Model} {groups : List (List Model)}
    (h : List.Forall₂ (fun name group => single models name = .ok group) names groups)
    (hname : m.name ∈ names) (hm : m ∈ models) : m ∈ groups.flatten := by
  induction h with
  | nil => cases hname
  | cons hfirst _ ih =>
      rcases List.mem_cons.1 hname with hname | hname
      · rw [(single_ok hfirst).1]
        exact List.mem_append_left _ (List.mem_filter.2 ⟨hm, by simp [hname]⟩)
      · exact List.mem_append_right _ (ih hname)

/-- Several models of one name collide. -/
theorem single_error {name : String} {collision : NameCollision}
    (h : single models name = .error collision) :
    1 < (named name models).length ∧
      collision = ⟨name, ((named name models).map (·.id)).mergeSort DefinitionId.precedes⟩ := by
  unfold single at h
  by_cases hseveral : 1 < (named name models).length
  · simp only [hseveral, if_true, Except.error.injEq] at h
    exact ⟨hseveral, h.symm⟩
  · simp [hseveral] at h

/-- A failure is that of the first name that fails. -/
theorem first_of_mapM_error {collision : NameCollision} : ∀ {names : List String},
    names.mapM (single models) = .error collision →
      ∃ front name back, names = front ++ name :: back ∧ single models name = .error collision ∧
        ∀ earlier ∈ front, ∃ group, single models earlier = .ok group
  | [], h => by cases h
  | name :: rest, h => by
      rw [List.mapM_cons] at h
      cases hfirst : single models name with
      | error e =>
          have he : e = collision := by simpa [hfirst, bind, Except.bind] using h
          exact ⟨[], name, rest, rfl, he ▸ hfirst, fun _ hmem => absurd hmem List.not_mem_nil⟩
      | ok group =>
          cases hrest : rest.mapM (single models) with
          | ok others => simp [hfirst, hrest, bind, Except.bind, pure, Except.pure] at h
          | error e =>
              have he : e = collision := by simpa [hfirst, hrest, bind, Except.bind] using h
              rcases first_of_mapM_error (he ▸ hrest) with ⟨front, failed, back, hsplit, hfailed, hfront⟩
              refine ⟨name :: front, failed, back, by rw [hsplit]; rfl, hfailed, ?_⟩
              exact List.forall_mem_cons.2 ⟨⟨group, hfirst⟩, hfront⟩

theorem names_of_groups {groups : List (List Model)}
    (h : List.Forall₂ (fun name group => single models name = .ok group) names groups) :
    (groups.flatten.map (·.name)).Sublist names := by
  induction h with
  | nil => simp
  | cons hfirst _ ih => simpa using (names_of_single hfirst).append ih

theorem mem_of_groups {groups : List (List Model)}
    (h : List.Forall₂ (fun name group => single models name = .ok group) names groups) :
    ∀ m ∈ groups.flatten, m ∈ models := by
  induction h with
  | nil => exact fun m hm => absurd hm List.not_mem_nil
  | cons hfirst _ ih =>
      intro m hm
      rcases List.mem_append.1 hm with hm | hm
      · exact (mem_of_single hfirst m hm).1
      · exact ih m hm

/-! ## The same models in another order -/

section

variable {kept kept' : List Model}

theorem sortedNames_of_perm (h : kept.Perm kept') : sortedNames kept = sortedNames kept' := by
  have hnames : (kept.map (·.name)).eraseDups.Perm (kept'.map (·.name)).eraseDups := by
    refine (List.perm_ext_iff_of_nodup (nodup_eraseDups _) (nodup_eraseDups _)).2 fun name => ?_
    rw [List.mem_eraseDups, List.mem_eraseDups]
    exact (h.map (·.name)).mem_iff
  apply mergeSort_eq_of_perm
  case htrans =>
    intro a b c hab hbc
    simp only [decide_eq_true_eq] at hab hbc ⊢
    exact hab.trans hbc
  case htotal =>
    intro a b
    simpa using String.le_total a b
  case hantisymm =>
    intro a b hab hba
    simp only [decide_eq_true_eq] at hab hba
    exact hab.antisymm hba
  case h => exact hnames

/-- One model is in one order, and several are named in the order of their identities. -/
theorem single_of_perm (h : kept.Perm kept') (name : String) : single kept name = single kept' name := by
  have hgroup : (named name kept).Perm (named name kept') := h.filter _
  have hlength : (named name kept).length = (named name kept').length := hgroup.length_eq
  unfold single
  by_cases hseveral : 1 < (named name kept).length
  · have hseveral' : 1 < (named name kept').length := hlength ▸ hseveral
    simp only [hseveral, hseveral', if_true]
    rw [DefinitionId.mergeSort_precedes_of_perm (hgroup.map (·.id))]
  · have hfew : ¬ 1 < (named name kept').length := hlength ▸ hseveral
    simp only [hseveral, hfew, if_false]
    congr 1
    match hfirst : named name kept, hgroup, hseveral with
    | [], hgroup, _ => exact (List.nil_perm.1 hgroup).symm
    | [m], hgroup, _ => exact List.singleton_perm.1 hgroup
    | _ :: _ :: _, _, hseveral => simp at hseveral

end

end Selection

/-! ## Selections -/

/-- A selection consists of one group for each name that is kept. -/
theorem select_groups {excluded : List String} (h : select models excluded = .ok retained) :
    ∃ groups, retained = groups.flatten ∧
      List.Forall₂ (fun name group =>
          single (distinct (models.filter (!isExcluded excluded ·))) name = .ok group)
        (sortedNames (distinct (models.filter (!isExcluded excluded ·)))) groups := by
  unfold select at h
  cases hgroups : (sortedNames (distinct (models.filter (!isExcluded excluded ·)))).mapM
      (single (distinct (models.filter (!isExcluded excluded ·)))) with
  | error e => simp [hgroups, bind, Except.bind] at h
  | ok groups =>
      have hretained : retained = groups.flatten := by
        simpa [hgroups, bind, Except.bind, pure, Except.pure] using h.symm
      exact ⟨groups, hretained, groups_of_mapM hgroups⟩

/-- The names of retained models are in strict order. -/
theorem select_names {excluded : List String} (h : select models excluded = .ok retained) :
    (retained.map (·.name)).Pairwise (· < ·) := by
  rcases select_groups h with ⟨groups, rfl, hgroups⟩
  exact (sortedNames_pairwise _).sublist (names_of_groups hgroups)

theorem mem_of_select {excluded : List String} (h : select models excluded = .ok retained) :
    ∀ m ∈ retained, m ∈ models := by
  rcases select_groups h with ⟨groups, rfl, hgroups⟩
  intro m hm
  exact (List.mem_filter.1 (mem_of_mem_distinct (mem_of_groups hgroups m hm))).1

theorem not_excluded_of_select {excluded : List String} (h : select models excluded = .ok retained) :
    ∀ m ∈ retained, m.name ∉ excluded ∧ m.qualname ∉ excluded := by
  rcases select_groups h with ⟨groups, rfl, hgroups⟩
  intro m hm
  have hkept := (List.mem_filter.1 (mem_of_mem_distinct (mem_of_groups hgroups m hm))).2
  simpa [isExcluded] using hkept

/-- All models are retained that are not excluded, where equal identities are equal models. -/
theorem mem_select_iff (hsame : Identified models) {excluded : List String}
    (h : select models excluded = .ok retained) (m : Model) :
    m ∈ retained ↔ m ∈ models ∧ isExcluded excluded m = false := by
  have hfiltered : Identified (models.filter (!isExcluded excluded ·)) := fun a ha b hb =>
    hsame a (List.mem_filter.1 ha).1 b (List.mem_filter.1 hb).1
  have hkept : m ∈ distinct (models.filter (!isExcluded excluded ·)) ↔
      m ∈ models ∧ isExcluded excluded m = false := by
    rw [mem_distinct_iff hfiltered, List.mem_filter, Bool.not_eq_true']
  rcases select_groups h with ⟨groups, rfl, hgroups⟩
  rw [← hkept]
  constructor
  · exact mem_of_groups hgroups m
  · intro hm
    have hname : m.name ∈ sortedNames (distinct (models.filter (!isExcluded excluded ·))) :=
      List.mem_mergeSort.2 (List.mem_eraseDups.2 (List.mem_map_of_mem hm))
    exact mem_groups_of_mem hgroups hname hm

/-- A selection fails for several models of one name, none of which is excluded. -/
theorem select_error {excluded : List String} {collision : NameCollision}
    (h : select models excluded = .error collision) :
    1 < (named collision.name (distinct (models.filter (!isExcluded excluded ·)))).length ∧
      collision.locations = ((named collision.name
        (distinct (models.filter (!isExcluded excluded ·)))).map (·.id)).mergeSort
          DefinitionId.precedes := by
  unfold select at h
  cases hgroups : (sortedNames (distinct (models.filter (!isExcluded excluded ·)))).mapM
      (single (distinct (models.filter (!isExcluded excluded ·)))) with
  | ok groups => simp [hgroups, bind, Except.bind, pure, Except.pure] at h
  | error e =>
      have he : e = collision := by simpa [hgroups, bind, Except.bind] using h
      rcases first_of_mapM_error (he ▸ hgroups) with ⟨_, name, _, _, hname, _⟩
      rcases single_error hname with ⟨hseveral, rfl⟩
      exact ⟨hseveral, rfl⟩

/-! ## Resolving a collision -/

section

variable {excluded : List String} {collision : NameCollision} {keep : DefinitionId}

theorem identified_of_nodup (h : (models.map (·.id)).Nodup) : Identified models := fun _ ha _ hb =>
  List.inj_on_of_nodup_map h ha hb

theorem isExcluded_append (more : List String) (m : Model) :
    isExcluded (excluded ++ more) m = (isExcluded excluded m || isExcluded more m) := by
  simp only [isExcluded, List.contains_append]
  ac_rfl

/-- Excluding a list of models by name is excluding each of them. -/
theorem isExcluded_map_iff {others : List Model} {m : Model} :
    isExcluded (others.map (·.qualname)) m = true ↔ ∃ a ∈ others, isExcluded [a.qualname] m = true := by
  simp only [isExcluded, Bool.or_eq_true, List.contains_iff_mem, List.mem_map, List.mem_singleton]
  constructor
  · rintro (⟨a, ha, hname⟩ | ⟨a, ha, hname⟩)
    · exact ⟨a, ha, Or.inl hname.symm⟩
    · exact ⟨a, ha, Or.inr hname.symm⟩
  · rintro ⟨a, ha, hname | hname⟩
    · exact Or.inl ⟨a, ha, hname.symm⟩
    · exact Or.inr ⟨a, ha, hname.symm⟩

/-- The qualified name of each model excludes this model and no other. -/
def Selection.Identifies (models : List Model) : Prop :=
  ∀ a ∈ models, ∀ b ∈ models, isExcluded [a.qualname] b = true ↔ b = a

theorem Selection.Identifies.eq_of_qualname (h : Identifies models) {a b : Model} (ha : a ∈ models)
    (hb : b ∈ models) (hqualname : a.qualname = b.qualname) : a = b :=
  ((h a ha b hb).1 (by simp [isExcluded, hqualname])).symm

/-- Exactly one model is excluded by its qualified name. -/
theorem Selection.Identifies.filter_isExcluded (h : Identifies models) (hnodup : models.Nodup) {a : Model}
    (ha : a ∈ models) : models.filter (isExcluded [a.qualname] ·) = [a] := by
  refine List.perm_singleton.1
    ((List.perm_ext_iff_of_nodup (hnodup.filter _) (List.nodup_singleton a)).2 fun b => ?_)
  rw [List.mem_filter, List.mem_singleton]
  constructor
  · exact fun hb => (h a ha b hb.1).1 hb.2
  · rintro rfl
    exact ⟨ha, (h b ha b ha).2 rfl⟩

/-- The models of a name that are not excluded. -/
def Selection.colliding (models : List Model) (excluded : List String) (name : String) : List Model :=
  named name (models.filter (!isExcluded excluded ·))

theorem mem_colliding {name : String} {m : Model} : m ∈ colliding models excluded name ↔
    m ∈ models ∧ isExcluded excluded m = false ∧ m.name = name := by
  simp only [colliding, named, List.mem_filter, Bool.not_eq_true', beq_iff_eq, and_assoc]

/-- The locations of a collision are those of the models that collide. -/
theorem locations_of_select (hids : (models.map (·.id)).Nodup)
    (h : select models excluded = .error collision) :
    1 < (colliding models excluded collision.name).length ∧
      collision.locations.Perm ((colliding models excluded collision.name).map (·.id)) := by
  have hkept : ((models.filter (!isExcluded excluded ·)).map (·.id)).Nodup :=
    hids.sublist (List.filter_sublist.map _)
  rcases select_error h with ⟨hseveral, hlocations⟩
  rw [distinct_of_nodup hkept] at hseveral hlocations
  exact ⟨hseveral, hlocations ▸ List.mergeSort_perm _ _⟩

theorem mem_locations_iff (hids : (models.map (·.id)).Nodup)
    (h : select models excluded = .error collision) {m : Model} (hm : m ∈ models) :
    m.id ∈ collision.locations ↔ m ∈ colliding models excluded collision.name := by
  rw [(locations_of_select hids h).2.mem_iff, List.mem_map]
  constructor
  · rintro ⟨a, ha, hid⟩
    exact identified_of_nodup hids a (mem_colliding.1 ha).1 m hm hid ▸ ha
  · exact fun hcollides => ⟨m, hcollides, rfl⟩

/-- Once the others are excluded, one model of the name is left. -/
theorem colliding_without_others (hidentifies : Identifies models) {name : String} {kept : Model}
    (hnodup : models.Nodup) (hkept : kept ∈ colliding models excluded name) {others : List Model}
    (hothers : ∀ m, m ∈ others ↔ m ∈ colliding models excluded name ∧ m ≠ kept) :
    colliding models (excluded ++ others.map (·.qualname)) name = [kept] := by
  have hexcluded (m : Model) (hm : m ∈ models) :
      isExcluded (others.map (·.qualname)) m = true ↔ m ∈ others := by
    rw [isExcluded_map_iff]
    constructor
    · rintro ⟨a, ha, hexcludes⟩
      have hamodel := (mem_colliding.1 ((hothers a).1 ha).1).1
      exact (hidentifies a hamodel m hm).1 hexcludes ▸ ha
    · exact fun hother => ⟨m, hother, (hidentifies m hm m hm).2 rfl⟩
  have hmem (m : Model) :
      m ∈ colliding models (excluded ++ others.map (·.qualname)) name ↔ m = kept := by
    rw [mem_colliding, isExcluded_append, Bool.or_eq_false_iff]
    constructor
    · rintro ⟨hm, ⟨hincluded, hrest⟩, hname⟩
      by_contra hne
      have hother : m ∈ others := (hothers m).2 ⟨mem_colliding.2 ⟨hm, hincluded, hname⟩, hne⟩
      rw [(hexcluded m hm).2 hother] at hrest
      cases hrest
    · rintro rfl
      rcases mem_colliding.1 hkept with ⟨hm, hincluded, hname⟩
      have hnone : ¬ isExcluded (others.map (·.qualname)) m = true := fun hexcludes =>
        ((hothers m).1 ((hexcluded m hm).1 hexcludes)).2 rfl
      exact ⟨hm, ⟨hincluded, by simpa using hnone⟩, hname⟩
  have hleft : (colliding models (excluded ++ others.map (·.qualname)) name).Nodup :=
    hnodup.sublist (List.filter_sublist.trans List.filter_sublist)
  refine List.perm_singleton.1 ((List.perm_ext_iff_of_nodup hleft (List.nodup_singleton _)).2 ?_)
  exact fun m => (hmem m).trans List.mem_singleton.symm

/-- When all models of a collision are excluded but one, this one is retained and its name does not collide
any more. -/
theorem select_without_others (hids : (models.map (·.id)).Nodup) (hidentifies : Identifies models)
    (h : select models excluded = .error collision) (hkeep : keep ∈ collision.locations) :
    ∃ others : List Model,
      (∀ m, m ∈ others ↔ m ∈ models ∧ m.id ∈ collision.locations ∧ m.id ≠ keep) ∧
      others.length + 1 = collision.locations.length ∧
      (∀ c, select models (excluded ++ others.map (·.qualname)) = .error c →
        c.name ≠ collision.name) ∧
      ∀ retained, select models (excluded ++ others.map (·.qualname)) = .ok retained →
        ∃ m ∈ retained, m.id = keep ∧ m.name = collision.name := by
  classical
  rcases locations_of_select hids h with ⟨_, hlocations⟩
  have hsame := identified_of_nodup hids
  have hnodup : models.Nodup := hids.of_map _
  have hdistinct : (colliding models excluded collision.name).Nodup :=
    hnodup.sublist (List.filter_sublist.trans List.filter_sublist)
  obtain ⟨kept, hkept, rfl⟩ := List.mem_map.1 (hlocations.mem_iff.1 hkeep)
  obtain ⟨hmodel, hincluded, hname⟩ := mem_colliding.1 hkept
  let others := (colliding models excluded collision.name).erase kept
  have hothers (m : Model) : m ∈ others ↔ m ∈ colliding models excluded collision.name ∧ m ≠ kept := by
    rw [hdistinct.mem_erase_iff, and_comm]
  have hleft := colliding_without_others hidentifies hnodup hkept hothers
  refine ⟨others, ?_, ?_, ?_, ?_⟩
  · intro m
    rw [hothers]
    constructor
    · rintro ⟨hcollides, hne⟩
      have hm := (mem_colliding.1 hcollides).1
      exact ⟨hm, (mem_locations_iff hids h hm).2 hcollides,
        fun hid => hne (hsame m hm kept hmodel hid)⟩
    · rintro ⟨hm, hmem, hne⟩
      exact ⟨(mem_locations_iff hids h hm).1 hmem, fun heq => hne (heq ▸ rfl)⟩
  · calc
      others.length + 1 = (colliding models excluded collision.name).length :=
        List.length_erase_add_one hkept
      _ = collision.locations.length := by rw [hlocations.length_eq, List.length_map]
  · rintro c hc hcname
    have hseveral := (locations_of_select hids hc).1
    rw [hcname, hleft] at hseveral
    exact absurd hseveral (by simp)
  · intro retained hretained
    have hincluded : kept ∈ colliding models (excluded ++ others.map (·.qualname)) collision.name := by
      rw [hleft]
      exact List.mem_cons_self
    exact ⟨kept, (mem_select_iff hsame hretained kept).2 ⟨hmodel, (mem_colliding.1 hincluded).2.1⟩, rfl,
      hname⟩

end

/-- Only what the models are makes a difference, where equal identities are equal models. -/
theorem select_eq_of_same {models' : List Model} (h : Identified models)
    (hsame : ∀ m, m ∈ models' ↔ m ∈ models) (excluded : List String) :
    select models' excluded = select models excluded := by
  have hfiltered : Identified (models.filter (!isExcluded excluded ·)) := fun a ha b hb =>
    h a (List.mem_filter.1 ha).1 b (List.mem_filter.1 hb).1
  have hfiltered' : Identified (models'.filter (!isExcluded excluded ·)) := fun a ha b hb =>
    h a ((hsame a).1 (List.mem_filter.1 ha).1) b ((hsame b).1 (List.mem_filter.1 hb).1)
  have hkept : (distinct (models'.filter (!isExcluded excluded ·))).Perm
      (distinct (models.filter (!isExcluded excluded ·))) := by
    refine (List.perm_ext_iff_of_nodup (nodup_distinct _) (nodup_distinct _)).2 fun m => ?_
    rw [mem_distinct_iff hfiltered', mem_distinct_iff hfiltered, List.mem_filter, List.mem_filter,
      hsame]
  have hsingle := funext (single_of_perm hkept)
  simp only [select, sortedNames_of_perm hkept, hsingle]

end WireTypes
