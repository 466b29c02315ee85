import WireTypes.Proofs.Definition.References
import WireTypes.Proofs.Resolution.Classification
import WireTypes.Proofs.Resolution.Inheritance

/-!
# Known references — what the fields of a model refer to can be built

A type refers to definitions by identity. Whatever is resolved, the identities in it are known: they are
those of models and enumerations of the tree, or of recorded instances.

- `Recorded`: instances are of generic models, and their arguments refer to known definitions;
- `Reads allowed act P`: reading from a right table leads to a right one, and what is read satisfies `P`;
- `resolveType_reads`, `fieldsOf_reads`: types and fields refer to known definitions;
- `model_grounds`, `referenced_grounds`: and so does every model that is built or kept.
-/

namespace WireTypes
namespace Resolution

open Discovery Python

namespace ClassifiedProgram

variable (c : ClassifiedProgram)

/-! ## Known identities -/

/-- A definition can be built for the identity: a model, an enumeration, or a recorded instance. -/
def Known (known : List Instance) (id : DefinitionId) : Prop :=
  c.kind id = .model ∨ (c.kind id).isEnum = true ∨ id ∈ known.map Instance.id

/-- The arguments refer to known definitions. -/
def ArgsKnown (args : TypeArgs) (known : List Instance) : Prop :=
  ∀ a ∈ args, a.2.RefsIn (c.Known known)

def FieldsKnown (known : List Instance) (fields : List Field) : Prop :=
  ∀ f ∈ fields, f.type.RefsIn (c.Known known)

/-- The instances are of generic models, their arguments refer to known definitions, and there are not
too many of them. -/
structure Recorded (known : List Instance) : Prop where
  generic : ∀ i ∈ known, c.kind i.generic = .genericModel
  args : ∀ i ∈ known, c.ArgsKnown i.args known
  bounded : known.length ≤ instanceLimit

section

variable {c} {known later : List Instance}

theorem Known.mono {id : DefinitionId} (h : c.Known known id) (hlater : known <+: later) :
    c.Known later id := by
  rcases h with hmodel | henum | hinstance
  · exact Or.inl hmodel
  · exact Or.inr (Or.inl henum)
  · exact Or.inr (Or.inr ((hlater.map Instance.id).subset hinstance))

theorem refsIn_known_mono {ty : FieldType} (h : ty.RefsIn (c.Known known))
    (hlater : known <+: later) : ty.RefsIn (c.Known later) := h.mono fun _ hid => hid.mono hlater

theorem ArgsKnown.mono {args : TypeArgs} (h : c.ArgsKnown args known) (hlater : known <+: later) :
    c.ArgsKnown args later := fun a ha => refsIn_known_mono (h a ha) hlater

theorem FieldsKnown.mono {fields : List Field} (h : c.FieldsKnown known fields)
    (hlater : known <+: later) : c.FieldsKnown later fields :=
  fun f hf => refsIn_known_mono (h f hf) hlater

theorem Recorded.nil : c.Recorded [] :=
  ⟨fun _ h => absurd h List.not_mem_nil, fun _ h => absurd h List.not_mem_nil, Nat.zero_le _⟩

end

/-! ## Reading -/

/-- A condition that holds of all tables that go on from one of which it holds. -/
def Persists (allowed : List Instance → Prop) : Prop :=
  ∀ s t, s <+: t → allowed s → allowed t

/-- From every right table that is allowed, reading leads to a right table that goes on from it, and
gives what satisfies `P` there. -/
def Reads (allowed : List Instance → Prop) {α : Type} (act : Resolving α)
    (P : List Instance → α → Prop) : Prop :=
  ∀ s, c.Recorded s → allowed s →
    c.Recorded (act s).2 ∧ s <+: (act s).2 ∧ P (act s).2 (act s).1

/-- Reading gives a type that refers to known definitions. -/
abbrev ReadsType (allowed : List Instance → Prop) (act : Resolving FieldType) : Prop :=
  c.Reads allowed act fun t ty => ty.RefsIn (c.Known t)

section

variable {c} {allowed : List Instance → Prop} {α β : Type}

theorem persists_argsKnown (args : TypeArgs) : Persists (c.ArgsKnown args) :=
  fun _ _ hst h => h.mono hst

namespace Reads

variable {P : List Instance → α → Prop} {Q : List Instance → β → Prop}

theorem pure {a : α} (h : ∀ s, allowed s → P s a) : c.Reads allowed (Pure.pure a) P :=
  fun s hs hallowed => ⟨hs, List.prefix_rfl, h s hallowed⟩

/-- What was allowed before an action is allowed after it. -/
theorem bind {x : Resolving α} {f : α → Resolving β} (hallowed : Persists allowed)
    (hx : c.Reads allowed x P) (hf : ∀ a, c.Reads (fun s => allowed s ∧ P s a) (f a) Q) :
    c.Reads allowed (x >>= f) Q := by
  intro s hs hs'
  rcases hx s hs hs' with ⟨hnext, hgrows, hP⟩
  rcases hf (x s).1 (x s).2 hnext ⟨hallowed s _ hgrows hs', hP⟩ with ⟨hlast, hgrows', hQ⟩
  exact ⟨hlast, hgrows.trans hgrows', hQ⟩

theorem weaken {allowed' : List Instance → Prop} {P' : List Instance → α → Prop} {x : Resolving α}
    (hx : c.Reads allowed x P) (hallowed : ∀ s, allowed' s → allowed s)
    (hP : ∀ s a, P s a → P' s a) : c.Reads allowed' x P' := by
  intro s hs hs'
  rcases hx s hs (hallowed s hs') with ⟨hnext, hgrows, ha⟩
  exact ⟨hnext, hgrows, hP _ _ ha⟩

theorem map {f : α → β} {x : Resolving α} (hallowed : Persists allowed) (hx : c.Reads allowed x P)
    (hf : ∀ s a, P s a → Q s (f a)) : c.Reads allowed (f <$> x) Q :=
  hx.bind hallowed fun a => .pure fun s h => hf s a h.2

theorem mapM {f : α → Resolving β} (hallowed : Persists allowed) (hQ : ∀ b, Persists (Q · b))
    (hf : ∀ a, c.Reads allowed (f a) Q) :
    ∀ xs : List α, c.Reads allowed (xs.mapM f) fun t bs => ∀ b ∈ bs, Q t b
  | [] => .pure fun _ _ b hb => absurd hb List.not_mem_nil
  | x :: rest => by
      rw [List.mapM_cons]
      refine (hf x).bind hallowed fun b => ?_
      have hnext : Persists fun s => allowed s ∧ Q s b :=
        fun s t hst h => ⟨hallowed s t hst h.1, hQ b s t hst h.2⟩
      refine ((mapM hallowed hQ hf rest).weaken (fun s h => h.1) fun _ _ h => h).bind hnext
        fun bs => .pure ?_
      intro s h b' hb'
      rcases List.mem_cons.1 hb' with rfl | hb'
      · exact h.1.2
      · exact h.2 b' hb'

theorem filterMapM {f : α → Resolving (Option β)} (hallowed : Persists allowed)
    (hQ : ∀ b, Persists (Q · b)) (hf : ∀ a, c.Reads allowed (f a) fun t b? => ∀ b ∈ b?, Q t b) :
    ∀ xs : List α, c.Reads allowed (xs.filterMapM f) fun t bs => ∀ b ∈ bs, Q t b
  | [] => .pure fun _ _ b hb => absurd hb List.not_mem_nil
  | x :: rest => by
      have hrest := filterMapM hallowed hQ hf rest
      rw [List.filterMapM_cons]
      refine (hf x).bind hallowed fun b? => ?_
      cases b? with
      | none => exact hrest.weaken (fun s h => h.1) fun _ _ h => h
      | some b =>
          have hnext : Persists fun s => allowed s ∧ ∀ b' ∈ some b, Q s b' :=
            fun s t hst h => ⟨hallowed s t hst h.1, fun b' hb' => hQ b' s t hst (h.2 b' hb')⟩
          refine (hrest.weaken (fun s h => h.1) fun _ _ h => h).bind hnext fun bs => .pure ?_
          intro s h b' hb'
          rcases List.mem_cons.1 hb' with rfl | hb'
          · exact h.1.2 b' rfl
          · exact h.2 b' hb'

end Reads

theorem persists_refsIn (ty : FieldType) : Persists fun t => ty.RefsIn (c.Known t) :=
  fun _ _ hst h => refsIn_known_mono h hst

/-! ## Instances -/

theorem argsKnown_bind {known : List Instance} :
    ∀ (parameters : List String) (types : List FieldType), (∀ t ∈ types, t.RefsIn (c.Known known)) →
      c.ArgsKnown (TypeArgs.bind parameters types) known
  | [], _, _ => fun _ ha => absurd ha List.not_mem_nil
  | p :: ps, [], htypes => by
      intro a ha
      rcases List.mem_cons.1 ha with rfl | ha
      · exact FieldType.refsIn_of_refs_eq_nil rfl
      · exact argsKnown_bind ps [] htypes a ha
  | p :: ps, t :: ts, htypes => by
      intro a ha
      rcases List.mem_cons.1 ha with rfl | ha
      · exact htypes t List.mem_cons_self
      · exact argsKnown_bind ps ts (fun u hu => htypes u (List.mem_cons_of_mem _ hu)) a ha

theorem Recorded.concat {known : List Instance} (h : c.Recorded known) {i : Instance}
    (hgeneric : c.kind i.generic = .genericModel) (hargs : c.ArgsKnown i.args known)
    (hroom : ¬ instanceLimit ≤ known.length) : c.Recorded (known ++ [i]) := by
  have hgrows : known <+: known ++ [i] := List.prefix_append _ _
  constructor
  case generic =>
    intro j hj
    rcases List.mem_append.1 hj with hj | hj
    · exact h.generic j hj
    · rw [List.mem_singleton.1 hj]
      exact hgeneric
  case args =>
    intro j hj
    rcases List.mem_append.1 hj with hj | hj
    · exact (h.args j hj).mono hgrows
    · rw [List.mem_singleton.1 hj]
      exact hargs.mono hgrows
  case bounded =>
    rw [List.length_append, List.length_singleton]
    omega

/-- An application is recorded, or it was before; where the table is full, it is no reference. -/
theorem apply_reads {generic : DefinitionId} (hgeneric : c.kind generic = .genericModel)
    (types : List FieldType) :
    c.ReadsType (fun s => ∀ t ∈ types, t.RefsIn (c.Known s)) (c.apply generic types) := by
  intro s hs htypes
  rw [apply_eq]
  split
  · next hany =>
      rcases List.any_eq_true.1 hany with ⟨i, hi, hid⟩
      have hmem : instanceId generic types ∈ s.map Instance.id :=
        List.mem_map.2 ⟨i, hi, by simpa using hid⟩
      exact ⟨hs, List.prefix_rfl, FieldType.refsIn_ref (Or.inr (Or.inr hmem))⟩
  · split
    · exact ⟨hs, List.prefix_rfl, FieldType.refsIn_of_refs_eq_nil rfl⟩
    · next hroom =>
        refine ⟨hs.concat hgeneric (argsKnown_bind _ types htypes) hroom, List.prefix_append _ _, ?_⟩
        exact FieldType.refsIn_ref (Or.inr (Or.inr (by simp)))

/-! ## Annotations -/

section

variable {resolve : TypeHint → Resolving FieldType}

theorem parameterAt_reads (hresolve : ∀ hint, c.ReadsType allowed (resolve hint))
    (params : List TypeHint) (i : Nat) : c.ReadsType allowed (parameterAt resolve params i) := by
  unfold parameterAt
  cases params[i]? with
  | none => exact .pure fun _ _ => FieldType.refsIn_of_refs_eq_nil rfl
  | some hint => exact hresolve hint

theorem refsIn_literal? {P : DefinitionId → Prop} {params : List TypeHint} {ty : FieldType}
    (h : literal? params = some ty) : ty.RefsIn P := by
  rcases Option.map_eq_some_iff.1 h with ⟨⟨values, nullable⟩, _, rfl⟩
  -- Neither `null` nor a list of values refers to anything.
  have hplain : (if values.isEmpty then FieldType.null else .literal values).RefsIn P := by
    split
    · exact FieldType.refsIn_of_refs_eq_nil rfl
    · exact FieldType.refsIn_of_refs_eq_nil rfl
  cases nullable with
  | false => exact hplain
  | true => exact FieldType.refsIn_orNull hplain

theorem container_reads (hallowed : Persists allowed)
    (hresolve : ∀ hint, c.ReadsType allowed (resolve hint)) (base : String) (params : List TypeHint)
    (container : Container) : c.ReadsType allowed (container.typeOf resolve base params) := by
  have hat := parameterAt_reads hresolve params
  have hall := Reads.mapM hallowed persists_refsIn hresolve params
  cases container with
  | optional => exact (hat 0).map hallowed fun _ _ h => FieldType.refsIn_orNull h
  | union => exact hall.map hallowed fun _ _ h => FieldType.refsIn_unionOf h
  | list => exact (hat 0).map hallowed fun _ _ h => h
  | set => exact (hat 0).map hallowed fun _ _ h => h
  | tuple =>
      simp only [Container.typeOf]
      split
      · refine (hresolve _).bind hallowed fun item => .pure fun s h => FieldType.refsIn_tuple ?_
        intro ty hty
        rw [List.mem_singleton.1 hty]
        exact h.2
      · exact hall.bind hallowed fun _ => .pure fun _ h => FieldType.refsIn_tuple h.2
  | dict =>
      refine (hat 0).bind hallowed fun key => ?_
      have hnext : Persists fun s => allowed s ∧ key.RefsIn (c.Known s) :=
        fun s t hst h => ⟨hallowed s t hst h.1, refsIn_known_mono h.2 hst⟩
      refine ((hat 1).weaken (fun s h => h.1) fun _ _ h => h).bind hnext fun value => .pure ?_
      exact fun s h => FieldType.refsIn_dict h.1.2 h.2
  | literal =>
      refine .pure fun s _ => ?_
      cases hliteral : literal? params with
      | none => exact FieldType.refsIn_of_refs_eq_nil rfl
      | some ty => exact refsIn_literal? hliteral
  | wrapper => exact hat 0

theorem subscriptType_reads (hallowed : Persists allowed)
    (hresolve : ∀ hint, c.ReadsType allowed (resolve hint)) (m : SourceModule) (base : String)
    (params : List TypeHint) : c.ReadsType allowed (c.subscriptType resolve m base params) := by
  have hnone : ∀ name, c.ReadsType allowed (Pure.pure (.unresolved name)) :=
    fun name => .pure fun _ _ => FieldType.refsIn_of_refs_eq_nil rfl
  unfold subscriptType
  cases c.resolve m base with
  | external qualified =>
      dsimp only
      cases Container.named? (External.shortName qualified) with
      | some container => exact container_reads hallowed hresolve base params container
      | none => exact hnone _
  | classDef id =>
      dsimp only
      cases hkind : c.kind id with
      | genericModel =>
          refine (Reads.mapM hallowed persists_refsIn hresolve params).bind hallowed fun types => ?_
          exact (apply_reads hkind types).weaken (fun s h => h.2) fun _ _ h => h
      | model => exact .pure fun _ _ => FieldType.refsIn_ref (Or.inl hkind)
      | _ => exact hnone base
  | _ => exact hnone base

end

theorem refsIn_get? {args : TypeArgs} {known : List Instance} (h : c.ArgsKnown args known)
    (name : String) : ((args.get? name).getD .any).RefsIn (c.Known known) := by
  cases hget : args.get? name with
  | none => exact FieldType.refsIn_of_refs_eq_nil rfl
  | some ty =>
      rcases List.lookup_eq_some_iff.1 hget with ⟨front, back, hsplit, _⟩
      have hmem : (name, ty) ∈ args.reverse := by
        rw [hsplit]
        exact List.mem_append_right _ List.mem_cons_self
      exact h (name, ty) (List.mem_reverse.1 hmem)

/-- Types of names outside the tree refer to nothing. -/
theorem refs_scalar? {name : String} {ty : FieldType} (h : External.scalar? name = some ty) :
    ty.refs = [] := by
  unfold External.scalar? at h
  split at h <;> cases h <;> rfl

theorem namedType_reads {expand : SourceModule → TypeHint → Resolving FieldType} {args : TypeArgs}
    (hexpand : ∀ m hint, c.ReadsType (c.ArgsKnown args) (expand m hint)) (m : SourceModule)
    (name : String) : c.ReadsType (c.ArgsKnown args) (c.namedType expand m args name) := by
  unfold namedType
  cases c.resolve m name with
  | typeVar => exact .pure fun s h => refsIn_get? h name
  | external qualified =>
      refine .pure fun s _ => FieldType.refsIn_of_refs_eq_nil ?_
      cases hscalar : External.scalar? (External.shortName qualified) with
      | none => rfl
      | some ty => exact refs_scalar? hscalar
  | typeAlias home hint => exact hexpand home hint
  | module key => exact .pure fun _ _ => FieldType.refsIn_of_refs_eq_nil rfl
  | classDef id =>
      dsimp only
      cases hkind : c.kind id with
      | genericModel =>
          refine (apply_reads hkind []).weaken ?_ fun _ _ h => h
          exact fun _ _ t ht => absurd ht List.not_mem_nil
      | plain => exact .pure fun _ _ => FieldType.refsIn_of_refs_eq_nil rfl
      | model => exact .pure fun _ _ => FieldType.refsIn_ref (Or.inl hkind)
      | enum => exact .pure fun _ _ => FieldType.refsIn_ref (Or.inr (Or.inl (by rw [hkind]; rfl)))
      | strEnum =>
          exact .pure fun _ _ => FieldType.refsIn_ref (Or.inr (Or.inl (by rw [hkind]; rfl)))

/-! ## Lists of fields -/

theorem type_fieldOf (name : String) (type : FieldType) (value : Option Expr) :
    (fieldOf name type value).type = type := by
  unfold fieldOf
  split
  · rfl
  · rfl
  · split <;> rfl

theorem type_withImplicitDefault (isLegacy : Bool) (value : Option Expr) (f : Field) :
    (withImplicitDefault isLegacy value f).type = f.type := by
  unfold withImplicitDefault
  split <;> rfl

theorem mem_upsert {fields : List Field} {f g : Field} (h : g ∈ Field.upsert fields f) :
    g = f ∨ g ∈ fields := by
  induction fields with
  | nil => exact Or.inl (List.mem_singleton.1 h)
  | cons first rest ih =>
      unfold Field.upsert at h
      -- A field of the same name gives way to the new one.
      split at h
      · rcases List.mem_cons.1 h with rfl | h
        · exact Or.inl rfl
        · exact Or.inr (List.mem_cons_of_mem _ h)
      · rcases List.mem_cons.1 h with rfl | h
        · exact Or.inr List.mem_cons_self
        · exact (ih h).imp_right (List.mem_cons_of_mem _)

/-- Fields that are put together come from the one list or from the other. -/
theorem mem_upsertAll {fields new : List Field} {f : Field} (h : f ∈ Field.upsertAll fields new) :
    f ∈ new ∨ f ∈ fields := by
  induction new generalizing fields with
  | nil => exact .inr h
  | cons g rest ih =>
      rcases ih h with h | h
      · exact .inl (List.mem_cons_of_mem _ h)
      · rcases mem_upsert h with rfl | h
        · exact .inl List.mem_cons_self
        · exact .inr h

/-- A field that is inherited is one of a base. -/
theorem mem_inherited {bases : List Model} {fields : List Field} {f : Field}
    (h : f ∈ bases.foldl (fun fields b => Field.upsertAll fields b.fields) fields) :
    (∃ b ∈ bases, f ∈ b.fields) ∨ f ∈ fields := by
  induction bases generalizing fields with
  | nil => exact .inr h
  | cons b rest ih =>
      rcases ih h with ⟨b', hb', hf⟩ | h
      · exact .inl ⟨b', List.mem_cons_of_mem _ hb', hf⟩
      · exact (mem_upsertAll h).imp_left fun hf => ⟨b, List.mem_cons_self, hf⟩

theorem FieldsKnown.upsertAll {known : List Instance} {fields new : List Field}
    (h : c.FieldsKnown known fields) (hnew : c.FieldsKnown known new) :
    c.FieldsKnown known (Field.upsertAll fields new) := by
  intro f hf
  rcases mem_upsertAll hf with hf | hf
  · exact hnew f hf
  · exact h f hf

theorem persists_fieldType (f : Field) : Persists fun t => f.type.RefsIn (c.Known t) :=
  persists_refsIn f.type

variable (c)

/-! ## Types -/

/-- The type of an annotation refers to known definitions, if the arguments do. -/
theorem resolveType_reads (args : TypeArgs) (steps : Nat) : ∀ (m : SourceModule) (hint : TypeHint),
    c.ReadsType (c.ArgsKnown args) (c.resolveType steps m args hint) := by
  have hallowed : Persists (c.ArgsKnown args) := persists_argsKnown args
  have hnone : ∀ name, c.ReadsType (c.ArgsKnown args) (Pure.pure (.unresolved name)) :=
    fun name => .pure fun _ _ => FieldType.refsIn_of_refs_eq_nil rfl
  -- The types inside an annotation are read with one step less.
  induction steps with
  | zero => exact fun _ hint => hnone _
  | succ steps ih =>
      intro m hint
      unfold resolveType
      cases hint with
      | name name =>
          by_cases hnull : name = "None"
          · simp only [hnull, if_true]
            exact .pure fun _ _ => FieldType.refsIn_of_refs_eq_nil rfl
          · simp only [hnull, if_false]
            exact namedType_reads ih m name
      | str text =>
          cases hparse : TypeHint.parse text with
          | ok inner =>
              simp only [hparse]
              exact ih m inner
          | error e =>
              simp only [hparse]
              exact hnone text
      | union members =>
          exact (Reads.mapM hallowed persists_refsIn (ih m) members).map hallowed
            fun _ _ h => FieldType.refsIn_unionOf h
      | subscript base params => exact subscriptType_reads hallowed (ih m) m base params
      | _ => exact hnone _

theorem typeOf_reads (m : SourceModule) (args : TypeArgs) (hint : TypeHint) :
    c.ReadsType (c.ArgsKnown args) (c.typeOf m args hint) := c.resolveType_reads args _ m hint

/-! ## Fields -/

theorem field?_reads (m : SourceModule) (args : TypeArgs) (isLegacy : Bool) (a : Attribute) :
    c.Reads (c.ArgsKnown args) (c.field? m args isLegacy a)
      fun t f? => ∀ f ∈ f?, f.type.RefsIn (c.Known t) := by
  unfold field?
  split
  · exact .pure fun _ _ f hf => by cases hf
  · refine (c.typeOf_reads m args a.hint).bind (persists_argsKnown args) fun type => .pure ?_
    intro s h f hf
    cases hf
    rw [type_withImplicitDefault, type_fieldOf]
    exact h.2

theorem computedField_reads (m : SourceModule) (args : TypeArgs) (d : Computed) :
    c.Reads (c.ArgsKnown args) (c.computedField m args d)
      fun t f => f.type.RefsIn (c.Known t) := by
  unfold computedField
  cases d.returns with
  | none => exact .pure fun _ _ => FieldType.refsIn_of_refs_eq_nil rfl
  | some hint =>
      exact (c.typeOf_reads m args hint).bind (persists_argsKnown args) fun _ => .pure fun _ h => h.2

/-- The fields of a class refer to known definitions, if those of its bases do. -/
theorem fieldsOf_reads (m : SourceModule) (id : DefinitionId) (d : ClassDecl) (args : TypeArgs)
    (bases : List Model) :
    c.Reads (fun s => c.ArgsKnown args s ∧ ∀ b ∈ bases, c.FieldsKnown s b.fields)
      (c.fieldsOf m id d args bases) c.FieldsKnown := by
  have hallowed : Persists fun s => c.ArgsKnown args s ∧ ∀ b ∈ bases, c.FieldsKnown s b.fields :=
    fun s t hst h => ⟨h.1.mono hst, fun b hb => (h.2 b hb).mono hst⟩
  unfold fieldsOf
  refine ((Reads.filterMapM (persists_argsKnown args) persists_fieldType
    (c.field?_reads m args _) d.attributes).weaken (fun s h => h.1) fun _ _ h => h).bind hallowed
      fun own => ?_
  have hnext : Persists fun s => (c.ArgsKnown args s ∧ ∀ b ∈ bases, c.FieldsKnown s b.fields) ∧
      ∀ f ∈ own, f.type.RefsIn (c.Known s) :=
    fun s t hst h => ⟨hallowed s t hst h.1, fun f hf => refsIn_known_mono (h.2 f hf) hst⟩
  refine ((Reads.mapM (persists_argsKnown args) persists_fieldType
    (c.computedField_reads m args) d.computed).weaken (fun s h => h.1.1) fun _ _ h => h).bind hnext
      fun computed => .pure ?_
  rintro s ⟨⟨⟨_, hbases⟩, hown⟩, hcomputed⟩
  have hbase : c.FieldsKnown s
      (bases.reverse.foldl (fun fields b => Field.upsertAll fields b.fields) []) := by
    intro f hf
    rcases mem_inherited hf with ⟨b, hb, hf⟩ | hf
    · exact hbases b (List.mem_reverse.1 hb) f hf
    · exact absurd hf List.not_mem_nil
  exact (hbase.upsertAll hown).upsertAll hcomputed

theorem modelBase?_reads (m : SourceModule) (args : TypeArgs) (base : Expr) :
    c.Reads (c.ArgsKnown args) (c.modelBase? m args base)
      fun t b? => ∀ b ∈ b?, c.ArgsKnown b.2 t := by
  unfold modelBase?
  split
  · split
    · refine .pure fun s h b hb => ?_
      split at hb
      · cases hb
        exact h
      · cases hb
    · exact .pure fun _ _ b hb => by cases hb
  · split
    · split
      · refine (Reads.mapM (persists_argsKnown args) persists_refsIn (c.typeOf_reads m args) _).bind
          (persists_argsKnown args) fun types => .pure ?_
        intro s h b hb
        cases hb
        exact argsKnown_bind _ types h.2
      · exact .pure fun _ _ b hb => by cases hb
    · exact .pure fun _ _ b hb => by cases hb
  · exact .pure fun _ _ b hb => by cases hb

/-! ## Models -/

/-- The instances are right, and every model that is kept is that of its class and refers to known
definitions. -/
structure Grounded (b : Building) : Prop where
  recorded : c.Recorded b.instances
  finished : ∀ id model, b.finished.lookup id = some model →
    model.id = id ∧ c.FieldsKnown b.instances model.fields

/-- A run for a class keeps what is kept in order, and gives a model of the class that refers to known
definitions. -/
def Grounds (id : DefinitionId) (args : TypeArgs) (act : StateM Building (Option Model)) : Prop :=
  ∀ b, c.Grounded b → c.ArgsKnown args b.instances →
    c.Grounded (act b).2 ∧ b.instances <+: (act b).2.instances ∧
      ∀ model ∈ (act b).1, model.id = id ∧ c.FieldsKnown (act b).2.instances model.fields

end

section

variable {c} {depth : Nat} {above : List DefinitionId} {id : DefinitionId} {args : TypeArgs}
  {m : SourceModule} {b : Building}

theorem Grounded.mono {later : List Instance} (h : c.Grounded b) (hrecorded : c.Recorded later)
    (hlater : b.instances <+: later) : c.Grounded { b with instances := later } := by
  refine ⟨hrecorded, fun x model hmodel => ?_⟩
  rcases h.finished x model hmodel with ⟨hid, hfields⟩
  exact ⟨hid, hfields.mono hlater⟩

theorem Grounded.remember {model : Model} (h : c.Grounded b) (hid : model.id = id)
    (hfields : c.FieldsKnown b.instances model.fields) :
    c.Grounded (remember id args model b).2 := by
  cases args with
  | cons a rest => exact h
  | nil =>
      refine ⟨h.recorded, fun x kept hkept => ?_⟩
      -- The model of the class is looked up first, and the others as before.
      have hlookup : List.lookup x ((id, model) :: b.finished) = some kept := hkept
      by_cases hx : x = id
      · rw [hx, List.lookup_cons, beq_self_eq_true] at hlookup
        cases hlookup
        exact ⟨hid.trans hx.symm, hfields⟩
      · rw [List.lookup_cons, beq_eq_false_iff_ne.2 hx] at hlookup
        exact h.finished x kept hlookup

/-- The models of bases refer to known definitions, if those of single classes do. -/
theorem baseModels_grounds (hmodel : ∀ id args, c.Grounds id args (c.model depth above id args)) :
    ∀ (bases : List Expr) (b : Building), c.Grounded b → c.ArgsKnown args b.instances →
      c.Grounded (c.baseModels depth above m args bases b).2 ∧
      b.instances <+: (c.baseModels depth above m args bases b).2.instances ∧
      ∀ model ∈ (c.baseModels depth above m args bases b).1,
        c.FieldsKnown (c.baseModels depth above m args bases b).2.instances model.fields := by
  intro bases
  induction bases with
  | nil => exact fun b hb _ => ⟨hb, List.prefix_rfl, fun _ h => absurd h List.not_mem_nil⟩
  | cons base rest ih =>
      intro b hb hargs
      rcases c.modelBase?_reads m args base b.instances hb.recorded hargs with
        ⟨hrecorded, hgrows, htypes⟩
      have hread := hb.mono hrecorded hgrows
      cases hbase : (c.modelBase? m args base b.instances).1 with
      | none =>
          rw [baseModels_of_none hbase]
          rcases ih _ hread (hargs.mono hgrows) with ⟨hlast, hgrows', hfields⟩
          exact ⟨hlast, hgrows.trans hgrows', hfields⟩
      | some applied =>
          rcases applied with ⟨x, types⟩
          rw [baseModels_of_some hbase]
          -- The model of the base is built first, and then those of the others.
          rcases hmodel x types _ hread (htypes _ hbase) with ⟨hbuilt, hgrows', hfirst⟩
          rcases ih _ hbuilt ((hargs.mono hgrows).mono hgrows') with ⟨hlast, hgrows'', hfields⟩
          refine ⟨hlast, hgrows.trans (hgrows'.trans hgrows''), ?_⟩
          intro model hmem
          rcases List.mem_append.1 hmem with hmem | hmem
          · exact (hfirst model (Option.mem_toList.1 hmem)).2.mono hgrows''
          · exact hfields model hmem

/-- The model of a class refers to known definitions, by induction on the steps that are left. -/
theorem model_grounds (depth : Nat) : ∀ (above : List DefinitionId) (id : DefinitionId)
    (args : TypeArgs), c.Grounds id args (c.model depth above id args) := by
  induction depth with
  | zero => exact fun _ _ _ b hb _ => ⟨hb, List.prefix_rfl, fun _ h => by cases h⟩
  | succ depth ih =>
      intro above id args b hb hargs
      cases hknown : (if args.isEmpty then b.finished.lookup id else none) with
      | some kept =>
          rw [model_of_known hknown]
          have hlookup : b.finished.lookup id = some kept := by
            split at hknown
            · exact hknown
            · cases hknown
          refine ⟨hb, List.prefix_rfl, ?_⟩
          intro model hmem
          cases hmem
          exact hb.finished id kept hlookup
      | none =>
          by_cases habove : id ∈ above
          · rw [model_of_above hknown habove]
            exact ⟨hb, List.prefix_rfl, fun _ h => by cases h⟩
          · cases hdecl : c.modules.classDecl? id with
            | none =>
                rw [model_of_no_class hknown habove hdecl]
                exact ⟨hb, List.prefix_rfl, fun _ h => by cases h⟩
            | some decl =>
                rcases decl with ⟨m, d⟩
                -- The bases are built first, and the fields are read on top of theirs.
                rw [model_of_class hknown habove hdecl]
                rcases baseModels_grounds (m := m) (ih (id :: above)) d.bases b hb hargs with
                  ⟨hbases, hgrows, hinherited⟩
                rcases c.fieldsOf_reads m id d args _ _ hbases.recorded
                  ⟨hargs.mono hgrows, hinherited⟩ with ⟨hrecorded, hgrows', hfields⟩
                have hassembled := hbases.mono hrecorded hgrows'
                dsimp only
                rw [assemble_eq]
                refine ⟨hassembled.remember rfl hfields, ?_, ?_⟩
                · rw [remember_instances]
                  exact hgrows.trans hgrows'
                · rw [remember_instances]
                  intro model hmem
                  cases hmem
                  exact ⟨rfl, hfields⟩

theorem modelOf_grounds (id : DefinitionId) (args : TypeArgs) :
    c.Grounds id args (c.modelOf id args) := model_grounds _ [] id args

/-! ## Referenced definitions -/

/-- A known definition is built under its identity, unless it is an enumeration. -/
theorem referenced_grounds (hdeclared : c.Declared) (id : DefinitionId) (hb : c.Grounded b) :
    c.Grounded (c.referenced id b).2 ∧ b.instances <+: (c.referenced id b).2.instances ∧
      (∀ model ∈ (c.referenced id b).1,
        model.id = id ∧ c.FieldsKnown (c.referenced id b).2.instances model.fields) ∧
      (c.Known b.instances id → (c.referenced id b).1 = none → (c.kind id).isEnum = true) := by
  cases hfind : b.instances.find? (·.id == id) with
  | some i =>
      have hi := List.mem_of_find?_eq_some hfind
      have hgeneric : c.kind i.generic ≠ .plain := by
        rw [hb.recorded.generic i hi]
        decide
      rcases Option.isSome_iff_exists.1 (hdeclared i.generic hgeneric) with ⟨⟨m, d⟩, hdecl⟩
      rw [referenced_of_instance hfind hdecl]
      rcases modelOf_grounds i.generic i.args b hb (hb.recorded.args i hi) with
        ⟨hbuilt, hgrows, hfields⟩
      rcases modelOf_isSome (hdeclared i.generic hgeneric) i.args b with ⟨built, hmodel⟩
      refine ⟨hbuilt, hgrows, ?_, ?_⟩
      · intro model hmem
        rw [hmodel] at hmem
        cases hmem
        exact ⟨rfl, (hfields built hmodel).2⟩
      · intro _ hnone
        rw [hmodel] at hnone
        cases hnone
  | none =>
      rw [referenced_of_no_instance hfind]
      by_cases hkind : c.kind id = .model
      · rw [if_pos hkind]
        rcases modelOf_grounds id [] b hb (fun _ h => absurd h List.not_mem_nil) with
          ⟨hbuilt, hgrows, hfields⟩
        have hplain : c.kind id ≠ .plain := by
          rw [hkind]
          decide
        rcases modelOf_isSome (hdeclared id hplain) [] b with ⟨built, hmodel⟩
        refine ⟨hbuilt, hgrows, hfields, fun _ hnone => ?_⟩
        rw [hmodel] at hnone
        cases hnone
      · rw [if_neg hkind]
        refine ⟨hb, List.prefix_rfl, fun _ h => by (cases h), fun hknown _ => ?_⟩
        -- The identity is not that of an instance, and not that of a model.
        rcases hknown with hmodel | henum | hinstance
        · exact absurd hmodel hkind
        · exact henum
        · rcases List.mem_map.1 hinstance with ⟨i, hi, hid⟩
          have hfalse := List.find?_eq_none.1 hfind i hi
          simp [hid] at hfalse

end

end ClassifiedProgram

end Resolution
end WireTypes
