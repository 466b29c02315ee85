import WireTypes.Proofs.Resolution.Linearization
import WireTypes.Proofs.Schema.Namespace
import WireTypes.Proofs.Schema.Refusals

/-!
# Emission — which parts of a catalog a document is written from

The fields of the retained models are written, and those of the models that are written in place of a
reference. A type is written as a whole, except for the keys of dictionaries and for what stands behind
the first item of a list of any length.

- `FieldType.Emits`: the parts of a type that are written; `FieldType.IsKey`: the types of keys;
- `Inlines`, `Emitted`: which models are written in place, and which models are written at all;
- `Synthesizable`: what a document asks of its models and its catalog;
- `synthesizable_of_ok`: whatever has a document satisfies it.
-/

namespace WireTypes

/-! ## Parts of types -/

namespace FieldType

/-- The second type is a part of the first one that is written with it. -/
inductive Emits : FieldType → FieldType → Prop
  | self {ty : FieldType} : Emits ty ty
  | list {item ty : FieldType} : Emits item ty → Emits (.list item) ty
  | set {item ty : FieldType} : Emits item ty → Emits (.set item) ty
  | item {items : List FieldType} {item ty : FieldType} :
      item ∈ items → Emits item ty → Emits (.tuple items false) ty
  /-- Of a list of any length only the first item counts. -/
  | first {rest : List FieldType} {item ty : FieldType} :
      Emits item ty → Emits (.tuple (item :: rest) true) ty
  /-- The type of the keys is not written. -/
  | value {key value ty : FieldType} : Emits value ty → Emits (.dict key value) ty
  | optional {inner ty : FieldType} : Emits inner ty → Emits (.optional inner) ty
  | member {members : List FieldType} {member ty : FieldType} :
      member ∈ members → Emits member ty → Emits (.union members) ty

/-- Values of the type are written as strings when they are keys. -/
inductive IsKey (catalog : Catalog) : FieldType → Prop
  | any : IsKey catalog .any
  | scalar {ty : FieldType} {kind : Json.Kind} :
      ty.scalarKind? = some kind → kind ≠ .null → IsKey catalog ty
  | literal {values : List Json} : IsKey catalog (.literal values)
  | enum {id : DefinitionId} {e : Enumeration} :
      catalog.enum? id = some e → IsKey catalog (.ref id)
  | union {members : List FieldType} :
      (∀ ty ∈ members, IsKey catalog ty) → IsKey catalog (.union members)

end FieldType

namespace Schema
namespace Synthesis

section

variable {catalog : Catalog}

mutual

theorem isKey_of_isStringKey : ∀ ty : FieldType, isStringKey catalog ty = true → ty.IsKey catalog
  | .any, _ => .any
  | .bool, _ => .scalar rfl (by decide)
  | .int, _ => .scalar rfl (by decide)
  | .float, _ => .scalar rfl (by decide)
  | .str, _ => .scalar rfl (by decide)
  | .bytes, _ => .scalar rfl (by decide)
  | .decimal, _ => .scalar rfl (by decide)
  | .formatted _, _ => .scalar rfl (by decide)
  | .literal _, _ => .literal
  | .union members, h => .union (areKeys_of_areStringKeys members h)
  | .ref id, h => by
      rcases Option.isSome_iff_exists.1 h with ⟨e, he⟩
      exact .enum he
  | .null, h | .list _, h | .set _, h | .tuple _ _, h | .dict _ _, h | .optional _, h
  | .unresolved _, h => by cases h

theorem areKeys_of_areStringKeys : ∀ types : List FieldType, areStringKeys catalog types = true →
    ∀ ty ∈ types, ty.IsKey catalog
  | [], _ => fun _ hty => absurd hty List.not_mem_nil
  | first :: rest, h => by
      have hboth : isStringKey catalog first = true ∧ areStringKeys catalog rest = true :=
        Bool.and_eq_true_iff.1 h
      intro ty hty
      rcases List.mem_cons.1 hty with heq | hrest
      · exact heq ▸ isKey_of_isStringKey first hboth.1
      · exact areKeys_of_areStringKeys rest hboth.2 ty hrest

end

theorem areStringKeys_iff {types : List FieldType} :
    areStringKeys catalog types = true ↔ ∀ ty ∈ types, isStringKey catalog ty = true := by
  induction types with
  | nil => simp [areStringKeys]
  | cons ty rest ih => simp [areStringKeys, ih]

/-- The program finds the types of keys. -/
theorem isStringKey_iff {ty : FieldType} : isStringKey catalog ty = true ↔ ty.IsKey catalog := by
  refine ⟨isKey_of_isStringKey ty, fun h => ?_⟩
  induction h with
  | any => rfl
  | @scalar ty kind hkind hnull =>
      cases ty <;> first | rfl | cases hkind
      exact absurd rfl hnull
  | literal => rfl
  | enum he => exact Option.isSome_iff_exists.2 ⟨_, he⟩
  | union _ ih => exact areStringKeys_iff.2 ih

end

end Synthesis
end Schema

/-! ## Parts of models -/

/-- A field of the model has the type, or the type is a part of the type of a field. -/
def Model.Emits (m : Model) (ty : FieldType) : Prop := ∃ f ∈ m.fields, f.type.Emits ty

namespace Schema

section

variable {catalog : Catalog} {id : DefinitionId}

theorem id_of_model? {m : Model} (h : catalog.model? id = some m) : m.id = id := by
  simpa using List.find?_some h

theorem id_of_enum? {e : Enumeration} (h : catalog.enum? id = some e) : e.id = id := by
  simpa using List.find?_some h

end

section

variable (models : List Model) (catalog : Catalog)

def IsRetained (id : DefinitionId) : Prop := ∃ m ∈ models, m.id = id

/-- A model is written in place of a reference that is neither to a retained model nor to an
enumeration. -/
def Inlines (m inner : Model) : Prop :=
  ∃ id, m.Emits (.ref id) ∧ ¬ IsRetained models id ∧ catalog.enum? id = none ∧
    catalog.model? id = some inner

/-- The models whose fields are written: the retained ones, and those that are written in place. -/
inductive Emitted : Model → Prop
  | retained {m : Model} : m ∈ models → Emitted m
  | inlined {m inner : Model} : Emitted m → Inlines models catalog m inner → Emitted inner

/-- A reference to the enumeration is written. -/
def EmitsEnum (e : Enumeration) : Prop :=
  ∃ m id, Emitted models catalog m ∧ m.Emits (.ref id) ∧ ¬ IsRetained models id ∧
    catalog.enum? id = some e

/-- What a document asks of its models and its catalog. -/
structure Synthesizable : Prop where
  /-- No two retained models share a name. -/
  names : ∀ a ∈ models, ∀ b ∈ models, a.name = b.name → a.id = b.id
  resolved : ∀ m, Emitted models catalog m → ∀ name, ¬ m.Emits (.unresolved name)
  keys : ∀ m, Emitted models catalog m → ∀ key value, m.Emits (.dict key value) → key.IsKey catalog
  known : ∀ m, Emitted models catalog m → ∀ id, m.Emits (.ref id) →
    IsRetained models id ∨ id ∈ catalog.ids
  /-- No model is written inside itself. -/
  acyclic : ∀ m, Emitted models catalog m → ¬ Relation.TransGen (Inlines models catalog) m m
  /-- No two enumerations that are referred to share a name. -/
  enumNames : ∀ a b, EmitsEnum models catalog a → EmitsEnum models catalog b → a.name = b.name →
    a.id = b.id
  enumsApart : ∀ e, EmitsEnum models catalog e → ∀ m ∈ models, e.name ≠ m.name

end

/-- The model that is written in place is the one that the catalog has under its identity. -/
theorem Inlines.model? {models : List Model} {catalog : Catalog} {m inner : Model}
    (h : Inlines models catalog m inner) : catalog.model? inner.id = some inner := by
  rcases h with ⟨id, _, _, _, hmodel⟩
  exact id_of_model? hmodel ▸ hmodel

open Synthesis

/-! ## What is written of a type -/

section

variable {models : List Model} {catalog : Catalog} {o : Options} {t : State}

theorem lookup_retained_eq_none_iff {id : DefinitionId} :
    (contextOf models catalog o).retained.lookup id = none ↔ ¬ IsRetained models id := by
  constructor
  · rintro hnone ⟨m, hm, rfl⟩
    rcases exists_retained catalog o hm with ⟨name, hname⟩
    rw [hname] at hnone
    cases hnone
  · intro hfree
    cases hlookup : (contextOf models catalog o).retained.lookup id with
    | none => rfl
    | some name =>
        rcases mem_of_lookup_retained hlookup with ⟨m, hm, hid, _⟩
        exact absurd ⟨m, hm, hid⟩ hfree

end

section

variable {c : Context} {t : State}

theorem Synthesis.WrittenAll.of_mem {types : List FieldType} {js : List Json}
    (h : WrittenAll c t types js) {ty : FieldType} (hty : ty ∈ types) : ∃ j, Written c t ty j := by
  induction types generalizing js with
  | nil => cases hty
  | cons first rest ih =>
      cases h with
      | cons hfirst hrest =>
          rcases List.mem_cons.1 hty with rfl | hty
          · exact ⟨_, hfirst⟩
          · exact ih hrest hty

/-- With a type its parts are written. -/
theorem Synthesis.Written.part {ty part : FieldType} {j : Json} (h : Written c t ty j)
    (hpart : ty.Emits part) : ∃ k, Written c t part k := by
  induction hpart generalizing j with
  | self => exact ⟨j, h⟩
  | list _ ih =>
      cases h with
      | list hitem => exact ih hitem
      | scalar _ hkind _ => cases hkind
      | formatted hformat => cases hformat
  | set _ ih =>
      cases h with
      | set hitem => exact ih hitem
      | scalar _ hkind _ => cases hkind
      | formatted hformat => cases hformat
  | item hitem _ ih =>
      cases h with
      | tuple hitems =>
          rcases hitems.of_mem hitem with ⟨k, hk⟩
          exact ih hk
      | scalar _ hkind _ => cases hkind
      | formatted hformat => cases hformat
  | first _ ih =>
      cases h with
      | variadicCons hitem => exact ih hitem
      | scalar _ hkind _ => cases hkind
      | formatted hformat => cases hformat
  | value _ ih =>
      cases h with
      | dictOfAny _ => exact ih .any
      | dict _ hvalue => exact ih hvalue
      | scalar _ hkind _ => cases hkind
      | formatted hformat => cases hformat
  | optional _ ih =>
      cases h with
      | optional hinner => exact ih hinner
      | scalar _ hkind _ => cases hkind
      | formatted hformat => cases hformat
  | member hmember _ ih =>
      cases h with
      | union hmembers =>
          rcases hmembers.of_mem hmember with ⟨k, hk⟩
          exact ih hk
      | scalar _ hkind _ => cases hkind
      | formatted hformat => cases hformat

/-- What a reference is written as. -/
theorem Synthesis.Written.reference {id : DefinitionId} {j : Json} (h : Written c t (.ref id) j) :
    (∃ name, c.retained.lookup id = some name) ∨
      (∃ e, c.catalog.enum? id = some e ∧ t.owners.lookup e.name = some id) ∨
      c.catalog.enum? id = none ∧ ∃ m, c.catalog.model? id = some m ∧ WrittenModel c t false m j := by
  cases h with
  | scalar _ hkind _ => cases hkind
  | formatted hformat => cases hformat
  | retained hretained => exact Or.inl ⟨_, hretained⟩
  | enum _ henum howner _ => exact Or.inr (Or.inl ⟨_, henum, howner⟩)
  | inlined _ henum hmodel hwritten => exact Or.inr (Or.inr ⟨henum, _, hmodel, hwritten⟩)

theorem Synthesis.WrittenModel.field {titled : Bool} {m : Model} {j : Json}
    (h : WrittenModel c t titled m j) {f : Field} (hf : f ∈ m.fields) :
    ∃ k, Written c t f.type k := by
  cases h with
  | object hfields =>
      rcases hfields.mem.2 f hf with ⟨k, _, hfield⟩
      cases hfield with
      | optional hty hinner =>
          rw [hty]
          exact ⟨_, .optional hinner⟩
      | plain _ htype => exact ⟨_, htype⟩

/-- With a model the parts of its fields are written. -/
theorem Synthesis.WrittenModel.part {titled : Bool} {m : Model} {j : Json}
    (h : WrittenModel c t titled m j) {ty : FieldType} (hty : m.Emits ty) :
    ∃ k, Written c t ty k := by
  rcases hty with ⟨f, hf, hemits⟩
  rcases h.field hf with ⟨k, hk⟩
  exact hk.part hemits

/-! ## Models inside each other -/

/-- A model is written in place of a reference in the type. -/
def Inserts (c : Context) (ty : FieldType) (inner : Model) : Prop :=
  ∃ id, ty.Emits (.ref id) ∧ c.retained.lookup id = none ∧ c.catalog.enum? id = none ∧
    c.catalog.model? id = some inner

/-- No model is written inside itself, however deep: going from a model to those inside it ends. -/
def Ends (c : Context) (m : Model) : Prop :=
  Acc (fun inner outer : Model => ∃ f ∈ outer.fields, Inserts c f.type inner) m

mutual

theorem Synthesis.Written.ends : ∀ {ty : FieldType} {j : Json}, Written c t ty j →
    ∀ inner, Inserts c ty inner → Ends c inner
  | _, _, .any, _, ⟨_, hemits, _⟩ => by cases hemits
  | _, _, .scalar _ hkind _, _, ⟨_, hemits, _⟩ => by cases hemits <;> cases hkind
  | _, _, .formatted hformat, _, ⟨_, hemits, _⟩ => by cases hemits <;> cases hformat
  | _, _, .list hitem, inner, ⟨id, hemits, hlookups⟩ => by
      cases hemits with
      | list h => exact hitem.ends inner ⟨id, h, hlookups⟩
  | _, _, .set hitem, inner, ⟨id, hemits, hlookups⟩ => by
      cases hemits with
      | set h => exact hitem.ends inner ⟨id, h, hlookups⟩
  | _, _, .variadicNil, _, ⟨_, hemits, _⟩ => by cases hemits
  | _, _, .variadicCons hitem, inner, ⟨id, hemits, hlookups⟩ => by
      cases hemits with
      | first h => exact hitem.ends inner ⟨id, h, hlookups⟩
  | _, _, .tuple hitems, inner, ⟨id, hemits, hlookups⟩ => by
      cases hemits with
      | item hmem h => exact hitems.ends _ hmem inner ⟨id, h, hlookups⟩
  | _, _, .dictOfAny _, _, ⟨_, hemits, _⟩ => by
      cases hemits with
      | value h => cases h
  | _, _, .dict _ hvalue, inner, ⟨id, hemits, hlookups⟩ => by
      cases hemits with
      | value h => exact hvalue.ends inner ⟨id, h, hlookups⟩
  | _, _, .optional hinner, inner, ⟨id, hemits, hlookups⟩ => by
      cases hemits with
      | optional h => exact hinner.ends inner ⟨id, h, hlookups⟩
  | _, _, .union hmembers, inner, ⟨id, hemits, hlookups⟩ => by
      cases hemits with
      | member hmem h => exact hmembers.ends _ hmem inner ⟨id, h, hlookups⟩
  | _, _, .literal, _, ⟨_, hemits, _⟩ => by cases hemits
  | _, _, .retained hretained, _, ⟨_, hemits, hfree, _⟩ => by
      cases hemits
      rw [hretained] at hfree
      cases hfree
  | _, _, .enum _ henum _ _, _, ⟨_, hemits, _, hnone, _⟩ => by
      cases hemits
      rw [henum] at hnone
      cases hnone
  | _, _, .inlined _ _ hmodel hwritten, inner, ⟨_, hemits, _, _, hinner⟩ => by
      cases hemits
      have heq : _ = inner := Option.some.inj (hmodel.symm.trans hinner)
      exact heq ▸ hwritten.ends

theorem Synthesis.WrittenAll.ends : ∀ {types : List FieldType} {js : List Json},
    WrittenAll c t types js → ∀ ty ∈ types, ∀ inner, Inserts c ty inner → Ends c inner
  | _, _, .nil => fun _ hty => absurd hty List.not_mem_nil
  | _, _, .cons hfirst hrest => fun ty hty => by
      rcases List.mem_cons.1 hty with heq | hty
      · exact heq ▸ hfirst.ends
      · exact hrest.ends ty hty

theorem Synthesis.WrittenField.ends : ∀ {f : Field} {j : Json}, WrittenField c t f j →
    ∀ inner, Inserts c f.type inner → Ends c inner
  | _, _, .optional hty hinner, inner, ⟨id, hemits, hlookups⟩ => by
      rw [hty] at hemits
      cases hemits with
      | optional h => exact hinner.ends inner ⟨id, h, hlookups⟩
  | _, _, .plain _ htype, inner, hinserts => htype.ends inner hinserts

theorem Synthesis.WrittenFields.ends : ∀ {fields : List Field} {props : List (String × Json)},
    WrittenFields c t fields props → ∀ f ∈ fields, ∀ inner, Inserts c f.type inner → Ends c inner
  | _, _, .nil => fun _ hf => absurd hf List.not_mem_nil
  | _, _, .cons hfield hrest => fun f hf => by
      rcases List.mem_cons.1 hf with heq | hf
      · exact heq ▸ hfield.ends
      · exact hrest.ends f hf

theorem Synthesis.WrittenModel.ends : ∀ {titled : Bool} {m : Model} {j : Json},
    WrittenModel c t titled m j → Ends c m
  | _, _, _, .object hfields => .intro _ fun inner ⟨f, hf, hinserts⟩ =>
      hfields.ends f hf inner hinserts

end

end

/-! ## What a document asks for -/

section

variable {models : List Model} {catalog : Catalog} {o : Options} {t : State}

theorem inlines_iff {m inner : Model} :
    Inlines models catalog m inner ↔
      ∃ f ∈ m.fields, Inserts (contextOf models catalog o) f.type inner := by
  constructor
  · rintro ⟨id, ⟨f, hf, hemits⟩, hfree, hlookups⟩
    exact ⟨f, hf, id, hemits, lookup_retained_eq_none_iff.2 hfree, hlookups⟩
  · rintro ⟨f, hf, id, hemits, hfree, hlookups⟩
    exact ⟨id, ⟨f, hf, hemits⟩, lookup_retained_eq_none_iff.1 hfree, hlookups⟩

/-- From a model that ends no way leads back to it. -/
theorem Ends.acyclic {m : Model} (h : Ends (contextOf models catalog o) m) :
    ¬ Relation.TransGen (Inlines models catalog) m m := by
  intro hcycle
  have hinserts : Relation.TransGen
      (fun outer inner => ∃ f ∈ outer.fields, Inserts (contextOf models catalog o) f.type inner) m m :=
    hcycle.lift id fun _ _ => inlines_iff.1
  exact Resolution.not_transGen_self h (Relation.transGen_swap.1 hinserts)

theorem Synthesis.Defines.exists_written {c : Context} {schemas : List (String × Json)}
    (h : Defines c t models schemas) {m : Model} (hm : m ∈ models) :
    ∃ j, WrittenModel c t true m j := by
  induction h with
  | nil => cases hm
  | cons hfirst _ ih =>
      rcases List.mem_cons.1 hm with rfl | hm
      · exact ⟨_, hfirst.2⟩
      · exact ih hm

variable {schemas : List (String × Json)}
  (hdefines : Defines (contextOf models catalog o) t models schemas)

include hdefines

/-- All models that are to be written are. -/
theorem Emitted.written {m : Model} (h : Emitted models catalog m) :
    ∃ titled j, WrittenModel (contextOf models catalog o) t titled m j := by
  induction h with
  | retained hm =>
      rcases hdefines.exists_written hm with ⟨j, hj⟩
      exact ⟨true, j, hj⟩
  | inlined _ hinlines ih =>
      rcases ih with ⟨_, _, houter⟩
      rcases hinlines with ⟨id, hemits, hfree, henum, hmodel⟩
      rcases houter.part hemits with ⟨k, hk⟩
      rcases hk.reference with ⟨name, hname⟩ | ⟨e, he, _⟩ | ⟨_, m, hm, hwritten⟩
      · cases (lookup_retained_eq_none_iff.2 hfree).symm.trans hname
      · cases henum.symm.trans he
      · have heq := Option.some.inj (hm.symm.trans hmodel)
        exact ⟨false, k, heq ▸ hwritten⟩

/-- An enumeration that is referred to owns its name in the end. -/
theorem EmitsEnum.owner {e : Enumeration} (h : EmitsEnum models catalog e) :
    t.owners.lookup e.name = some e.id ∧ ¬ IsRetained models e.id := by
  rcases h with ⟨m, id, hm, hemits, hfree, henum⟩
  rcases hm.written hdefines with ⟨_, _, hwritten⟩
  rcases hwritten.part hemits with ⟨k, hk⟩
  rw [id_of_enum? henum]
  refine ⟨?_, hfree⟩
  rcases hk.reference with ⟨name, hname⟩ | ⟨e', he, howner⟩ | ⟨hnone, _⟩
  · cases (lookup_retained_eq_none_iff.2 hfree).symm.trans hname
  · have heq := Option.some.inj (he.symm.trans henum)
    exact heq ▸ howner
  · cases henum.symm.trans hnone

omit hdefines

/-- Whatever has a document satisfies what a document asks for. -/
theorem synthesizable_of_ok {doc : Document} (h : synthesize models catalog o = .ok doc) :
    Synthesizable models catalog := by
  rcases synthesize_ok h with ⟨t, schemas, _, howners, hdefines, _⟩
  have hpart : ∀ m, Emitted models catalog m → ∀ ty, m.Emits ty →
      ∃ k, Written (contextOf models catalog o) t ty k := by
    intro m hm ty hty
    rcases hm.written hdefines with ⟨_, _, hwritten⟩
    exact hwritten.part hty
  constructor
  case names =>
    intro a ha b hb hname
    have hb := howners b hb
    rw [← hname, howners a ha] at hb
    exact Option.some.inj hb
  case resolved =>
    intro m hm name hemits
    rcases hpart m hm _ hemits with ⟨k, hk⟩
    cases hk with
    | scalar _ hkind _ => cases hkind
    | formatted hformat => cases hformat
  case keys =>
    intro m hm key value hemits
    rcases hpart m hm _ hemits with ⟨k, hk⟩
    cases hk with
    | scalar _ hkind _ => cases hkind
    | formatted hformat => cases hformat
    | dictOfAny hkey => exact isStringKey_iff.1 hkey
    | dict hkey _ => exact isStringKey_iff.1 hkey
  case known =>
    intro m hm id hemits
    rcases hpart m hm _ hemits with ⟨k, hk⟩
    rcases hk.reference with ⟨name, hname⟩ | ⟨e, he, _⟩ | ⟨_, inner, hinner, _⟩
    · rcases mem_of_lookup_retained hname with ⟨r, hr, hid, _⟩
      exact Or.inl ⟨r, hr, hid⟩
    · have hmem : e ∈ catalog.enums := List.mem_of_find?_eq_some he
      exact Or.inr (List.mem_append_right _ (List.mem_map.2 ⟨e, hmem, id_of_enum? he⟩))
    · exact Or.inr (List.mem_append_left _
        (List.mem_map.2 ⟨inner, model?_mem hinner, id_of_model? hinner⟩))
  case acyclic =>
    intro m hm
    rcases hm.written hdefines with ⟨_, _, hwritten⟩
    exact hwritten.ends.acyclic
  case enumNames =>
    intro a b ha hb hname
    have hb := (hb.owner hdefines).1
    rw [← hname, (ha.owner hdefines).1] at hb
    exact Option.some.inj hb
  case enumsApart =>
    intro e he m hm hname
    rcases he.owner hdefines with ⟨howner, hfree⟩
    rw [hname, howners m hm] at howner
    exact hfree ⟨m, hm, Option.some.inj howner⟩

end

end Schema
end WireTypes
