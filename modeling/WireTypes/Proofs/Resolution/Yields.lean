import Mathlib.Data.List.Forall2
import Mathlib.Data.Option.Basic
import WireTypes.Proofs.Resolution.Settling

/-!
# Yields — what is read while the table has room

What is read depends on the table of instances only when the table fills up. As long as there is room for
further instances, an annotation is read as one type, whatever was recorded before.

- `Yields act a`: reading gives `a` and leaves room in the table;
- `Upholds P Q act`: instances that are `P` stay so, and what is read with them is `Q`;
- `Quiet act`: reading records nothing;
- `Relates R x y`: two readings give results that are related whenever both leave room;
- `Applying.relates_self`: a reading gives the same result from all tables with room;
- `Relates.bind`, `relates_mapM`, `relates_filterMapM`: readings that are put together from related ones
  are related.
-/

namespace WireTypes
namespace Resolution

open Discovery Python

/-- Further instances can be recorded. -/
def HasRoom (known : List Instance) : Prop := known.length < instanceLimit

theorem hasRoom_nil : HasRoom [] := Nat.zero_lt_succ _

theorem HasRoom.of_later {s t : List Instance} (ht : HasRoom t) (h : Later s t) : HasRoom s :=
  Nat.lt_of_le_of_lt h.grows.length_le ht

variable {α β γ δ : Type}

/-- Reading gives the result with room left in the table. -/
def Yields (act : Resolving α) (a : α) : Prop := ∃ s, HasRoom (act s).2 ∧ (act s).1 = a

/-- Where all instances that were recorded have a property, those that are recorded have it, and what is
read has another one. -/
def Upholds (P : Instance → Prop) (Q : α → Prop) (act : Resolving α) : Prop :=
  ∀ s, (∀ i ∈ s, P i) → (∀ i ∈ (act s).2, P i) ∧ Q (act s).1

/-- What is read from any table has a property. -/
def Always (P : α → Prop) (act : Resolving α) : Prop := ∀ s, P (act s).1

/-- Nothing is recorded. -/
def Quiet (act : Resolving α) : Prop := ∀ s, (act s).2 = s

/-- What one reading gives is related to what another one gives, each from a table that has room for it. -/
def Relates (R : α → β → Prop) (x : Resolving α) (y : Resolving β) : Prop :=
  ∀ a b, Yields x a → Yields y b → R a b

/-! ## Results -/

namespace Yields

theorem of_run {act : Resolving α} {s : List Instance} (h : HasRoom (act s).2) :
    Yields act (act s).1 := ⟨s, h, rfl⟩

theorem pure (a : α) : Yields (Pure.pure a) a := ⟨[], hasRoom_nil, rfl⟩

theorem of_eq {act : Resolving α} {a : α} (h : act = Pure.pure a) : Yields act a := h ▸ .pure a

theorem eq_of_pure {a b : α} (h : Yields (Pure.pure a : Resolving α) b) : b = a := by
  rcases h with ⟨_, _, rfl⟩
  rfl

/-- A reading in two steps: there was room after the first one too. -/
theorem of_bind {x : Resolving α} {f : α → Resolving β} {b : β} (hf : ∀ a, Settles (f a))
    (h : Yields (x >>= f) b) : ∃ a, Yields x a ∧ Yields (f a) b := by
  rcases h with ⟨s, hroom, rfl⟩
  have hlater := (hf (x s).1 (x s).2).1
  exact ⟨(x s).1, .of_run (hroom.of_later hlater), .of_run hroom⟩

theorem of_always {P : α → Prop} {act : Resolving α} {a : α} (h : Yields act a) (hall : Always P act) :
    P a := by
  rcases h with ⟨s, _, rfl⟩
  exact hall s

end Yields

namespace Upholds

variable {P : Instance → Prop} {Q : α → Prop} {R : β → Prop}

theorem pure {a : α} (h : Q a) : Upholds P Q (Pure.pure a) := fun _ hs => ⟨hs, h⟩

theorem bind {x : Resolving α} {f : α → Resolving β} (hx : Upholds P Q x)
    (hf : ∀ a, Q a → Upholds P R (f a)) : Upholds P R (x >>= f) := by
  intro s hs
  rcases hx s hs with ⟨hnext, ha⟩
  exact hf _ ha _ hnext

theorem map {x : Resolving α} {f : α → β} (hx : Upholds P Q x) (hf : ∀ a, Q a → R (f a)) :
    Upholds P R (f <$> x) := hx.bind fun a ha => .pure (hf a ha)

theorem mapM {f : α → Resolving β} (hf : ∀ a, Upholds P R (f a)) :
    ∀ as : List α, Upholds P (fun bs => ∀ b ∈ bs, R b) (as.mapM f)
  | [] => .pure fun _ h => absurd h List.not_mem_nil
  | a :: rest => by
      rw [List.mapM_cons]
      exact (hf a).bind fun b hb => (mapM hf rest).bind fun bs hbs =>
        .pure (List.forall_mem_cons.2 ⟨hb, hbs⟩)

theorem filterMapM {f : α → Resolving (Option β)} {as : List α}
    (hf : ∀ a ∈ as, Upholds P (fun b? => ∀ b, b? = some b → R b) (f a)) :
    Upholds P (fun bs => ∀ b ∈ bs, R b) (as.filterMapM f) := by
  induction as with
  | nil => exact .pure fun _ h => absurd h List.not_mem_nil
  | cons a rest ih =>
      have hrest := ih fun x hx => hf x (List.mem_cons_of_mem _ hx)
      rw [List.filterMapM_cons]
      refine (hf a List.mem_cons_self).bind fun first hfirst => ?_
      cases first with
      | none => exact hrest
      | some b =>
          exact hrest.map fun bs hbs => List.forall_mem_cons.2 ⟨hfirst b rfl, hbs⟩

end Upholds

/-- What is always read is read whatever instances there are. -/
theorem always_iff_upholds {Q : α → Prop} {act : Resolving α} :
    Always Q act ↔ Upholds (fun _ => True) Q act :=
  ⟨fun h s _ => ⟨fun _ _ => trivial, h s⟩, fun h s => (h s fun _ _ => trivial).2⟩

namespace Always

variable {P : α → Prop} {Q : β → Prop}

theorem pure {a : α} (h : P a) : Always P (Pure.pure a) := fun _ => h

theorem bind {x : Resolving α} {f : α → Resolving β} (hx : Always P x)
    (hf : ∀ a, P a → Always Q (f a)) : Always Q (x >>= f) := fun s => hf _ (hx s) _

theorem mapM {f : α → Resolving β} (hf : ∀ a, Always Q (f a)) (as : List α) :
    Always (fun bs => ∀ b ∈ bs, Q b) (as.mapM f) :=
  always_iff_upholds.2 (Upholds.mapM (fun a => always_iff_upholds.1 (hf a)) as)

theorem filterMapM {f : α → Resolving (Option β)} {as : List α}
    (hf : ∀ a ∈ as, Always (fun b? => ∀ b, b? = some b → Q b) (f a)) :
    Always (fun bs => ∀ b ∈ bs, Q b) (as.filterMapM f) :=
  always_iff_upholds.2 (Upholds.filterMapM fun a ha => always_iff_upholds.1 (hf a ha))

end Always

namespace Quiet

theorem pure (a : α) : Quiet (Pure.pure a) := fun _ => rfl

theorem bind {x : Resolving α} {f : α → Resolving β} (hx : Quiet x) (hf : ∀ a, Quiet (f a)) :
    Quiet (x >>= f) := fun s => (hf (x s).1 (x s).2).trans (hx s)

theorem map {x : Resolving α} (hx : Quiet x) (f : α → β) : Quiet (f <$> x) :=
  hx.bind fun _ => .pure _

theorem mapM {f : α → Resolving β} {as : List α} (hf : ∀ a ∈ as, Quiet (f a)) : Quiet (as.mapM f) := by
  induction as with
  | nil => exact .pure []
  | cons a rest ih =>
      rw [List.mapM_cons]
      exact (hf a List.mem_cons_self).bind fun _ =>
        (ih fun x hx => hf x (List.mem_cons_of_mem _ hx)).map _

theorem filterMapM {f : α → Resolving (Option β)} {as : List α} (hf : ∀ a ∈ as, Quiet (f a)) :
    Quiet (as.filterMapM f) := by
  induction as with
  | nil => exact .pure []
  | cons a rest ih =>
      have hrest := ih fun x hx => hf x (List.mem_cons_of_mem _ hx)
      rw [List.filterMapM_cons]
      refine (hf a List.mem_cons_self).bind fun first => ?_
      cases first with
      | none => exact hrest
      | some b => exact hrest.map _

end Quiet

/-! ## Two readings -/

namespace Relates

variable {R : α → β → Prop} {S : γ → δ → Prop}

theorem pure {a : α} {b : β} (h : R a b) : Relates R (Pure.pure a) (Pure.pure b) := by
  intro a' b' ha hb
  rw [ha.eq_of_pure, hb.eq_of_pure]
  exact h

theorem bind {x : Resolving α} {y : Resolving β} {f : α → Resolving γ} {g : β → Resolving δ}
    (hx : Relates R x y) (hf : ∀ a, Settles (f a)) (hg : ∀ b, Settles (g b))
    (hfg : ∀ a b, R a b → Relates S (f a) (g b)) : Relates S (x >>= f) (y >>= g) := by
  intro c d hc hd
  rcases hc.of_bind hf with ⟨a, ha, hc⟩
  rcases hd.of_bind hg with ⟨b, hb, hd⟩
  exact hfg a b (hx a b ha hb) c d hc hd

theorem bind_pure {x : Resolving α} {y : Resolving β} {f : α → γ} {g : β → δ} (hx : Relates R x y)
    (hfg : ∀ a b, R a b → S (f a) (g b)) :
    Relates S (x >>= fun a => Pure.pure (f a)) (y >>= fun b => Pure.pure (g b)) :=
  hx.bind (fun _ => .pure _) (fun _ => .pure _) fun a b h => .pure (hfg a b h)

theorem map {x : Resolving α} {y : Resolving β} {f : α → γ} {g : β → δ} (hx : Relates R x y)
    (hfg : ∀ a b, R a b → S (f a) (g b)) : Relates S (f <$> x) (g <$> y) := hx.bind_pure hfg

end Relates

namespace ClassifiedProgram

variable {c : ClassifiedProgram}

/-- A generic model that is applied is a reference to the instance. -/
theorem eq_of_apply {generic : DefinitionId} {types : List FieldType} {ty : FieldType}
    (h : Yields (c.apply generic types) ty) : ty = .ref (instanceId generic types) := by
  rcases h with ⟨s, hroom, rfl⟩
  rw [apply_eq] at hroom ⊢
  split at hroom
  · next hknown => rw [if_pos hknown]
  · next hknown =>
      split at hroom
      -- A full table has no room.
      · next hfull => exact absurd hroom (Nat.not_lt.2 hfull)
      · next hfull => rw [if_neg hknown, if_neg hfull]

theorem Applying.relates_self {act : Resolving α} (h : c.Applying act) : Relates Eq act act := by
  induction h with
  | pure a => exact .pure rfl
  | bind _ hf ihx ihf =>
      refine ihx.bind (fun a => (hf a).settles) (fun a => (hf a).settles) ?_
      rintro a _ rfl
      exact ihf a
  | apply generic types _ => exact fun _ _ h h' => (eq_of_apply h).trans (eq_of_apply h').symm

/-! ## Lists of readings -/

section

variable {R : γ → δ → Prop} {f : α → Resolving γ} {g : β → Resolving δ}
  (hf : ∀ a, c.Applying (f a)) (hg : ∀ b, c.Applying (g b))

include hf hg

theorem relates_mapM {as : List α} {bs : List β}
    (h : List.Forall₂ (fun a b => Relates R (f a) (g b)) as bs) :
    Relates (List.Forall₂ R) (as.mapM f) (bs.mapM g) := by
  induction h with
  | nil => exact .pure .nil
  | @cons a b as bs hab _ ih =>
      rw [List.mapM_cons, List.mapM_cons]
      refine hab.bind (fun x => ?_) (fun y => ?_) fun x y hxy => ih.map fun _ _ hrest => .cons hxy hrest
      · exact ((Applying.mapM hf as).map _).settles
      · exact ((Applying.mapM hg bs).map _).settles

/-- Each reading on the left is related to several ones on the right. -/
theorem relates_mapM_flatten {R : γ → List δ → Prop} {as : List α} {bss : List (List β)}
    (h : List.Forall₂ (fun a bs => Relates R (f a) (bs.mapM g)) as bss) :
    Relates (fun xs ys => ∃ yss, ys = yss.flatten ∧ List.Forall₂ R xs yss) (as.mapM f)
      (bss.flatten.mapM g) := by
  induction h with
  | nil => exact .pure ⟨[], rfl, .nil⟩
  | @cons a bs as bss hab _ ih =>
      rw [List.mapM_cons, List.flatten_cons, List.mapM_append]
      refine hab.bind (fun x => ?_) (fun y => ?_) fun x ys hxy => ih.map ?_
      · exact ((Applying.mapM hf as).map _).settles
      · exact ((Applying.mapM hg bss.flatten).map _).settles
      · rintro xs _ ⟨yss, rfl, hrest⟩
        exact ⟨ys :: yss, rfl, .cons hxy hrest⟩

end

section

variable {f : α → Resolving (Option γ)} {g : β → Resolving (Option δ)}
  (hf : ∀ a, c.Applying (f a)) (hg : ∀ b, c.Applying (g b))

include hf

theorem settles_filterMapM_tail (as : List α) (first : Option γ) :
    Settles (match first with
      | none => as.filterMapM f
      | some x => do
          let rest ← as.filterMapM f
          return x :: rest) := by
  cases first with
  | none => exact (Applying.filterMapM hf as).settles
  | some x => exact ((Applying.filterMapM hf as).bind fun _ => .pure _).settles

/-- Readings that give nothing are left out. -/
theorem relates_filterMapM_drop {S : List γ → δ → Prop} {a : α} {as : List α} {y : Resolving δ}
    (hnone : Always (· = none) (f a)) (h : Relates S (as.filterMapM f) y) :
    Relates S ((a :: as).filterMapM f) y := by
  intro xs b hxs hb
  rw [List.filterMapM_cons] at hxs
  rcases hxs.of_bind (settles_filterMapM_tail hf as) with ⟨first, hfirst, hxs⟩
  rw [hfirst.of_always hnone] at hxs
  exact h xs b hxs hb

include hg

theorem relates_filterMapM_cons {R : γ → δ → Prop} {a : α} {b : β} {as : List α} {bs : List β}
    (hab : Relates (Option.Rel R) (f a) (g b))
    (h : Relates (List.Forall₂ R) (as.filterMapM f) (bs.filterMapM g)) :
    Relates (List.Forall₂ R) ((a :: as).filterMapM f) ((b :: bs).filterMapM g) := by
  rw [List.filterMapM_cons, List.filterMapM_cons]
  refine hab.bind (settles_filterMapM_tail hf as) (settles_filterMapM_tail hg bs) ?_
  intro x y hxy
  cases hxy with
  | none => exact h
  | some hxy => exact h.map fun _ _ hrest => .cons hxy hrest

theorem relates_filterMapM {R : γ → δ → Prop} {as : List α} {bs : List β}
    (h : List.Forall₂ (fun a b => Relates (Option.Rel R) (f a) (g b)) as bs) :
    Relates (List.Forall₂ R) (as.filterMapM f) (bs.filterMapM g) := by
  induction h with
  | nil => exact .pure .nil
  | cons hab _ ih => exact relates_filterMapM_cons hf hg hab ih

end

end ClassifiedProgram

end Resolution
end WireTypes
