import Mathlib

/-!
# SealedText — texts whose end can be seen

A text is read with a count of its open brackets, and with an eye on quotation marks. A sealed text
closes what it opens, and has no comma and no other closing bracket outside of brackets and strings.

- `Enclosed.bracketed`: sealed parts in brackets are a sealed text;
- `Sealed.eq_of_append`: where a sealed text ends can be seen from what follows;
- `joined_injective`: so sealed texts that are joined with commas can be told apart again.
-/

namespace WireTypes

inductive ReadingMode
  | plain
  | quoted
  /-- After a backslash inside quotation marks. -/
  | escaped
  deriving DecidableEq

/-- Where a text is being read: inside how many brackets, and whether in a string. -/
structure Cursor where
  depth : Nat
  mode : ReadingMode
  deriving DecidableEq

namespace Cursor

/-- After one more character, unless it is a comma or a closing bracket outside of all brackets. -/
def next? (r : Cursor) (ch : Char) : Option Cursor :=
  match r.mode with
  | .quoted =>
      some { r with mode := if ch = '"' then .plain else if ch = '\\' then .escaped else .quoted }
  | .escaped => some { r with mode := .quoted }
  | .plain =>
      if ch = '"' then some { r with mode := .quoted }
      else if ch = '[' then some { r with depth := r.depth + 1 }
      else if ch = ']' then if r.depth = 0 then none else some { r with depth := r.depth - 1 }
      else if ch = ',' then if r.depth = 0 then none else some r
      else some r

def read? (r : Cursor) (text : List Char) : Option Cursor := text.foldlM next? r

def deeper (r : Cursor) : Cursor := { r with depth := r.depth + 1 }

section

variable {r r' r'' : Cursor} {text more : List Char}

theorem read?_append (h : r.read? text = some r') : r.read? (text ++ more) = r'.read? more := by
  unfold read? at h ⊢
  rw [List.foldlM_append, h]
  rfl

theorem read?_cons {ch : Char} (h : r.next? ch = some r') :
    r.read? (ch :: text) = r'.read? text := by
  unfold read?
  rw [List.foldlM_cons, h]
  rfl

theorem next?_deeper {ch : Char} (h : r.next? ch = some r') :
    r.deeper.next? ch = some r'.deeper := by
  rcases r with ⟨depth, mode⟩
  cases mode with
  | quoted =>
      cases h
      rfl
  | escaped =>
      cases h
      rfl
  | plain =>
      simp only [next?, deeper] at h ⊢
      by_cases hquote : ch = '"'
      · rw [if_pos hquote] at h ⊢
        cases h
        rfl
      · rw [if_neg hquote] at h ⊢
        by_cases hopens : ch = '['
        · rw [if_pos hopens] at h ⊢
          cases h
          rfl
        · rw [if_neg hopens] at h ⊢
          -- A closing bracket or a comma needs an open bracket, and finds one more here.
          by_cases hcloses : ch = ']'
          · rw [if_pos hcloses] at h ⊢
            cases depth with
            | zero => cases h
            | succ depth =>
                cases h
                rfl
          · rw [if_neg hcloses] at h ⊢
            by_cases hcomma : ch = ','
            · rw [if_pos hcomma] at h ⊢
              cases depth with
              | zero => cases h
              | succ depth =>
                  cases h
                  rfl
            · rw [if_neg hcomma] at h ⊢
              cases h
              rfl

/-- A string goes on up to a quotation mark. -/
theorem read?_quoted {depth : Nat} (h : ∀ ch ∈ text, ch ≠ '"' ∧ ch ≠ '\\') :
    Cursor.read? ⟨depth, .quoted⟩ text = some ⟨depth, .quoted⟩ := by
  induction text with
  | nil => rfl
  | cons ch rest ih =>
      rcases h ch List.mem_cons_self with ⟨hquote, hbackslash⟩
      have hnext : Cursor.next? ⟨depth, .quoted⟩ ch = some ⟨depth, .quoted⟩ := by
        simp only [next?, if_neg hquote, if_neg hbackslash]
      exact (read?_cons hnext).trans (ih fun other hother => h other (List.mem_cons_of_mem _ hother))

/-- What is read is read the same way inside of one more pair of brackets. -/
theorem read?_deeper (h : r.read? text = some r') : r.deeper.read? text = some r'.deeper := by
  induction text generalizing r with
  | nil =>
      cases h
      rfl
  | cons ch rest ih =>
      cases hnext : r.next? ch with
      | none =>
          unfold read? at h
          rw [List.foldlM_cons, hnext] at h
          cases h
      | some next =>
          rw [read?_cons hnext] at h
          rw [read?_cons (next?_deeper hnext)]
          exact ih h

end

end Cursor

/-! ## Sealed texts -/

def Sealed (text : List Char) : Prop := Cursor.read? ⟨0, .plain⟩ text = some ⟨0, .plain⟩

/-- What can stand inside of brackets. -/
def Enclosed (text : List Char) : Prop := Cursor.read? ⟨1, .plain⟩ text = some ⟨1, .plain⟩

instance (text : List Char) : Decidable (Sealed text) :=
  inferInstanceAs (Decidable (Cursor.read? ⟨0, .plain⟩ text = some ⟨0, .plain⟩))

/-- A character without a meaning of its own. -/
def IsOrdinary (ch : Char) : Prop := ch ≠ '"' ∧ ch ≠ '[' ∧ ch ≠ ']' ∧ ch ≠ ','

/-- A text without brackets, commas and quotation marks. -/
def Ordinary (text : List Char) : Prop := ∀ ch ∈ text, IsOrdinary ch

instance (ch : Char) : Decidable (IsOrdinary ch) :=
  inferInstanceAs (Decidable (ch ≠ '"' ∧ ch ≠ '[' ∧ ch ≠ ']' ∧ ch ≠ ','))

instance (text : List Char) : Decidable (Ordinary text) := List.decidableBAll IsOrdinary text

section

variable {text more : List Char}

theorem Sealed.enclosed (h : Sealed text) : Enclosed text := Cursor.read?_deeper h

theorem Sealed.append (h : Sealed text) (h' : Sealed more) : Sealed (text ++ more) :=
  calc
    Cursor.read? ⟨0, .plain⟩ (text ++ more) = Cursor.read? ⟨0, .plain⟩ more := Cursor.read?_append h
    _ = some ⟨0, .plain⟩ := h'

theorem Enclosed.append (h : Enclosed text) (h' : Enclosed more) : Enclosed (text ++ more) :=
  calc
    Cursor.read? ⟨1, .plain⟩ (text ++ more) = Cursor.read? ⟨1, .plain⟩ more := Cursor.read?_append h
    _ = some ⟨1, .plain⟩ := h'

theorem Ordinary.bracket_not_mem (h : Ordinary text) : '[' ∉ text := fun hmem => (h '[' hmem).2.1 rfl

theorem Ordinary.isSealed (h : Ordinary text) : Sealed text := by
  induction text with
  | nil => rfl
  | cons ch rest ih =>
      rcases h ch List.mem_cons_self with ⟨hquote, hopens, hcloses, hcomma⟩
      have hnext : Cursor.next? ⟨0, .plain⟩ ch = some ⟨0, .plain⟩ := by
        simp only [Cursor.next?, if_neg hquote, if_neg hopens, if_neg hcloses, if_neg hcomma]
      exact (Cursor.read?_cons hnext).trans (ih fun other hother => h other (List.mem_cons_of_mem _ hother))

theorem Enclosed.bracketed (h : Enclosed text) : Sealed ('[' :: text ++ [']']) := by
  have hopens : Cursor.read? ⟨0, .plain⟩ ['['] = some ⟨1, .plain⟩ := rfl
  have hinner : Cursor.read? ⟨0, .plain⟩ ('[' :: text) = some ⟨1, .plain⟩ :=
    calc
      Cursor.read? ⟨0, .plain⟩ ('[' :: text) = Cursor.read? ⟨1, .plain⟩ text :=
        Cursor.read?_append hopens
      _ = some ⟨1, .plain⟩ := h
  exact Cursor.read?_append hinner

end

/-- A text up to its first bracket. -/
theorem eq_of_append_bracket {front other x y : List Char} (hfront : '[' ∉ front)
    (hother : '[' ∉ other) (h : front ++ '[' :: x = other ++ '[' :: y) : front = other ∧ x = y := by
  -- A bracket in one front would stand at the place of a character that is none.
  induction front generalizing other with
  | nil =>
      cases other with
      | nil => exact ⟨rfl, (List.cons.inj h).2⟩
      | cons ch rest =>
          have hch : '[' = ch := (List.cons.inj h).1
          exact absurd (hch ▸ List.mem_cons_self) hother
  | cons ch front ih =>
      cases other with
      | nil =>
          have hch : ch = '[' := (List.cons.inj h).1
          exact absurd (hch ▸ List.mem_cons_self) hfront
      | cons ch' other =>
          rcases List.cons.inj h with ⟨hch, hrest⟩
          have hboth := ih (fun hmem => hfront (List.mem_cons_of_mem _ hmem))
            (fun hmem => hother (List.mem_cons_of_mem _ hmem)) hrest
          exact ⟨by rw [hch, hboth.1], hboth.2⟩

/-! ## Parts -/

/-- Texts with a comma between them. -/
def joined (parts : List (List Char)) : List Char := [',', ' '].intercalate parts

/-- What comes after the first part. -/
def afterFirst (others : List (List Char)) : List Char :=
  match others with
  | [] => []
  | others => ',' :: ' ' :: joined others

section

variable {p q x y : List Char} {parts others : List (List Char)}

theorem joined_cons : joined (p :: parts) = p ++ afterFirst parts := by
  cases parts with
  | nil => simp [joined, afterFirst]
  | cons q rest => simp [joined, afterFirst]

theorem joined_eq_nil_iff (hparts : ∀ p ∈ parts, p ≠ []) : joined parts = [] ↔ parts = [] := by
  cases parts with
  | nil => simp [joined]
  | cons p rest =>
      have hp := hparts p List.mem_cons_self
      rw [joined_cons]
      simp [hp]

theorem enclosed_joined (h : ∀ p ∈ parts, Sealed p) : Enclosed (joined parts) := by
  induction parts with
  | nil => rfl
  | cons p rest ih =>
      have hp := (h p List.mem_cons_self).enclosed
      have hrest := ih fun q hq => h q (List.mem_cons_of_mem _ hq)
      have hcomma : Enclosed [',', ' '] := rfl
      rw [joined_cons]
      refine hp.append ?_
      cases rest with
      | nil => rfl
      | cons q rest => exact hcomma.append hrest

/-- What can follow a part. -/
def Follows (x : List Char) : Prop := ∀ ch ∈ x.head?, ch = ','

theorem not_sealed_of_follows (hp : Sealed p) (hx : Follows x) (hne : x ≠ []) : ¬ Sealed (p ++ x) := by
  intro h
  cases x with
  | nil => exact hne rfl
  | cons ch rest =>
      have hcomma : ch = ',' := hx ch rfl
      subst hcomma
      have hnone : Cursor.read? ⟨0, .plain⟩ (',' :: rest) = none := rfl
      have hread : Cursor.read? ⟨0, .plain⟩ (',' :: rest) = some ⟨0, .plain⟩ :=
        calc
          Cursor.read? ⟨0, .plain⟩ (',' :: rest) = Cursor.read? ⟨0, .plain⟩ (p ++ ',' :: rest) :=
            (Cursor.read?_append hp).symm
          _ = some ⟨0, .plain⟩ := h
      rw [hnone] at hread
      cases hread

/-- A sealed text ends where a comma or nothing follows, and not before. -/
theorem Sealed.eq_of_append (hp : Sealed p) (hq : Sealed q) (hx : Follows x) (hy : Follows y)
    (h : p ++ x = q ++ y) : p = q ∧ x = y := by
  -- If one text went on behind the other, it would hold the comma that follows this one.
  have hstart : ∀ {p q x y : List Char}, Sealed p → Sealed q → Follows x → ∀ z, q = p ++ z →
      x = z ++ y → z = [] := by
    intro p q x y hp hq hx z hqz hxz
    by_cases hz : z = []
    · exact hz
    · have hfollows : Follows z := by
        intro ch hch
        refine hx ch ?_
        rw [hxz, List.head?_append_of_ne_nil _ hz]
        exact hch
      rw [hqz] at hq
      exact absurd hq (not_sealed_of_follows hp hfollows hz)
  rcases List.append_eq_append_iff.1 h with ⟨z, hqz, hxz⟩ | ⟨z, hpz, hyz⟩
  · have hz := hstart hp hq hx z hqz hxz
    subst hz
    rw [List.append_nil] at hqz
    exact ⟨hqz.symm, hxz⟩
  · have hz := hstart hq hp hy z hpz hyz
    subst hz
    rw [List.append_nil] at hpz
    exact ⟨hpz, hyz.symm⟩

theorem follows_afterFirst (parts : List (List Char)) : Follows (afterFirst parts) := by
  intro ch hch
  cases parts with
  | nil => cases hch
  | cons p rest => exact (Option.some.inj hch).symm

/-- Sealed parts that are not empty can be told apart after they are joined. -/
theorem joined_injective (hparts : ∀ p ∈ parts, Sealed p ∧ p ≠ [])
    (hothers : ∀ q ∈ others, Sealed q ∧ q ≠ []) (h : joined parts = joined others) :
    parts = others := by
  induction parts generalizing others with
  | nil =>
      have hnil := (joined_eq_nil_iff fun q hq => (hothers q hq).2).1 h.symm
      exact hnil.symm
  | cons p parts ih =>
      cases others with
      | nil => exact (joined_eq_nil_iff fun r hr => (hparts r hr).2).1 h
      | cons q others =>
          rw [joined_cons, joined_cons] at h
          rcases (hparts p List.mem_cons_self).1.eq_of_append (hothers q List.mem_cons_self).1
            (follows_afterFirst parts) (follows_afterFirst others) h with ⟨hpq, hafter⟩
          -- After equal first parts both lists end, or both go on behind a comma.
          have hrest : joined parts = joined others := by
            cases parts with
            | nil =>
                cases others with
                | nil => rfl
                | cons _ _ => cases hafter
            | cons _ _ =>
                cases others with
                | nil => cases hafter
                | cons _ _ => simpa [afterFirst] using hafter
          rw [hpq, ih (fun r hr => hparts r (List.mem_cons_of_mem _ hr))
            (fun r hr => hothers r (List.mem_cons_of_mem _ hr)) hrest]

end

end WireTypes
