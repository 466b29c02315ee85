import WireTypes.Proofs.Python.TokenText
import WireTypes.Python.TypeHint

/-!
# Quoted text — a string that is written is shorter than the text

A text that is read as a string consists of string tokens, perhaps in parentheses. They stand at its
beginning, so that the terms that are read are followed by the first token only.

- `Opens ts t`: if the term is a string, its tokens are among the ones that are left;
- `Begins Q r`: what the reading gives has the property, with the tokens that are left before it;
- `element_opens`, `statement_opens`: so terms and statements are read;
- `length_parse_str`: so the text of a forward reference is longer than the one that is written in it.
-/

namespace WireTypes
namespace Python

/-! ## Strings among terms -/

/-- The tokens of a string, perhaps in parentheses. -/
def Term.strings? : Term → Option (List String)
  | .string tokens _ => some tokens
  | .group inner => inner.strings?
  | _ => Option.none

/-- If the term is a string, its tokens are some of the given ones. -/
def Opens (ts : List String) (t : Term) : Prop :=
  ∀ tokens, t.strings? = some tokens → tokens ≠ [] ∧ tokens.Sublist ts

theorem opens_of_none {t : Term} (h : t.strings? = none) (ts : List String) : Opens ts t := by
  intro tokens htokens
  rw [h] at htokens
  cases htokens

theorem Opens.later {ts : List String} {t : Term} (h : Opens ts t) (token : String) :
    Opens (token :: ts) t := fun tokens htokens =>
  ⟨(h tokens htokens).1, (h tokens htokens).2.cons token⟩

namespace TypeHint

theorem negated_ne_str {operator text s : String} {operand : TypeHint} :
    negated operator operand text ≠ .str s := by
  unfold negated
  split <;> exact nofun

/-- Only strings are read as strings. -/
theorem strings?_of_str {s : String} : ∀ t : Term, ofTerm t = .str s →
    ∃ tokens, t.strings? = some tokens ∧ decodeStrings? tokens = some s
  | .string tokens text, h => by
      simp only [ofTerm] at h
      split at h
      · next hdecode =>
          cases h
          exact ⟨tokens, rfl, hdecode⟩
      · cases h
  | .group inner, h => by
      simp only [ofTerm] at h
      exact strings?_of_str inner h
  | .integer text, h => by
      simp only [ofTerm] at h
      split at h <;> cases h
  | .unary operator operand text, h => by
      simp only [ofTerm] at h
      exact absurd h negated_ne_str
  | .binary operator left right text, h => by
      simp only [ofTerm] at h
      split at h <;> cases h
  | .identifier _, h | .attribute _, h | .float _, h | .boolean _, h | .none, h | .ellipsis, h
  | .list _, h | .set _ _, h | .tuple _ _, h | .dict _ _, h | .call _ _ _ _ _, h
  | .subscript _ _, h | .union _, h | .starred _ _, h | .other _, h => by
      simp only [ofTerm] at h
      cases h

end TypeHint

/-! ## Readings -/

variable {α β : Type}

/-- The cursor stays where it is. -/
def Still (r : Reading α) : Prop := ∀ c a c', r c = some (a, c') → c' = c

/-- What is read has the property, with the texts of the tokens that are left before it. -/
def Begins (Q : List String → α → Prop) (r : Reading α) : Prop :=
  ∀ c a c', r c = some (a, c') → Q (c.rest.map (·.text)) a

/-- A reading in two steps. -/
theorem bind_eq_some {r : Reading α} {f : α → Reading β} {c c' : Cursor} {b : β} :
    (r >>= f) c = some (b, c') ↔ ∃ a next, r c = some (a, next) ∧ f a next = some (b, c') := by
  show (r c).bind _ = some (b, c') ↔ _
  rw [Option.bind_eq_some_iff]
  exact ⟨fun ⟨⟨a, next⟩, hr, hf⟩ => ⟨a, next, hr, hf⟩, fun ⟨a, next, hr, hf⟩ => ⟨(a, next), hr, hf⟩⟩

namespace Still

theorem pure (a : α) : Still (Pure.pure a) := by
  rintro c _ c' h
  cases h
  rfl

theorem bind {r : Reading α} {f : α → Reading β} (hr : Still r) (hf : ∀ a, Still (f a)) :
    Still (r >>= f) := by
  intro c b c' h
  rcases bind_eq_some.1 h with ⟨a, next, hfirst, hsecond⟩
  rw [hf a _ _ _ hsecond, hr _ _ _ hfirst]

theorem get : Still (MonadState.get : Reading Cursor) := by
  rintro c _ c' h
  cases h
  rfl

theorem require (b : Bool) : Still (Grammar.require b) := by
  cases b with
  | true => exact .pure ()
  | false => exact fun _ _ _ h => by cases h

theorem head : Still Grammar.head := get.bind fun _ => .pure _

theorem atLineEnd (inside : Bool) : Still (Grammar.atLineEnd inside) := head.bind fun _ => .pure _

theorem nextIs (text : String) : Still (Grammar.nextIs text) := head.bind fun _ => .pure _

theorem continuesWith (inside : Bool) (text : String) : Still (Grammar.continuesWith inside text) :=
  head.bind fun _ => (atLineEnd inside).bind fun _ => .pure _

theorem joins : Still Grammar.joins := head.bind fun _ => .pure _

theorem requireIndent (inside : Bool) : Still (Grammar.requireIndent inside) := by
  refine head.bind fun t => ?_
  cases t.indent with
  | none => exact .pure ()
  | some width => exact get.bind fun _ => require _

end Still

namespace Begins

variable {Q : List String → α → Prop} {R : List String → β → Prop} {P : β → Prop}

theorem pure {a : α} (h : ∀ ts, Q ts a) : Begins Q (Pure.pure a) := by
  rintro c _ c' heq
  cases heq
  exact h _

theorem fail : Begins Q Grammar.fail := fun _ _ _ h => by cases h

theorem mono {Q' : List String → α → Prop} {r : Reading α} (hr : Begins Q r)
    (h : ∀ ts a, Q ts a → Q' ts a) : Begins Q' r := fun _ _ _ heq => h _ _ (hr _ _ _ heq)

/-- What comes first counts, if what is read after it keeps the property. -/
theorem bind {r : Reading α} {f : α → Reading β} (hr : Begins Q r)
    (hf : ∀ a, Begins (fun _ b => ∀ ts, Q ts a → R ts b) (f a)) : Begins R (r >>= f) := by
  intro c b c' h
  rcases bind_eq_some.1 h with ⟨a, next, hfirst, hsecond⟩
  exact hf a _ _ _ hsecond _ (hr _ _ _ hfirst)

/-- The cursor does not move first. -/
theorem still {r : Reading α} {f : α → Reading β} (hr : Still r) (hf : ∀ a, Begins R (f a)) :
    Begins R (r >>= f) := by
  intro c b c' h
  rcases bind_eq_some.1 h with ⟨a, next, hfirst, hsecond⟩
  rw [← hr _ _ _ hfirst]
  exact hf a _ _ _ hsecond

/-- The cursor does not move, and what is read has a property of its own. -/
theorem look {S : α → Prop} {r : Reading α} {f : α → Reading β} (hr : Still r)
    (ha : Begins (fun _ => S) r) (hf : ∀ a, S a → Begins R (f a)) : Begins R (r >>= f) := by
  intro c b c' h
  rcases bind_eq_some.1 h with ⟨a, next, hfirst, hsecond⟩
  have hresult := hf a (ha _ _ _ hfirst) _ _ _ hsecond
  rwa [hr _ _ _ hfirst] at hresult

/-- What is read first does not matter. -/
theorem skip {r : Reading α} {f : α → Reading β} (hf : ∀ a, Begins (fun _ => P) (f a)) :
    Begins (fun _ => P) (r >>= f) := by
  intro c b c' h
  rcases bind_eq_some.1 h with ⟨a, next, _, hsecond⟩
  exact hf a _ _ _ hsecond

/-- The next token is taken. -/
theorem advance {f : Token → Reading β}
    (hf : ∀ t : Token, Begins (fun ts b => R (t.text :: ts) b) (f t)) :
    Begins R (Grammar.advance >>= f) := by
  intro c b c' h
  rcases bind_eq_some.1 h with ⟨t, next, hfirst, hsecond⟩
  have hnext := hf t _ _ _ hsecond
  rcases c with ⟨source, rest, stop, level⟩
  cases rest with
  | nil => cases hfirst
  | cons first rest =>
      rcases bind_eq_some.1 hfirst with ⟨c, _, hget, hset⟩
      cases hget
      dsimp only at hset
      split at hset
      · cases hset
      · cases hset
        exact hnext

theorem orElse {r r' : Reading α} (hr : Begins Q r) (hr' : Begins Q r') : Begins Q (r <|> r') := by
  intro c a c' h
  have hrun : (r <|> r') c = (r c).orElse fun _ => r' c := rfl
  rw [hrun] at h
  cases hfirst : r c with
  | none =>
      rw [hfirst] at h
      exact hr' _ _ _ h
  | some found =>
      rw [hfirst] at h
      cases h
      exact hr _ _ _ hfirst

end Begins

/-! ## Terms -/

namespace Grammar

theorem moreStrings_texts (inside : Bool) (fuel : Nat) :
    Begins (fun ts more => more.Sublist ts) (moreStrings inside fuel) := by
  induction fuel with
  | zero => exact .pure fun _ => List.nil_sublist _
  | succ fuel ih =>
      have hend : Begins (fun ts more => more.Sublist ts) (pure [] : Reading (List String)) :=
        .pure fun _ => List.nil_sublist _
      rw [moreStrings]
      refine .still .head fun t => .still (.atLineEnd inside) fun atEnd => ?_
      split
      · exact .advance fun t => ih.bind fun more => .pure fun rest ts hmore => hmore.cons_cons t.text
      · exact hend

/-- The term is a given one or no string. -/
def Continues (first t : Term) : Prop := t = first ∨ t.strings? = none

theorem Continues.opens {first t : Term} (h : Continues first t) {ts : List String}
    (hfirst : Opens ts first) : Opens ts t := by
  rcases h with rfl | hnone
  · exact hfirst
  · exact opens_of_none hnone ts

theorem Continues.none {first t : Term} (h : Continues first t) (hfirst : first.strings? = none) :
    t.strings? = none := by
  rcases h with rfl | hnone
  · exact hfirst
  · exact hnone

/-- No string is read. -/
abbrev NoString (r : Reading Term) : Prop := Begins (fun _ t => t.strings? = none) r

theorem noString_other (start : Nat) : NoString (do return .other (← textFrom start)) :=
  .skip fun _ => .pure fun _ => rfl

theorem NoString.opens {r : Reading Term} (h : NoString r) : Begins Opens r :=
  Begins.mono h fun ts _ hnone => opens_of_none hnone ts

theorem asTargets_continues (inside : Bool) (start fuel : Nat) : ∀ first : Term,
    Begins (fun _ t => Continues first t) (asTargets inside start first fuel) := by
  induction fuel with
  | zero =>
      intro first
      exact .pure fun _ => .inl rfl
  | succ fuel ih =>
      intro first
      rw [asTargets]
      refine .skip fun more => ?_
      split
      · refine .skip fun _ => .skip fun _ => .skip fun text => ?_
        exact (ih _).mono fun _ _ ht => .inr (ht.none rfl)
      · exact .pure fun _ => .inl rfl

theorem combine_none (op : Operator) (left right : Term) (text : String) :
    (combine op left right text).strings? = none := by
  unfold combine
  split <;> rfl

theorem operators_continues (inside : Bool) (least start fuel : Nat) : ∀ first : Term,
    Begins (fun _ t => Continues first t) (operators inside least start first fuel) := by
  induction fuel with
  | zero =>
      intro first
      exact .pure fun _ => .inl rfl
  | succ fuel ih =>
      intro first
      rw [operators]
      refine .skip fun op? => ?_
      cases op? with
      | none => exact .pure fun _ => .inl rfl
      | some op =>
          refine .skip fun right => .skip fun text => ?_
          exact (ih _).mono fun _ _ ht => .inr (ht.none (combine_none op first right text))

theorem postfixes_continues (inside : Bool) (start fuel : Nat) : ∀ first : Term,
    Begins (fun _ t => Continues first t) (postfixes inside start first fuel) := by
  induction fuel with
  | zero =>
      intro first
      exact .pure fun _ => .inl rfl
  | succ fuel ih =>
      intro first
      have hmore : ∀ t : Term, t.strings? = none →
          Begins (fun _ t => Continues first t) (postfixes inside start t fuel) :=
        fun t hnone => (ih t).mono fun _ _ ht => .inr (ht.none hnone)
      unfold postfixes
      refine .skip fun point => ?_
      split
      · exact .skip fun _ => .skip fun _ => .skip fun _ => hmore _ rfl
      · refine .skip fun bracket => ?_
        split
        · exact .skip fun _ => .skip fun _ => .skip fun _ => .skip fun _ => hmore _ rfl
        · refine .skip fun parenthesis => ?_
          split
          · exact .skip fun _ => .skip fun _ => .skip fun _ => .skip fun _ => .skip fun _ =>
              hmore _ rfl
          · exact .pure fun _ => .inl rfl

theorem yielded_noString (inside : Bool) (fuel : Nat) : NoString (yielded inside fuel) := by
  cases fuel with
  | zero => exact .fail
  | succ fuel =>
      rw [yielded]
      refine .skip fun t => .skip fun _ => .skip fun isFrom => ?_
      split
      · exact .skip fun _ => .skip fun _ => noString_other _
      · refine .skip fun next => .skip fun atEnd => ?_
        split
        · exact .skip fun _ => noString_other _
        · exact noString_other _

/-- What the terms are that are read with a number of steps. -/
structure Opening (fuel : Nat) : Prop where
  term : ∀ inside, Begins Opens (Grammar.term inside fuel)
  operand : ∀ inside least, Begins Opens (Grammar.operand inside least fuel)
  leading : ∀ inside least, Begins Opens (Grammar.leading inside least fuel)
  postfixed : ∀ inside, Begins Opens (Grammar.postfixed inside fuel)
  atom : ∀ inside, Begins Opens (Grammar.atom inside fuel)
  element : ∀ inside, Begins Opens (Grammar.element inside fuel)
  elements : ∀ closing, Begins (fun ts found => ∀ t ∈ found.items.head?, Opens ts t)
    (Grammar.elements closing fuel)

theorem joins_none : Begins (fun _ items => ∀ t ∈ items, t.strings? = none) joins := by
  refine .skip fun t => .pure fun _ u hu => ?_
  split at hu
  · cases hu
  · rcases List.mem_map.1 hu with ⟨text, _, rfl⟩
    rfl

/-- Line continuations before the first element are no strings. -/
theorem opens_head {ts : List String} {before : List Term} {first : Term}
    (hbefore : ∀ t ∈ before, t.strings? = none) (hfirst : Opens ts first) (after : List Term) :
    ∀ t ∈ (before ++ first :: after).head?, Opens ts t := by
  intro t ht
  cases before with
  | nil =>
      cases ht
      exact hfirst
  | cons u rest =>
      cases ht
      exact opens_of_none (hbefore _ List.mem_cons_self) ts

theorem Opening.zero : Opening 0 := by
  constructor
  all_goals intros; exact .fail

namespace Opening

variable {fuel : Nat} (h : Opening fuel) (inside : Bool)

include h

theorem term_succ : Begins Opens (Grammar.term inside (fuel + 1)) := by
  rw [Grammar.term]
  refine .still .head fun start => (h.operand inside 10).bind fun first => ?_
  have hconditional : Begins (fun _ t => Continues first t)
      ((do
        require (← continuesWith inside "if")
        let _ ← advance
        let _ ← Grammar.operand inside 10 fuel
        keyword "else"
        let _ ← Grammar.term inside fuel
        return Term.other (← textFrom start.start)) <|> pure first) := by
    refine .orElse ?_ (.pure fun _ => .inl rfl)
    exact .skip fun _ => .skip fun _ => .skip fun _ => .skip fun _ => .skip fun _ => .skip fun _ =>
      .skip fun _ => .pure fun _ => .inr rfl
  refine hconditional.bind fun t => ?_
  refine (asTargets_continues inside _ fuel t).mono fun _ u hu ts ht us hfirst => ?_
  exact hu.opens (ht.opens hfirst)

theorem operand_succ (least : Nat) :
    Begins Opens (Grammar.operand inside least (fuel + 1)) := by
  rw [Grammar.operand]
  refine .still (.requireIndent inside) fun _ => .still .head fun t =>
    (h.leading inside least).bind fun first => ?_
  exact (operators_continues inside least t.start fuel first).mono fun _ _ ht _ => ht.opens

theorem leading_succ (least : Nat) :
    Begins Opens (Grammar.leading inside least (fuel + 1)) := by
  have hpostfixed := h.postfixed inside
  rw [Grammar.leading]
  refine .still .head fun t => ?_
  split
  · exact NoString.opens (.skip fun _ => .skip fun _ => noString_other _)
  · split
    · exact NoString.opens (.skip fun _ => .skip fun _ => .skip fun _ => .skip fun _ =>
        noString_other _)
    · split
      · refine .orElse (NoString.opens ?_) hpostfixed
        exact .skip fun _ => .skip fun _ => .skip fun _ => .skip fun _ => .skip fun _ =>
          noString_other _
      · split
        · exact NoString.opens (.skip fun _ => .skip fun _ => .skip fun _ => .pure fun _ => rfl)
        · split
          · refine .orElse (NoString.opens ?_) hpostfixed
            exact .skip fun _ => .skip fun _ => .skip fun _ => noString_other _
          · exact hpostfixed

theorem postfixed_succ : Begins Opens (Grammar.postfixed inside (fuel + 1)) := by
  rw [Grammar.postfixed]
  refine .still .head fun t => (h.atom inside).bind fun first => ?_
  exact (postfixes_continues inside t.start fuel first).mono fun _ _ ht _ => ht.opens

theorem element_succ : Begins Opens (Grammar.element inside (fuel + 1)) := by
  rw [Grammar.element]
  refine .still .head fun t => ?_
  split
  · exact NoString.opens (.skip fun _ => .skip fun _ => .skip fun _ => .pure fun _ => rfl)
  · split
    · exact NoString.opens (yielded_noString inside fuel)
    · exact h.term inside

theorem elements_succ (closing : String) :
    Begins (fun ts found => ∀ t ∈ found.items.head?, Opens ts t)
      (Grammar.elements closing (fuel + 1)) := by
  rw [Grammar.elements]
  refine .look .joins joins_none fun before hbefore => .still (.nextIs closing) fun closes => ?_
  split
  · refine .pure fun ts t ht => opens_of_none (hbefore t (List.mem_of_mem_head? ht)) ts
  · refine (h.element true).bind fun first => .skip fun t => ?_
    split
    · exact .skip fun _ => .pure fun _ _ _ t ht => by cases ht
    · refine .skip fun after => .skip fun comma => ?_
      split
      · refine .skip fun _ => .skip fun more => .skip fun _ => .pure fun _ ts hfirst => ?_
        rw [List.append_assoc]
        exact opens_head hbefore hfirst _
      · exact .pure fun _ ts hfirst => opens_head hbefore hfirst after

theorem atom_succ : Begins Opens (Grammar.atom inside (fuel + 1)) := by
  have hplain : ∀ {u : Term}, u.strings? = none → ∀ {token : String},
      Begins (fun ts t => Opens (token :: ts) t) (pure u) :=
    fun hnone => .pure fun ts => opens_of_none hnone _
  have hmono : ∀ {r : Reading Term} {token : String}, NoString r →
      Begins (fun ts t => Opens (token :: ts) t) r :=
    fun hr => Begins.mono hr fun ts _ hnone => opens_of_none hnone _
  rw [Grammar.atom]
  refine .advance fun t => ?_
  split
  · split
    · exact hplain rfl
    · exact hplain rfl
    · exact hplain rfl
    · exact .fail
    · exact .fail
    · exact hplain rfl
  · exact hplain rfl
  · exact hplain rfl
  -- Strings side by side.
  · refine (moreStrings_texts inside fuel).bind fun more => .skip fun text => .pure fun _ ts hmore => ?_
    intro tokens htokens
    cases htokens
    exact ⟨List.cons_ne_nil _ _, hmore.cons_cons t.text⟩
  · split
    · exact hplain rfl
    -- Something in parentheses, which may be a string.
    · refine (h.elements ")").bind fun found => .skip fun _ => .skip fun text => ?_
      split
      · exact .pure fun _ ts _ => opens_of_none rfl _
      · split
        · split
          · exact .pure fun _ ts _ => opens_of_none rfl _
          · next inner rest hitems =>
              refine .pure fun _ ts hitem tokens htokens => ?_
              exact (hitem inner (by rw [hitems]; rfl)).later t.text tokens htokens
        · exact .pure fun _ ts _ => opens_of_none rfl _
    · refine hmono (.skip fun found => .skip fun _ => ?_)
      split
      · exact noString_other _
      · exact .pure fun _ => rfl
    · refine hmono (.orElse ?_ ?_)
      · refine .skip fun entries => .skip fun _ => .skip fun text => ?_
        split <;> exact .pure fun _ => rfl
      · refine .skip fun found => .skip fun _ => .skip fun text => .skip fun _ => ?_
        split <;> exact .pure fun _ => rfl
    · exact .fail
  · exact .fail
  · exact .fail

end Opening

theorem opening (fuel : Nat) : Opening fuel := by
  induction fuel with
  | zero => exact .zero
  | succ fuel ih =>
      exact ⟨ih.term_succ, ih.operand_succ, ih.leading_succ, ih.postfixed_succ, ih.atom_succ,
        ih.element_succ, ih.elements_succ⟩

theorem termList_opens (inside : Bool) (fuel : Nat) :
    Begins (fun ts found => ∀ t ∈ found.1.head?, Opens ts t) (termList inside fuel) := by
  cases fuel with
  | zero => exact .fail
  | succ fuel =>
      have hfirst : ∀ {first : Term} (more : List Term) {ts : List String}, Opens ts first →
          ∀ t ∈ (first :: more).head?, Opens ts t := by
        rintro first more ts h _ ⟨⟩
        exact h
      rw [termList]
      refine ((opening fuel).element inside).bind fun first => .skip fun comma => ?_
      split
      · refine .skip fun _ => .skip fun next => .skip fun atEnd => ?_
        split
        · exact .skip fun more => .pure fun _ ts h => hfirst _ h
        · exact .pure fun _ ts h => hfirst _ h
      · exact .pure fun _ ts h => hfirst _ h

end Grammar

/-! ## Statements -/

namespace Script

open Grammar

/-- If the statement is a string, its tokens are some of the given ones. -/
def OpensStatement (ts : List String) (s : Statement) : Prop :=
  ∀ t, s = .expression t → Opens ts t

theorem opensStatement_of_ne {s : Statement} (h : ∀ t, s ≠ .expression t) (ts : List String) :
    OpensStatement ts s := fun t ht => absurd ht (h t)

theorem assignment_opens (fuel : Nat) : Begins OpensStatement (assignment fuel) := by
  have hother : ∀ {ts : List String} {text : String},
      OpensStatement ts (.expression (.other text)) := by
    rintro ts text _ ⟨⟩
    exact opens_of_none rfl ts
  unfold assignment
  refine .still .head fun t => ?_
  split
  · refine .bind (yielded_noString false fuel).opens fun found => .pure fun _ ts h => ?_
    rintro _ ⟨⟩
    exact h
  · refine (termList_opens false fuel).bind fun found => .skip fun equals => ?_
    split
    · refine .skip fun _ => .skip fun _ => .skip fun value => .pure fun _ ts _ => ?_
      exact opensStatement_of_ne (fun _ h => by cases h) ts
    · refine .skip fun colon => ?_
      split
      · refine .skip fun _ => .skip fun _ => .skip fun type => .skip fun equals => ?_
        split
        · refine .skip fun _ => .skip fun value => .pure fun _ ts _ => ?_
          exact opensStatement_of_ne (fun _ h => by cases h) ts
        · exact .pure fun _ ts _ => opensStatement_of_ne (fun _ h => by cases h) ts
      · refine .skip fun augmented => ?_
        split
        · refine .skip fun _ => .skip fun _ => .skip fun _ => .pure fun _ ts _ => ?_
          exact opensStatement_of_ne (fun _ h => by cases h) ts
        · split
          · next item hitems _ =>
              refine .pure fun _ ts h => ?_
              rintro _ ⟨⟩
              exact h item (by rw [hitems]; rfl)
          · exact .skip fun text => .pure fun _ ts _ => hother

/-- No expression is read. -/
abbrev NoExpression (r : Reading Statement) : Prop := Begins (fun _ s => ∀ t, s ≠ .expression t) r

theorem NoExpression.opens {r : Reading Statement} (h : NoExpression r) : Begins OpensStatement r :=
  Begins.mono h fun ts _ hnone => opensStatement_of_ne hnone ts

theorem ignored_noExpression (r : Reading Unit) : NoExpression (ignored r) :=
  .skip fun _ => .pure fun _ => nofun

theorem importModules_noExpression (fuel : Nat) : NoExpression (importModules fuel) :=
  .skip fun _ => .skip fun _ => .pure fun _ => nofun

theorem importFrom_noExpression (fuel : Nat) : NoExpression (importFrom fuel) := by
  unfold importFrom
  refine .skip fun _ => .skip fun t => ?_
  split
  · exact .skip fun _ => .skip fun _ => .skip fun _ => .pure fun _ => nofun
  · have hnames : ∀ (level : Nat) (module? : Option String), NoExpression (do
        keyword "import"
        if ← nextIs "*" then
          mark "*"
          return .importFrom level module? [] true
        else return .importFrom level module? (← importedList fuel) false) := by
      refine fun level module? => .skip fun _ => .skip fun star => ?_
      split
      · exact .skip fun _ => .pure fun _ => nofun
      · exact .skip fun _ => .pure fun _ => nofun
    refine .skip fun level => .skip fun t => ?_
    dsimp only
    split
    · exact .skip fun _ => hnames level _
    · exact .skip fun name => .skip fun _ => hnames level _

theorem simpleStatement_opens (fuel : Nat) : Begins OpensStatement (simpleStatement fuel) := by
  have hended : ∀ {r : Reading Statement}, Begins OpensStatement r →
      Begins OpensStatement (do let s ← r; ended; return s) := fun hr =>
    hr.bind fun s => .skip fun _ => .pure fun _ _ h => h
  have hassigned : ∀ {r : Reading Statement}, NoExpression r → Begins OpensStatement
      ((do let s ← assignment fuel; ended; return s) <|> r) := fun hr =>
    .orElse (hended (assignment_opens fuel)) hr.opens
  unfold simpleStatement
  refine .still .head fun t => ?_
  dsimp only
  split
  · exact hended (importModules_noExpression fuel).opens
  · exact hended (importFrom_noExpression fuel).opens
  all_goals
    first
      | exact hended (ignored_noExpression _).opens
      | exact hended (hassigned (ignored_noExpression _))
      | exact hended (assignment_opens fuel)

/-- The first statement is no string, or its tokens are some of the given ones. -/
def OpensFirst (ts : List String) (found : List (Statement × String)) : Prop :=
  ∃ s text rest, found = (s, text) :: rest ∧ OpensStatement ts s

theorem simpleStatements_opens (fuel : Nat) : Begins OpensFirst (simpleStatements fuel) := by
  cases fuel with
  | zero => exact .fail
  | succ fuel =>
      rw [simpleStatements]
      refine .still .head fun t => (simpleStatement_opens fuel).bind fun s => .skip fun text =>
        .skip fun semicolon => ?_
      split
      · refine .skip fun next => ?_
        split
        · exact .pure fun _ ts h => ⟨s, text, [], rfl, h⟩
        · refine .skip fun _ => .skip fun atEnd => ?_
          split
          · exact .pure fun _ ts h => ⟨s, text, [], rfl, h⟩
          · exact .skip fun more => .pure fun _ ts h => ⟨s, text, more, rfl, h⟩
      · exact .pure fun _ ts h => ⟨s, text, [], rfl, h⟩

/-! ### Statements with bodies -/

/-- What is read at a place has the property. -/
def LeadsAt (c : Cursor) (P : α → Prop) (r : ScriptReading α) : Prop :=
  ∀ a c', r c = .ok (a, c') → P a

/-- What is read has the property, with the texts of the tokens that are left before it. -/
def Leads (Q : List String → α → Prop) (r : ScriptReading α) : Prop :=
  ∀ c, LeadsAt c (Q (c.rest.map (·.text))) r

theorem bind_eq_ok {r : ScriptReading α} {f : α → ScriptReading β} {c c' : Cursor} {b : β} :
    (r >>= f) c = .ok (b, c') ↔ ∃ a next, r c = .ok (a, next) ∧ f a next = .ok (b, c') := by
  show (r c).bind _ = .ok (b, c') ↔ _
  cases hr : r c with
  | error line => simp [Except.bind]
  | ok found =>
      rcases found with ⟨a, next⟩
      simp [Except.bind]

namespace Leads

variable {Q : List String → α → Prop} {R : List String → β → Prop} {P : β → Prop}

theorem fail {line : Nat} : Leads Q (throw line) := fun _ _ _ h => by cases h

theorem pure {a : α} (h : ∀ ts, Q ts a) : Leads Q (Pure.pure a) := by
  rintro c _ c' heq
  cases heq
  exact h _

theorem skip {r : ScriptReading α} {f : α → ScriptReading β} (hf : ∀ a, Leads (fun _ => P) (f a)) :
    Leads (fun _ => P) (r >>= f) := by
  intro c b c' h
  rcases bind_eq_ok.1 h with ⟨a, next, _, hsecond⟩
  exact hf a _ _ _ hsecond

theorem bind {r : ScriptReading α} {f : α → ScriptReading β} (hr : Leads Q r)
    (hf : ∀ a, Leads (fun _ b => ∀ ts, Q ts a → R ts b) (f a)) : Leads R (r >>= f) := by
  intro c b c' h
  rcases bind_eq_ok.1 h with ⟨a, next, hfirst, hsecond⟩
  exact hf a _ _ _ hsecond _ (hr _ _ _ hfirst)

/-- The cursor is looked at first. -/
theorem get {f : Cursor → ScriptReading β}
    (hf : ∀ c, LeadsAt c (R (c.rest.map (·.text))) (f c)) : Leads R (MonadState.get >>= f) := by
  intro c b c' h
  rcases bind_eq_ok.1 h with ⟨_, _, hget, hsecond⟩
  cases hget
  exact hf c b c' hsecond

theorem reporting {line : Nat} {r : Reading α} (hr : Begins Q r) :
    Leads Q (Script.reporting line r) := by
  intro c a c' h
  unfold Script.reporting at h
  split at h
  · next hfound =>
      cases h
      exact hr _ _ _ hfound
  · cases h

end Leads

/-- A class or a function is no expression. -/
theorem definition_noExpression (line fuel : Nat) :
    Leads (fun _ s => ∀ t, s ≠ .expression t) (definition line fuel) := by
  cases fuel with
  | zero => exact .fail
  | succ fuel =>
      rw [definition]
      refine .skip fun c => ?_
      dsimp only
      split
      · exact .skip fun _ => .skip fun _ => .skip fun _ => .pure fun _ => nofun
      -- A function may be marked as asynchronous.
      · split
        · exact .skip fun _ => .skip fun _ => .skip fun _ => .skip fun _ => .pure fun _ => nofun
        · exact .skip fun _ => .skip fun _ => .skip fun _ => .pure fun _ => nofun

theorem statement_opens (fuel : Nat) : Leads OpensFirst (statement fuel) := by
  cases fuel with
  | zero => exact .fail
  | succ fuel =>
      have hplain : ∀ {r : ScriptReading (List (Statement × String))} {c : Cursor},
          Leads (fun _ found => ∀ ts, OpensFirst ts found) r →
            LeadsAt c (OpensFirst (c.rest.map (·.text))) r :=
        fun hr found c' h => hr _ found c' h _
      have hsingle : ∀ {s : Statement} {line start : Nat}, (∀ t, s ≠ .expression t) →
          Leads (fun _ found => ∀ ts, OpensFirst ts found) (do
            let text ← reporting line (textFrom start)
            return [(s, text)]) := fun {s _ _} h =>
        .skip fun text => .pure fun _ _ => ⟨s, text, [], rfl, opensStatement_of_ne h _⟩
      have hdefinition : ∀ line start : Nat, Leads (fun _ found => ∀ ts, OpensFirst ts found) (do
          let s ← definition line fuel
          let text ← reporting line (textFrom start)
          return [(s, text)]) := fun line start =>
        (definition_noExpression line fuel).bind fun s => .skip fun text => .pure fun _ _ h _ =>
          ⟨s, text, [], rfl, opensStatement_of_ne h _⟩
      have hsimple : ∀ line : Nat, Leads OpensFirst (reporting line (simpleStatements fuel)) :=
        fun line => .reporting (simpleStatements_opens fuel)
      unfold statement
      refine .get fun c => ?_
      dsimp only
      split
      · exact hplain (hdefinition _ _)
      · exact hplain (hdefinition _ _)
      · exact hplain (.skip fun _ => hsingle nofun)
      · exact hplain (.skip fun _ => .skip fun _ => .skip fun _ => .skip fun _ => hsingle nofun)
      · exact hplain (.skip fun _ => .skip fun _ => .skip fun _ => .skip fun _ => hsingle nofun)
      · exact hplain (.skip fun _ => .skip fun _ => .skip fun _ => .skip fun _ => hsingle nofun)
      · exact hplain (.skip fun _ => hsingle nofun)
      · exact hplain (.skip fun _ => hsingle nofun)
      -- What follows `async` may be a simple statement.
      · split
        · exact hplain (hdefinition _ _)
        · split
          · exact hplain (.skip fun _ => .skip fun _ => hsingle nofun)
          · split
            · exact hplain (.skip fun _ => .skip fun _ => hsingle nofun)
            · exact hsimple _ c
      -- `match` is a word of a simple statement first.
      · split
        · next found next hfound =>
            intro a c' h
            rcases bind_eq_ok.1 h with ⟨_, _, _, hpure⟩
            cases hpure
            exact simpleStatements_opens fuel _ _ _ hfound
        · exact hplain (.skip fun _ => .skip fun _ => .skip fun _ => hsingle nofun)
      · exact hsimple _ c

/-- A statement that stands alone is no string, or its tokens are some of the given ones. -/
def OpensAlone (ts : List String) (parsed : Parsed) : Prop :=
  ∀ s text, parsed.statements = [(s, text)] → OpensStatement ts s

theorem topLevel_opens (fuel : Nat) : Leads OpensAlone (topLevel fuel) := by
  cases fuel with
  | zero => exact .fail
  | succ fuel =>
      rw [topLevel]
      refine .get fun c => ?_
      dsimp only
      split
      · rintro _ _ ⟨⟩ s text h
        cases h
      · have hmore : Leads OpensAlone (do
            let found ← statement fuel
            let more ← topLevel fuel
            return ⟨found ++ more.statements,
              (c.rest.headD finishToken).comments + more.comments⟩) := by
          refine (statement_opens fuel).bind fun found => .skip fun more => .pure fun _ ts h => ?_
          rintro s text hsingle
          rcases h with ⟨first, firstText, rest, rfl, hfirst⟩
          obtain rfl : first = s := (Prod.mk.inj (List.cons.inj hsingle).1).1
          exact hfirst
        exact hmore c

theorem parse_opens {cs : List Char} {parsed : Parsed} (h : parse cs = .ok parsed) :
    OpensAlone ((tokens cs).map (·.text)) parsed := by
  unfold parse at h
  dsimp only at h
  split at h
  · next hrun =>
      cases h
      exact topLevel_opens _ _ _ _ hrun
  · cases h

end Script

/-! ## Texts -/

namespace TypeHint

theorem length_trim_le (cs : List Char) : (Text.trim cs).length ≤ cs.length := by
  have hleft : (Text.trimLeft cs).length ≤ cs.length := (List.dropWhile_suffix _).length_le
  have hright : (Text.trim cs).length ≤ (Text.trimLeft cs).length := by
    unfold Text.trim Text.trimRight
    rw [List.length_reverse]
    exact Nat.le_trans (List.dropWhile_suffix _).length_le (Nat.le_of_eq List.length_reverse)
  exact Nat.le_trans hright hleft

/-- What a single string writes is shorter than all tokens together. -/
theorem length_ofStatement_str {ts : List String} {st : Statement} {text s : String}
    (hopens : Script.OpensStatement ts st) (h : ofStatement st text = .str s) :
    s.length + 2 ≤ (ts.map String.length).sum := by
  cases st with
  | expression t =>
      rcases strings?_of_str t h with ⟨tokens, htokens, hdecode⟩
      rcases hopens t rfl tokens htokens with ⟨hne, hsublist⟩
      have hlength := length_decodeStrings? hdecode
      have hsum := (hsublist.map String.length).sum_le_sum fun _ _ => Nat.zero_le _
      have hpositive := List.length_pos_of_ne_nil hne
      omega
  | _ => cases h

/-- A text that is read as a string is longer than the string, by two quotation marks. -/
theorem length_parse_str {text s : String} (h : TypeHint.parse text = .ok (.str s)) :
    s.length + 2 ≤ text.length := by
  unfold TypeHint.parse at h
  dsimp only at h
  split at h
  · cases h
  · next parsed hparse =>
      split at h
      · next st shown hstatements _ =>
          have hopens := Script.parse_opens hparse st shown hstatements
          have hlength := length_ofStatement_str hopens (Except.ok.inj h)
          have htokens := sum_length_tokens_le (Text.trim text.toList)
          have htrim := length_trim_le text.toList
          rw [String.length_toList] at htrim
          rw [List.map_map] at hlength
          exact Nat.le_trans hlength (Nat.le_trans htokens htrim)
      · cases h
      · cases h

end TypeHint

end Python
end WireTypes
