import WireTypes.Declarations.Scan

/-!
# ClosedText — texts that the scan leaves as it entered them

A grammar of lexically closed texts: every comment and string ends, and outside them the brackets
balance. The scan enters such a text in code and leaves it in code at the same depth.

- `Closed P text`: the text is closed, and `P` holds of each character outside all brackets with what
  follows it;
- `Closed.visits_append`: the scan of a closed text and of what stands behind it;
- `Closed.visited`: where a code character of a closed text stands, how deep, and what follows it.
-/

namespace WireTypes
namespace Declarations

def isOpening (c : Char) : Bool := c == '{' || c == '[' || c == '('

def isClosing (c : Char) : Bool := c == '}' || c == ']' || c == ')'

theorem isOpening_iff {c : Char} : isOpening c ↔ c = '{' ∨ c = '[' ∨ c = '(' := by
  simp [isOpening, or_assoc]

theorem isClosing_iff {c : Char} : isClosing c ↔ c = '}' ∨ c = ']' ∨ c = ')' := by
  simp [isClosing, or_assoc]

theorem isQuote_iff {c : Char} : isQuote c ↔ c = '"' ∨ c = '\'' ∨ c = '`' := by
  simp [isQuote, or_assoc]

theorem isClosing_of_isOpening {c : Char} (h : isOpening c) : isClosing c = false := by
  rcases isOpening_iff.mp h with rfl | rfl | rfl <;> rfl

/-- Whether a text can stand right behind a slash that is to be read by itself. -/
def Detached (text : List Char) : Prop := text.head? ≠ some '/' ∧ text.head? ≠ some '*'

/-- Whether no token reaches from a text into the text behind it. -/
def Apart (text behind : List Char) : Prop := text.getLast? = some '/' → Detached behind

/-! ## Grammar -/

/-- What stands behind the opening of a block comment, up to and with the first closing. -/
inductive Comment : List Char → Prop
  | close : Comment ['*', '/']
  | char {c rest} : (c = '*' → rest.head? ≠ some '/') → Comment rest → Comment (c :: rest)

/-- What stands behind an opening quote, up to and with the closing one. A backslash takes the
character behind it along. -/
inductive Quoted (quote : Char) : List Char → Prop
  | close : Quoted quote [quote]
  | escape {c rest} : Quoted quote rest → Quoted quote ('\\' :: c :: rest)
  | char {c rest} : c ≠ '\\' → c ≠ quote → Quoted quote rest → Quoted quote (c :: rest)

/-- A character that stands for itself in code, in front of `rest`. -/
structure Plain (c : Char) (rest : List Char) : Prop where
  quote : isQuote c = false
  opening : isOpening c = false
  closing : isClosing c = false
  slash : c = '/' → Detached rest

/-- Lexically closed texts. The brackets need not agree in kind, since the scan counts them only. -/
inductive Closed : (Char → List Char → Prop) → List Char → Prop
  | nil {P} : Closed P []
  | plain {P c rest} : Plain c rest → P c rest → Closed P rest → Closed P (c :: rest)
  | lineComment {P inside rest} :
      '\n' ∉ inside → P '\n' rest → Closed P rest →
        Closed P ('/' :: '/' :: (inside ++ '\n' :: rest))
  | blockComment {P inside rest} :
      Comment inside → Closed P rest → Closed P ('/' :: '*' :: (inside ++ rest))
  | string {P quote inside rest} :
      isQuote quote → Quoted quote inside → Closed P rest → Closed P (quote :: (inside ++ rest))
  | brackets {P opening inside closing rest} :
      isOpening opening → isClosing closing → Closed (fun _ _ => True) inside → Closed P rest →
        Closed P (opening :: (inside ++ closing :: rest))

/-- A character that stands for itself wherever it stands. -/
def isNeutral (c : Char) : Bool := !(isQuote c || isOpening c || isClosing c || c == '/')

theorem plain_of_isNeutral {c : Char} {rest : List Char} (h : isNeutral c) : Plain c rest := by
  have ⟨⟨⟨quote, opening⟩, closing⟩, slash⟩ :
      ((isQuote c = false ∧ isOpening c = false) ∧ isClosing c = false) ∧ c ≠ '/' := by
    simpa [isNeutral] using h
  exact ⟨quote, opening, closing, fun equal => absurd equal slash⟩

theorem Closed.neutral {P : Char → List Char → Prop} (word : List Char) {rest : List Char}
    (neutral : word.all isNeutral) (holds : ∀ c ∈ word, ∀ behind, P c behind)
    (h : Closed P rest) : Closed P (word ++ rest) := by
  induction word with
  | nil => exact h
  | cons c word ih =>
      have ⟨first, others⟩ : isNeutral c ∧ word.all isNeutral := by simpa using neutral
      have ⟨here, there⟩ := List.forall_mem_cons.mp holds
      exact .plain (plain_of_isNeutral first) (here _) (ih others there)

/-! ## One step of the scan -/

section Steps

variable {depth offset : Nat} {c : Char} {rest : List Char}

theorem depthAfter_opening (h : isOpening c) : depthAfter depth c = depth + 1 := by
  have opening : (c == '{' || c == '[' || c == '(') = true := h
  simp only [depthAfter, opening, if_true]

theorem depthAfter_closing (h : isClosing c) : depthAfter depth c = depth - 1 := by
  rcases isClosing_iff.mp h with rfl | rfl | rfl <;> rfl

theorem depthAfter_plain (h : Plain c rest) : depthAfter depth c = depth := by
  have opening : (c == '{' || c == '[' || c == '(') = false := h.opening
  have closing : (c == '}' || c == ']' || c == ')') = false := h.closing
  simp [depthAfter, opening, closing]

/-- A character that is neither a quote nor a slash in front of its partner is visited. -/
theorem visits_code (quote : isQuote c = false) (slash : c = '/' → Detached rest) :
    visits .code depth offset (c :: rest)
      = ⟨offset, c, depth⟩ :: visits .code (depthAfter depth c) (offset + 1) rest := by
  rw [visits.eq_def]
  split
  · contradiction
  · rename_i heq
    obtain ⟨rfl, rfl⟩ := List.cons.inj heq
    dsimp only
    split
    · exact absurd rfl (slash rfl).1
    · exact absurd rfl (slash rfl).2
    · rw [quote]
      rfl

theorem visits_opening (h : isOpening c) :
    visits .code depth offset (c :: rest)
      = ⟨offset, c, depth⟩ :: visits .code (depth + 1) (offset + 1) rest := by
  have step : visits .code depth offset (c :: rest)
      = ⟨offset, c, depth⟩ :: visits .code (depthAfter depth c) (offset + 1) rest := visits_code
    (by rcases isOpening_iff.mp h with rfl | rfl | rfl <;> rfl)
    (by rcases isOpening_iff.mp h with rfl | rfl | rfl <;> intro slash <;> cases slash)
  rwa [depthAfter_opening h] at step

theorem visits_closing (h : isClosing c) :
    visits .code depth offset (c :: rest)
      = ⟨offset, c, depth⟩ :: visits .code (depth - 1) (offset + 1) rest := by
  have step : visits .code depth offset (c :: rest)
      = ⟨offset, c, depth⟩ :: visits .code (depthAfter depth c) (offset + 1) rest := visits_code
    (by rcases isClosing_iff.mp h with rfl | rfl | rfl <;> rfl)
    (by rcases isClosing_iff.mp h with rfl | rfl | rfl <;> intro slash <;> cases slash)
  rwa [depthAfter_closing h] at step

theorem visits_quote (h : isQuote c) :
    visits .code depth offset (c :: rest) = visits (.string c) depth (offset + 1) rest := by
  rcases isQuote_iff.mp h with rfl | rfl | rfl <;> simp [visits, isQuote]

end Steps

/-! ## Comments and strings -/

section Skipped

variable {depth offset : Nat} {text behind : List Char}

theorem Comment.ne_nil (h : Comment text) : text ≠ [] := by
  cases h <;> simp

/-- The scan of a block comment goes on in code behind it. -/
theorem Comment.visits_append (h : Comment text) :
    visits .blockComment depth offset (text ++ behind)
      = visits .code depth (offset + text.length) behind := by
  induction h generalizing offset with
  | close => rfl
  | @char c rest early comment ih =>
      have skip : visits .blockComment depth offset (c :: (rest ++ behind))
          = visits .blockComment depth (offset + 1) (rest ++ behind) := by
        rw [visits.eq_def]
        dsimp only
        split
        · rename_i more heq
          obtain ⟨next, rest', rfl⟩ := List.exists_cons_of_ne_nil comment.ne_nil
          have slash : next = '/' := (List.cons.inj heq).1
          exact absurd (congrArg some slash) (early rfl)
        · rfl
      calc visits .blockComment depth offset (c :: (rest ++ behind))
          = visits .code depth (offset + 1 + rest.length) behind := skip.trans ih
        _ = visits .code depth (offset + (c :: rest).length) behind := by
            rw [List.length_cons, Nat.add_assoc, Nat.add_comm 1]

/-- The scan of a string goes on in code behind it. -/
theorem Quoted.visits_append {quote : Char} (h : Quoted quote text) (isQuote : isQuote quote) :
    visits (.string quote) depth offset (text ++ behind)
      = visits .code depth (offset + text.length) behind := by
  have notEscape : quote ≠ '\\' := by
    rintro rfl
    cases isQuote
  induction h generalizing offset with
  | close => simp [visits, notEscape]
  | @escape c rest _ ih =>
      calc visits (.string quote) depth offset ('\\' :: c :: (rest ++ behind))
          = visits (.string quote) depth (offset + 2) (rest ++ behind) := by simp [visits]
        _ = visits .code depth (offset + 2 + rest.length) behind := ih
        _ = visits .code depth (offset + ('\\' :: c :: rest).length) behind := by
            congr 1
            simp only [List.length_cons]
            omega
  | @char c rest noEscape noQuote _ ih =>
      calc visits (.string quote) depth offset (c :: (rest ++ behind))
          = visits (.string quote) depth (offset + 1) (rest ++ behind) := by
            simp [visits, noEscape, noQuote]
        _ = visits .code depth (offset + 1 + rest.length) behind := ih
        _ = visits .code depth (offset + (c :: rest).length) behind := by
            rw [List.length_cons, Nat.add_assoc, Nat.add_comm 1]

/-- The scan of a line comment goes on with the line feed that ends it. -/
theorem visits_lineComment (h : '\n' ∉ text) :
    visits .lineComment depth offset (text ++ '\n' :: behind)
      = ⟨offset + text.length, '\n', depth⟩
        :: visits .code depth (offset + text.length + 1) behind := by
  induction text generalizing offset with
  | nil => simp [visits]
  | cons c rest ih =>
      obtain ⟨notFeed, within⟩ : '\n' ≠ c ∧ '\n' ∉ rest := by simpa using h
      have skip : visits .lineComment depth offset (c :: (rest ++ '\n' :: behind))
          = visits .lineComment depth (offset + 1) (rest ++ '\n' :: behind) := by
        simp [visits, Ne.symm notFeed]
      have length : offset + 1 + rest.length = offset + (c :: rest).length := by
        rw [List.length_cons, Nat.add_assoc, Nat.add_comm 1]
      rw [List.cons_append, skip, ih within, length]

end Skipped

/-! ## Closed texts -/

theorem Apart.suffix (ahead : List Char) {text behind : List Char}
    (h : Apart (ahead ++ text) behind) : Apart text behind := by
  intro last
  exact h (by simp [last])

theorem detached_closing {c : Char} {rest : List Char} (h : isClosing c) : Detached (c :: rest) := by
  rcases isClosing_iff.mp h with rfl | rfl | rfl <;> simp [Detached]

section Tokens

variable {depth offset : Nat} {inside behind : List Char}

theorem visits_skipLine (h : '\n' ∉ inside) :
    visits .code depth offset ('/' :: '/' :: (inside ++ '\n' :: behind))
      = ⟨offset + 2 + inside.length, '\n', depth⟩
        :: visits .code depth (offset + 2 + inside.length + 1) behind := by
  rw [← visits_lineComment h]
  simp [visits]

theorem visits_skipBlock (h : Comment inside) :
    visits .code depth offset ('/' :: '*' :: (inside ++ behind))
      = visits .code depth (offset + 2 + inside.length) behind := by
  rw [← h.visits_append]
  simp [visits]

theorem visits_skipString {quote : Char} (isQuote : isQuote quote) (h : Quoted quote inside) :
    visits .code depth offset (quote :: (inside ++ behind))
      = visits .code depth (offset + 1 + inside.length) behind := by
  rw [visits_quote isQuote, h.visits_append isQuote]

/-- The scan goes through brackets one level deeper and comes back. -/
theorem visits_brackets {opening closing : Char} (isOpen : isOpening opening)
    (isClose : isClosing closing)
    (inner : ∀ behind, Detached behind →
      visits .code (depth + 1) (offset + 1) (inside ++ behind)
        = visits .code (depth + 1) (offset + 1) inside
          ++ visits .code (depth + 1) (offset + 1 + inside.length) behind) :
    visits .code depth offset (opening :: (inside ++ closing :: behind))
      = ⟨offset, opening, depth⟩ :: (visits .code (depth + 1) (offset + 1) inside
          ++ ⟨offset + 1 + inside.length, closing, depth + 1⟩
            :: visits .code depth (offset + 1 + inside.length + 1) behind) := by
  rw [visits_opening isOpen, inner _ (detached_closing isClose), visits_closing isClose,
    Nat.add_sub_cancel]

end Tokens

namespace Closed

variable {P : Char → List Char → Prop} {depth offset : Nat} {text behind : List Char}

/-- The scan leaves a closed text in code, at the depth where it entered it. -/
theorem visits_append (h : Closed P text) (apart : Apart text behind) :
    visits .code depth offset (text ++ behind)
      = visits .code depth offset text ++ visits .code depth (offset + text.length) behind := by
  induction h generalizing depth offset behind with
  | nil => rfl
  | @plain P c rest plain _ _ ih =>
      -- a slash at the very end looks at what stands behind the text
      have slash : c = '/' → Detached (rest ++ behind) := by
        intro equal
        cases rest with
        | nil => exact apart (congrArg some equal)
        | cons => exact plain.slash equal
      rw [List.cons_append, visits_code plain.quote slash, visits_code plain.quote plain.slash,
        depthAfter_plain plain, ih (Apart.suffix [c] apart), List.cons_append, List.length_cons,
        Nat.add_assoc offset 1, Nat.add_comm 1]
  | @lineComment P inside rest noFeed _ _ ih =>
      have regroup : '/' :: '/' :: (inside ++ '\n' :: rest)
          = ('/' :: '/' :: (inside ++ ['\n'])) ++ rest := by simp
      have ends : offset + 2 + inside.length + 1 + rest.length
          = offset + ('/' :: '/' :: (inside ++ '\n' :: rest)).length := by
        simp only [List.length_cons, List.length_append]
        omega
      rw [List.cons_append, List.cons_append, List.append_assoc, List.cons_append,
        visits_skipLine noFeed, visits_skipLine noFeed, ih (Apart.suffix _ (regroup ▸ apart)), ends,
        List.cons_append]
  | @blockComment P inside rest comment _ ih =>
      have inner : Apart rest behind := Apart.suffix ('/' :: '*' :: inside) apart
      have ends : offset + 2 + inside.length + rest.length
          = offset + ('/' :: '*' :: (inside ++ rest)).length := by
        simp only [List.length_cons, List.length_append]
        omega
      rw [List.cons_append, List.cons_append, List.append_assoc, visits_skipBlock comment,
        visits_skipBlock comment, ih inner, ends]
  | @string P quote inside rest isQuote quoted _ ih =>
      have inner : Apart rest behind := Apart.suffix (quote :: inside) apart
      have ends : offset + 1 + inside.length + rest.length
          = offset + (quote :: (inside ++ rest)).length := by
        simp only [List.length_cons, List.length_append]
        omega
      rw [List.cons_append, List.append_assoc, visits_skipString isQuote quoted,
        visits_skipString isQuote quoted, ih inner, ends]
  | @brackets P opening inside closing rest isOpen isClose _ _ ihInside ih =>
      have regroup : opening :: (inside ++ closing :: rest)
          = (opening :: (inside ++ [closing])) ++ rest := by simp
      have ends : offset + 1 + inside.length + 1 + rest.length
          = offset + (opening :: (inside ++ closing :: rest)).length := by
        simp only [List.length_cons, List.length_append]
        omega
      -- a closing bracket follows, so nothing that the inside ends with can reach over it
      have within : ∀ behind, Detached behind →
          visits .code (depth + 1) (offset + 1) (inside ++ behind)
            = visits .code (depth + 1) (offset + 1) inside
              ++ visits .code (depth + 1) (offset + 1 + inside.length) behind :=
        fun _ detached => ihInside fun _ => detached
      rw [List.cons_append, List.append_assoc, List.cons_append,
        visits_brackets isOpen isClose within, visits_brackets isOpen isClose within,
        ih (Apart.suffix _ (regroup ▸ apart)), ends, List.cons_append, List.append_assoc,
        List.cons_append]

end Closed

/-- Where a code character stands in a closed text that the scan enters at this depth and offset. -/
structure Visited (P : Char → List Char → Prop) (depth offset : Nat) (text : List Char)
    (v : Visit) : Prop where
  place : ∃ ahead behind, text = ahead ++ v.char :: behind ∧ v.offset = offset + ahead.length ∧
    (v.depth = depth → isOpening v.char ∨ P v.char behind)
  least : depth ≤ v.depth
  closes : isClosing v.char → depth < v.depth

namespace Visited

variable {P Q : Char → List Char → Prop} {depth offset : Nat} {text behind : List Char}
  {v : Visit}

theorem shift {entry : Nat} (h : Visited P depth entry text v) (ahead : List Char)
    (enters : entry = offset + ahead.length) : Visited P depth offset (ahead ++ text) v := by
  obtain ⟨left, right, split, stands, top⟩ := h.place
  refine ⟨⟨ahead ++ left, right, ?_, ?_, top⟩, h.least, h.closes⟩
  · rw [split, List.append_assoc]
  · rw [stands, enters, List.length_append, Nat.add_assoc]

/-- One level up, nothing is asked of what stands deeper. -/
theorem deeper (h : Visited Q (depth + 1) offset text v) :
    Visited P depth offset (text ++ behind) v := by
  obtain ⟨left, right, split, stands, -⟩ := h.place
  have below : depth < v.depth := h.least
  refine ⟨⟨left, right ++ behind, ?_, stands, fun level => ?_⟩, Nat.le_of_lt below, fun _ => below⟩
  · rw [split, List.append_assoc, List.cons_append]
  · exact absurd level (Nat.ne_of_gt below)

end Visited

namespace Closed

variable {P : Char → List Char → Prop} {depth offset : Nat} {text : List Char} {v : Visit}

/-- Every code character of a closed text stands where the scan says, at the depth of its entry or
deeper; a closing bracket stands deeper. -/
theorem visited (h : Closed P text) (hv : v ∈ visits .code depth offset text) :
    Visited P depth offset text v := by
  induction h generalizing depth offset with
  | nil => simp [visits] at hv
  | @plain P c rest plain holds _ ih =>
      rw [visits_code plain.quote plain.slash, depthAfter_plain plain, List.mem_cons] at hv
      rcases hv with rfl | hv
      · refine ⟨⟨[], rest, rfl, rfl, fun _ => .inr holds⟩, Nat.le_refl _, fun closing => ?_⟩
        exact absurd closing (by simp [plain.closing])
      · exact (ih hv).shift [c] rfl
  | @lineComment P inside rest noFeed holds _ ih =>
      have regroup : '/' :: '/' :: (inside ++ '\n' :: rest)
          = ('/' :: '/' :: (inside ++ ['\n'])) ++ rest := by simp
      rw [visits_skipLine noFeed, List.mem_cons] at hv
      rcases hv with rfl | hv
      · refine ⟨⟨'/' :: '/' :: inside, rest, rfl, ?_, fun _ => .inr holds⟩, Nat.le_refl _,
          fun closing => ?_⟩
        · simp only [List.length_cons]
          omega
        · cases closing
      · rw [regroup]
        apply (ih hv).shift
        simp only [List.length_cons, List.length_append, List.length_nil]
        omega
  | @blockComment P inside rest comment _ ih =>
      have regroup : '/' :: '*' :: (inside ++ rest) = ('/' :: '*' :: inside) ++ rest := rfl
      rw [visits_skipBlock comment] at hv
      rw [regroup]
      apply (ih hv).shift
      simp only [List.length_cons]
      omega
  | @string P quote inside rest isQuote quoted _ ih =>
      have regroup : quote :: (inside ++ rest) = (quote :: inside) ++ rest := rfl
      rw [visits_skipString isQuote quoted] at hv
      rw [regroup]
      apply (ih hv).shift
      simp only [List.length_cons]
      omega
  | @brackets P opening inside closing rest isOpen isClose within _ ihInside ih =>
      have regroup : opening :: (inside ++ closing :: rest)
          = (opening :: (inside ++ [closing])) ++ rest := by simp
      rw [visits_brackets isOpen isClose fun _ detached => within.visits_append fun _ => detached,
        List.mem_cons, List.mem_append, List.mem_cons] at hv
      rcases hv with rfl | hv | rfl | hv
      · refine ⟨⟨[], _, rfl, rfl, fun _ => .inl isOpen⟩, Nat.le_refl _, fun closing => ?_⟩
        exact absurd closing (by simp [isClosing_of_isOpening isOpen])
      · exact (ihInside hv).deeper.shift [opening] rfl
      · refine ⟨⟨opening :: inside, rest, rfl, ?_, fun level => ?_⟩, ?_, fun _ => ?_⟩
        · simp only [List.length_cons]
          omega
        · exact absurd level (Nat.succ_ne_self depth)
        · exact Nat.le_succ depth
        · exact Nat.lt_succ_self depth
      · rw [regroup]
        apply (ih hv).shift
        simp only [List.length_cons, List.length_append, List.length_nil]
        omega

end Closed

end Declarations
end WireTypes
