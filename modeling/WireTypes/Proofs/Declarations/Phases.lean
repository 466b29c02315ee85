import WireTypes.Proofs.Declarations.ClosedText

/-!
# Phases — the scan, one character at a time

`visits` looks one character ahead: at a slash, at a star in a comment and at a backslash in a string.
Here it is an automaton without look-ahead. A character that the scan would look behind is kept as
pending, so that the state after a text says how the scan reads whatever comes next.

- `State.after text`: the state of the automaton behind a text that is read from its beginning;
- `State.resume_cons`: one step of the automaton is one step of the scan;
- `mem_lineStarts_iff`: a line starts at the top level exactly if the automaton is then as it was at the
  beginning of the text;
- `Comment.run`, `Comment.run_front`: the state behind a block comment, and within one.
-/

namespace WireTypes
namespace Declarations

/-- A character that opens and closes string literals. -/
abbrev Quote := { c : Char // isQuote c }

theorem Quote.ne_feed (quote : Quote) : quote.val ≠ '\n' := by
  intro feed
  have opens : isQuote '\n' := feed ▸ quote.property
  cases opens

/-- What the scan is in the middle of. -/
inductive Phase
  | code
  /-- Behind a slash in code, which may open a comment. -/
  | slash
  | lineComment
  | block
  /-- Behind a star in a block comment, which may close it. -/
  | star
  | string (quote : Quote)
  /-- Behind a backslash in a string literal. -/
  | escape (quote : Quote)
  deriving DecidableEq, Repr

namespace Phase

@[simp]
def mode : Phase → Mode
  | code | slash => .code
  | lineComment => .lineComment
  | block | star => .blockComment
  | string quote | escape quote => .string quote

/-- What is read already and still to be decided on. -/
@[simp]
def pending : Phase → List Char
  | slash => ['/']
  | star => ['*']
  | escape _ => ['\\']
  | code | lineComment | block | string _ => []

theorem pending_length_le (p : Phase) : p.pending.length ≤ 1 := by
  cases p <;> simp

/-- Whether a comment has begun and not ended. -/
def isComment : Phase → Bool
  | lineComment | block | star => true
  | code | slash | string _ | escape _ => false

end Phase

/-- A phase and the number of open brackets. -/
structure State where
  phase : Phase
  depth : Nat
  deriving DecidableEq, Repr

namespace State

/-- Where every text begins. -/
def initial : State := ⟨.code, 0⟩

/-- The state after a character of code. -/
def code (depth : Nat) (c : Char) : State :=
  if c = '/' then ⟨.slash, depth⟩
  else if quote : isQuote c then ⟨.string ⟨c, quote⟩, depth⟩
  else ⟨.code, depthAfter depth c⟩

def advance (s : State) (c : Char) : State :=
  match s.phase with
  | .code => code s.depth c
  | .slash =>
      if c = '/' then ⟨.lineComment, s.depth⟩
      else if c = '*' then ⟨.block, s.depth⟩
      else code s.depth c
  | .lineComment => if c = '\n' then ⟨.code, s.depth⟩ else s
  | .block => if c = '*' then ⟨.star, s.depth⟩ else s
  | .star =>
      if c = '/' then ⟨.code, s.depth⟩
      else if c = '*' then s
      else ⟨.block, s.depth⟩
  | .string quote =>
      if c = '\\' then ⟨.escape quote, s.depth⟩
      else if c = quote then ⟨.code, s.depth⟩
      else s
  | .escape quote => ⟨.string quote, s.depth⟩

def run (s : State) (text : List Char) : State := text.foldl advance s

/-- The state behind a text. -/
def after (text : List Char) : State := initial.run text

@[simp]
theorem run_nil (s : State) : s.run [] = s := rfl

@[simp]
theorem run_cons (s : State) (c : Char) (text : List Char) :
    s.run (c :: text) = (s.advance c).run text := rfl

theorem run_append (s : State) (front behind : List Char) :
    s.run (front ++ behind) = (s.run front).run behind := List.foldl_append

theorem after_append (front behind : List Char) :
    after (front ++ behind) = (after front).run behind := run_append ..

/-- What the scan visits once a character of code is read: a slash is left pending. -/
def codeVisits (depth offset : Nat) (c : Char) : List Visit :=
  if c = '/' ∨ isQuote c then [] else [⟨offset, c, depth⟩]

/-- What the scan visits once a character is read. -/
def reads (s : State) (offset : Nat) (c : Char) : List Visit :=
  match s.phase with
  | .code => codeVisits s.depth offset c
  | .slash =>
      if c = '/' ∨ c = '*' then []
      else ⟨offset - 1, '/', s.depth⟩ :: codeVisits s.depth offset c
  | .lineComment => if c = '\n' then [⟨offset, c, s.depth⟩] else []
  | .block | .star | .string _ | .escape _ => []

/-- The scan of a text from this state on, with what is pending. -/
def resume (s : State) (offset : Nat) (text : List Char) : List Visit :=
  visits s.phase.mode s.depth (offset - s.phase.pending.length) (s.phase.pending ++ text)

/-! ## One character -/

section Steps

variable {depth offset : Nat} {c : Char} {rest : List Char}

theorem resume_code :
    resume ⟨.code, depth⟩ offset (c :: rest)
      = codeVisits depth offset c ++ (code depth c).resume (offset + 1) rest := by
  by_cases slash : c = '/'
  · subst slash
    simp [codeVisits, code, resume]
  by_cases quote : isQuote c
  · simpa [codeVisits, code, slash, quote, resume]
      using visits_quote quote
  · have plain : visits .code depth offset (c :: rest)
        = ⟨offset, c, depth⟩ :: visits .code (depthAfter depth c) (offset + 1) rest :=
      visits_code (Bool.eq_false_iff.mpr quote) fun equal => absurd equal slash
    simpa [codeVisits, code, slash, quote, resume] using plain

theorem resume_slash (fits : 0 < offset) :
    resume ⟨.slash, depth⟩ offset (c :: rest)
      = reads ⟨.slash, depth⟩ offset c ++ (advance ⟨.slash, depth⟩ c).resume (offset + 1) rest := by
  have next : offset - 1 + 2 = offset + 1 := by omega
  by_cases line : c = '/'
  · subst line
    simp [reads, advance, resume, visits, next]
  by_cases block : c = '*'
  · subst block
    simp [reads, advance, resume, visits, next]
  · have alone : Detached (c :: rest) := by simp [Detached, line, block]
    have here : offset - 1 + 1 = offset := by omega
    have lone : visits .code depth (offset - 1) ('/' :: c :: rest)
        = ⟨offset - 1, '/', depth⟩ :: visits .code depth (offset - 1 + 1) (c :: rest) :=
      visits_code rfl fun _ => alone
    calc resume ⟨.slash, depth⟩ offset (c :: rest)
        = ⟨offset - 1, '/', depth⟩ :: visits .code depth (offset - 1 + 1) (c :: rest) := lone
      _ = ⟨offset - 1, '/', depth⟩ :: resume ⟨.code, depth⟩ offset (c :: rest) := by
          rw [here]
          rfl
      _ = reads ⟨.slash, depth⟩ offset c
            ++ (advance ⟨.slash, depth⟩ c).resume (offset + 1) rest := by
          simp [reads, advance, line, block, resume_code]

theorem resume_star (fits : 0 < offset) :
    resume ⟨.star, depth⟩ offset (c :: rest)
      = (advance ⟨.star, depth⟩ c).resume (offset + 1) rest := by
  have next : offset - 1 + 2 = offset + 1 := by omega
  have here : offset - 1 + 1 = offset := by omega
  by_cases close : c = '/'
  · subst close
    simp [advance, resume, visits, next]
  have goesOn : visits .blockComment depth (offset - 1) ('*' :: c :: rest)
      = visits .blockComment depth offset (c :: rest) := by
    simp [visits, close, here]
  by_cases star : c = '*'
  · subst star
    simpa [advance, resume] using goesOn
  · simpa [advance, resume, close, star, visits] using goesOn

theorem resume_string {quote : Quote} :
    resume ⟨.string quote, depth⟩ offset (c :: rest)
      = (advance ⟨.string quote, depth⟩ c).resume (offset + 1) rest := by
  by_cases escape : c = '\\'
  · subst escape
    simp [advance, resume]
  by_cases close : c = quote
  · subst close
    simp [advance, resume, visits, escape]
  · simp [advance, resume, visits, escape, close]

/-- One step of the automaton is one step of the scan. -/
theorem resume_cons (s : State) (fits : s.phase.pending.length ≤ offset) :
    s.resume offset (c :: rest)
      = s.reads offset c ++ (s.advance c).resume (offset + 1) rest := by
  obtain ⟨phase, depth⟩ := s
  cases phase with
  | code => exact resume_code
  | slash => exact resume_slash fits
  | lineComment =>
      by_cases feed : c = '\n'
      · simp [reads, advance, resume, visits, feed]
      · simp [reads, advance, resume, visits, feed]
  | block =>
      by_cases star : c = '*'
      · simp [reads, advance, resume, star]
      · simp [reads, advance, resume, visits, star]
  | star => exact resume_star fits
  | string quote => exact resume_string
  | escape quote =>
      have next : offset - 1 + 2 = offset + 1 := by
        have : 0 < offset := fits
        omega
      simp [reads, advance, resume, visits, next]

theorem resume_nil (s : State) {v : Visit} (h : v ∈ s.resume offset []) : v.char = '/' := by
  obtain ⟨phase, depth⟩ := s
  -- Only a slash is left to be read.
  cases phase <;> simp [resume, visits, isQuote] at h
  simp [h]

end Steps

/-! ## Line feeds -/

section Feeds

variable {s : State} {offset : Nat} {text : List Char} {v : Visit}

/-- A line feed is visited where it leads back to code. -/
theorem mem_reads_feed {c : Char} (feed : v.char = '\n') :
    v ∈ s.reads offset c ↔ c = '\n' ∧ v.offset = offset ∧ s.advance '\n' = ⟨.code, v.depth⟩ := by
  obtain ⟨place, char, level⟩ := v
  obtain rfl : char = '\n' := feed
  obtain ⟨phase, depth⟩ := s
  by_cases here : c = '\n'
  · subst here
    have plain : isQuote '\n' = false := rfl
    have level : depthAfter depth '\n' = depth := rfl
    cases phase with
    | code => simp [reads, advance, codeVisits, code, plain, level, eq_comm]
    | slash => simp [reads, advance, codeVisits, code, plain, level, eq_comm]
    | lineComment => simp [reads, advance, eq_comm]
    | block => simp [reads, advance]
    | star => simp [reads, advance]
    | string quote => simp [reads, advance, quote.ne_feed.symm]
    | escape quote => simp [reads, advance]
  · cases phase <;> simp [reads, codeVisits, here, Ne.symm here]

theorem mem_resume_feed (fits : s.phase.pending.length ≤ offset) (feed : v.char = '\n') :
    v ∈ s.resume offset text ↔ ∃ ahead behind, text = ahead ++ '\n' :: behind ∧
      v.offset = offset + ahead.length ∧ (s.run ahead).advance '\n' = ⟨.code, v.depth⟩ := by
  induction text generalizing s offset with
  | nil =>
      have absent : v ∉ s.resume offset [] := by
        intro member
        have slash : v.char = '/' := resume_nil s member
        simp [feed] at slash
      simp [absent]
  | cons c rest ih =>
      have later := @ih (s.advance c) (offset + 1)
        (Nat.le_trans (Phase.pending_length_le _) (Nat.le_add_left 1 offset))
      simp only [resume_cons s fits, List.mem_append, mem_reads_feed feed, later]
      constructor
      · rintro (⟨rfl, place, leads⟩ | ⟨ahead, behind, rfl, place, leads⟩)
        · exact ⟨[], rest, rfl, place, leads⟩
        · refine ⟨c :: ahead, behind, rfl, ?_, leads⟩
          rw [place, List.length_cons, Nat.add_assoc, Nat.add_comm 1]
      · rintro ⟨ahead, behind, split, place, leads⟩
        cases ahead with
        | nil =>
            obtain ⟨rfl, rfl⟩ := List.cons.inj split
            exact .inl ⟨rfl, place, leads⟩
        | cons a ahead =>
            obtain ⟨rfl, rfl⟩ := List.cons.inj split
            refine .inr ⟨ahead, behind, rfl, ?_, leads⟩
            rw [place, List.length_cons, Nat.add_assoc, Nat.add_comm 1]

end Feeds

end State

/-! ## Lines at the top level -/

/-- A line starts at the top level exactly where the scan stands as it did at the very beginning. -/
theorem mem_lineStarts_iff {text : List Char} {start : Nat} :
    start ∈ lineStarts text ↔ start < text.length ∧
      (start = 0 ∨ (text.take start).getLast? = some '\n') ∧
      State.after (text.take start) = State.initial := by
  have visited (v : Visit) (feed : v.char = '\n') :
      v ∈ codeOf text ↔ ∃ ahead behind, text = ahead ++ '\n' :: behind ∧
        v.offset = 0 + ahead.length ∧ (State.after ahead).advance '\n' = ⟨.code, v.depth⟩ :=
    State.mem_resume_feed (s := State.initial) (Nat.le_refl 0) feed
  simp only [lineStarts, List.mem_filter, List.mem_cons, List.mem_map, Bool.and_eq_true,
    beq_iff_eq, decide_eq_true_eq]
  constructor
  · rintro ⟨rfl | ⟨v, ⟨member, feed, level⟩, rfl⟩, short⟩
    · exact ⟨short, .inl rfl, rfl⟩
    · obtain ⟨ahead, behind, rfl, place, leads⟩ := (visited v feed).mp member
      have cut : (ahead ++ '\n' :: behind).take (v.offset + 1) = ahead ++ ['\n'] := by
        simp [place, List.take_append, List.take_of_length_le]
      refine ⟨short, .inr (by simp [cut]), ?_⟩
      rw [cut, State.after_append, State.run_cons, leads, level]
      rfl
  · rintro ⟨short, rfl | feed, state⟩
    · exact ⟨.inl rfl, short⟩
    · obtain ⟨ahead, cut⟩ := List.getLast?_eq_some_iff.mp feed
      have split : text = ahead ++ '\n' :: text.drop start := by
        simpa [cut] using (List.take_append_drop start text).symm
      have length : ahead.length + 1 = start := by
        simpa [Nat.min_eq_left (Nat.le_of_lt short)] using (congrArg List.length cut).symm
      rw [cut, State.after_append] at state
      have member : ⟨ahead.length, '\n', 0⟩ ∈ codeOf text :=
        (visited ⟨ahead.length, '\n', 0⟩ rfl).mpr ⟨ahead, _, split, (Nat.zero_add _).symm, state⟩
      exact ⟨.inr ⟨_, ⟨member, rfl, rfl⟩, length⟩, short⟩

/-! ## Block comments -/

namespace State

variable {depth : Nat} {text : List Char}

/-- A star that no slash follows is like any other character of a comment. -/
theorem run_star (nonempty : text ≠ []) (notSlash : text.head? ≠ some '/') :
    run ⟨.star, depth⟩ text = run ⟨.block, depth⟩ text := by
  obtain ⟨c, rest, rfl⟩ := List.exists_cons_of_ne_nil nonempty
  have other : c ≠ '/' := fun slash => notSlash (congrArg some slash)
  have same : advance ⟨.star, depth⟩ c = advance ⟨.block, depth⟩ c := by
    simp [advance, other]
  exact congrArg (run · rest) same

theorem run_block_cons {c : Char} {rest : List Char} (nonempty : rest ≠ [])
    (early : c = '*' → rest.head? ≠ some '/') :
    run ⟨.block, depth⟩ (c :: rest) = run ⟨.block, depth⟩ rest := by
  by_cases star : c = '*'
  · subst star
    exact run_star nonempty (early rfl)
  · simp [advance, star]

/-- The automaton opens a comment where it is in code. -/
theorem after_opening {ahead : List Char} (code : (after ahead).phase = .code) :
    after (ahead ++ '/' :: '*' :: text) = run ⟨.block, (after ahead).depth⟩ text := by
  have opened : (after ahead).run ['/', '*'] = ⟨.block, (after ahead).depth⟩ := by
    simp [advance, code, State.code]
  calc after (ahead ++ '/' :: '*' :: text)
      = ((after ahead).run ['/', '*']).run text := after_append ..
    _ = run ⟨.block, (after ahead).depth⟩ text := by rw [opened]

end State

namespace Comment

variable {depth : Nat} {inside front behind : List Char}

/-- Behind a comment the automaton is in code again. -/
theorem run (h : Comment inside) : State.run ⟨.block, depth⟩ inside = ⟨.code, depth⟩ := by
  induction h with
  | close => rfl
  | char early comment ih => exact (State.run_block_cons comment.ne_nil early).trans ih

/-- In the middle of a comment it is not. -/
theorem run_front (h : Comment (front ++ behind)) (more : behind ≠ []) :
    (State.run ⟨.block, depth⟩ front).phase.isComment := by
  generalize whole : front ++ behind = inside at h
  induction h generalizing front with
  | close =>
      have short : front.length + behind.length = 2 := by
        simpa using congrArg List.length whole
      have rear : 0 < behind.length := List.length_pos_iff.mpr more
      match front with
      | [] => rfl
      | [c] =>
          obtain ⟨rfl, -⟩ := List.cons.inj whole
          rfl
      | _ :: _ :: _ =>
          simp only [List.length_cons] at short
          omega
  | @char c rest early comment ih =>
      match front with
      | [] => rfl
      | [c] => by_cases star : c = '*' <;> simp [State.advance, star, Phase.isComment]
      | c :: next :: front =>
          obtain ⟨rfl, others⟩ := List.cons.inj whole
          have apart : c = '*' → (next :: front).head? ≠ some '/' := by
            intro star
            simpa [← others] using early star
          rw [State.run_block_cons (List.cons_ne_nil _ _) apart]
          exact ih others

end Comment

end Declarations
end WireTypes
