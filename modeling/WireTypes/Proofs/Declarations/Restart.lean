import WireTypes.Proofs.Declarations.Phases

/-!
# Restart — the scan of a text from one of its lines

The lines that start at the top level of a text are searched for a declaration, and where it ends is found
by another scan, which begins with its line. That scan knows nothing of the text above the line, but it
reads what follows as the scan of the whole text does.

- `State.resume_append`: a scan is read as far as one likes, and resumed from the state that it is in then;
- `Leaves depth text`: a grammar of texts that are entered below some open brackets and leave nothing open;
- `leaves_iff`: those are the texts behind which the automaton is as it was at the beginning;
- `scan_restarts`: at the start of a line at the top level nothing is open, and the scan can begin anew.
-/

namespace WireTypes
namespace Declarations

/-! ## The rest of a scan -/

/-- A visit of a text that stands behind another one of this length. -/
def Visit.behind (front : Nat) (v : Visit) : Visit := { v with offset := front + v.offset }

namespace State

variable {s : State} {offset : Nat} {c : Char} {text behind : List Char} {v : Visit}

theorem reads_add (front : Nat) (fits : s.phase.pending.length ≤ offset) :
    s.reads (front + offset) c = (s.reads offset c).map (Visit.behind front) := by
  have plain : codeVisits s.depth (front + offset) c
      = (codeVisits s.depth offset c).map (Visit.behind front) := by
    unfold codeVisits
    split <;> rfl
  obtain ⟨phase, depth⟩ := s
  cases phase with
  | code => exact plain
  | slash =>
      have before : front + offset - 1 = front + (offset - 1) := Nat.add_sub_assoc fits front
      unfold reads
      dsimp only
      split
      · rfl
      · rw [plain, before]
        rfl
  | lineComment =>
      unfold reads
      dsimp only
      split <;> rfl
  | block | star | string _ | escape _ => rfl

/-- The scan does not depend on where the text stands. -/
theorem resume_add (front : Nat) (fits : s.phase.pending.length ≤ offset) :
    s.resume (front + offset) text = (s.resume offset text).map (Visit.behind front) := by
  induction text generalizing s offset with
  | nil =>
      -- At the end of the text only a slash that is pending is still visited.
      obtain ⟨phase, depth⟩ := s
      cases phase with
      | slash =>
          have before : front + offset - 1 = front + (offset - 1) := Nat.add_sub_assoc fits front
          simp [resume, visits, isQuote, Visit.behind, before]
      | _ => simp [resume, visits]
  | cons c rest ih =>
      have later : (s.advance c).resume (front + (offset + 1)) rest
          = ((s.advance c).resume (offset + 1) rest).map (Visit.behind front) :=
        ih (Nat.le_trans (Phase.pending_length_le _) (Nat.le_add_left 1 offset))
      calc s.resume (front + offset) (c :: rest)
          = s.reads (front + offset) c ++ (s.advance c).resume (front + offset + 1) rest :=
            resume_cons s (Nat.le_trans fits (Nat.le_add_left offset front))
        _ = (s.reads offset c).map (Visit.behind front)
              ++ ((s.advance c).resume (offset + 1) rest).map (Visit.behind front) := by
            rw [reads_add front fits, Nat.add_assoc, later]
        _ = (s.resume offset (c :: rest)).map (Visit.behind front) := by
            rw [resume_cons s fits, List.map_append]

/-- What the automaton visits within a text; a slash at its end is left pending. -/
def visited (s : State) (offset : Nat) : List Char → List Visit
  | [] => []
  | c :: rest => s.reads offset c ++ (s.advance c).visited (offset + 1) rest

/-- A scan is resumed behind a part of the text from the state that the part leads to. -/
theorem resume_append (fits : s.phase.pending.length ≤ offset) :
    s.resume offset (text ++ behind)
      = s.visited offset text ++ (s.run text).resume (offset + text.length) behind := by
  induction text generalizing s offset with
  | nil => rfl
  | cons c rest ih =>
      have later : (s.advance c).resume (offset + 1) (rest ++ behind)
          = (s.advance c).visited (offset + 1) rest
            ++ ((s.advance c).run rest).resume (offset + 1 + rest.length) behind :=
        ih (Nat.le_trans (Phase.pending_length_le _) (Nat.le_add_left 1 offset))
      have length : offset + 1 + rest.length = offset + (c :: rest).length := by
        rw [List.length_cons, Nat.add_assoc, Nat.add_comm 1]
      calc s.resume offset (c :: (rest ++ behind))
          = s.reads offset c ++ (s.advance c).resume (offset + 1) (rest ++ behind) :=
            resume_cons s fits
        _ = s.visited offset (c :: rest)
              ++ (s.run (c :: rest)).resume (offset + (c :: rest).length) behind := by
            rw [later, length, ← List.append_assoc]
            rfl

theorem le_of_mem_reads (h : v ∈ s.reads offset c) : v.offset ≤ offset := by
  have plain : ∀ depth, v ∈ codeVisits depth offset c → v.offset ≤ offset := by
    intro depth member
    unfold codeVisits at member
    split at member
    · cases member
    · exact Nat.le_of_eq (congrArg Visit.offset (List.mem_singleton.mp member))
  obtain ⟨phase, depth⟩ := s
  cases phase with
  | code => exact plain depth h
  | slash =>
      unfold reads at h
      dsimp only at h
      split at h
      · cases h
      · rcases List.mem_cons.mp h with rfl | member
        · exact Nat.sub_le offset 1
        · exact plain depth member
  | lineComment =>
      unfold reads at h
      dsimp only at h
      split at h
      · exact Nat.le_of_eq (congrArg Visit.offset (List.mem_singleton.mp h))
      · cases h
  | block | star | string _ | escape _ => cases h

theorem lt_of_mem_visited (h : v ∈ s.visited offset text) : v.offset < offset + text.length := by
  induction text generalizing s offset with
  | nil => cases h
  | cons c rest ih =>
      rw [List.length_cons]
      rcases List.mem_append.mp h with here | later
      · have near := le_of_mem_reads here
        omega
      · have far := ih later
        omega

end State

/-- Behind a text that leads back to the beginning, the scan begins anew. -/
theorem codeOf_append {front behind : List Char} (closed : State.after front = State.initial) :
    codeOf (front ++ behind)
      = State.initial.visited 0 front ++ (codeOf behind).map (Visit.behind front.length) := by
  have start (text : List Char) (offset : Nat) :
      State.initial.resume offset text = visits .code 0 offset text := rfl
  calc codeOf (front ++ behind)
      = State.initial.resume 0 (front ++ behind) := rfl
    _ = State.initial.visited 0 front ++ (State.after front).resume (0 + front.length) behind :=
        State.resume_append (Nat.le_refl 0)
    _ = State.initial.visited 0 front ++ State.initial.resume (front.length + 0) behind := by
        rw [closed, Nat.zero_add, Nat.add_zero]
    _ = State.initial.visited 0 front ++ (codeOf behind).map (Visit.behind front.length) := by
        rw [State.resume_add front.length (Nat.le_refl 0)]
        rfl

/-- The visits of a text from the first character behind its front on. -/
theorem filter_codeOf_append {front : List Char} (closed : State.after front = State.initial)
    (behind : List Char) :
    (codeOf (front ++ behind)).filter (front.length ≤ ·.offset)
      = (codeOf behind).map (Visit.behind front.length) := by
  have above : (State.initial.visited 0 front).filter (front.length ≤ ·.offset) = [] := by
    apply List.filter_eq_nil_iff.mpr
    intro v member
    have early : v.offset < 0 + front.length := State.lt_of_mem_visited member
    simpa using early
  have below : ((codeOf behind).map (Visit.behind front.length)).filter (front.length ≤ ·.offset)
      = (codeOf behind).map (Visit.behind front.length) := by
    apply List.filter_eq_self.mpr
    intro v member
    obtain ⟨w, -, rfl⟩ := List.mem_map.mp member
    simp [Visit.behind]
  rw [codeOf_append closed, List.filter_append, above, below, List.nil_append]

/-! ## Texts that leave nothing open -/

/-- Texts that are entered below a number of open brackets and leave nothing open. Between the closing
brackets they are closed, and a closing bracket where none is open closes nothing. -/
inductive Leaves : Nat → List Char → Prop
  | done {text} : Closed (fun _ _ => True) text → Leaves 0 text
  | close {depth front c rest} :
      Closed (fun _ _ => True) front → isClosing c → Leaves depth rest →
        Leaves (depth + 1) (front ++ c :: rest)
  | stray {front c rest} :
      Closed (fun _ _ => True) front → isClosing c → Leaves 0 rest → Leaves 0 (front ++ c :: rest)

namespace Leaves

variable {depth : Nat} {c : Char} {text word : List Char}

/-- What keeps closed texts closed in front of them may stand in front of the whole text. -/
theorem prepend (h : Leaves depth text)
    (grow : ∀ front behind, text = front ++ behind → Closed (fun _ _ => True) front →
      Closed (fun _ _ => True) (word ++ front)) :
    Leaves depth (word ++ text) := by
  cases h with
  | done closed => exact .done (grow text [] (List.append_nil text).symm closed)
  | close closed isClose rest =>
      rw [← List.append_assoc]
      exact .close (grow _ _ rfl closed) isClose rest
  | stray closed isClose rest =>
      rw [← List.append_assoc]
      exact .stray (grow _ _ rfl closed) isClose rest

/-- The first bracket that is closed and was not opened belongs to the one in front of the text. -/
theorem opened (h : Leaves (depth + 1) text) (isOpen : isOpening c) : Leaves depth (c :: text) := by
  cases h with
  | @close _ front d rest closed isClose behind =>
      have group : Leaves depth ((c :: (front ++ [d])) ++ rest) := by
        apply behind.prepend
        intro next _ _ nextClosed
        simpa using Closed.brackets isOpen isClose closed nextClosed
      simpa using group

theorem plain (h : Leaves depth text) (plain : Plain c text) : Leaves depth (c :: text) := by
  show Leaves depth ([c] ++ text)
  apply h.prepend
  rintro front behind rfl closed
  refine .plain ⟨plain.quote, plain.opening, plain.closing, fun slash => ?_⟩ trivial closed
  have detached : Detached (front ++ behind) := plain.slash slash
  cases front with
  | nil => simp [Detached]
  | cons => exact detached

theorem closing (h : Leaves (depth - 1) text) (isClose : isClosing c) : Leaves depth (c :: text) := by
  cases depth with
  | zero => exact .stray .nil isClose h
  | succ depth => exact .close .nil isClose h

end Leaves

/-! ### The ends of comments and strings -/

namespace State

variable {depth : Nat} {text : List Char}

theorem lineComment_ends (h : run ⟨.lineComment, depth⟩ text = initial) :
    ∃ inside rest, text = inside ++ '\n' :: rest ∧ '\n' ∉ inside ∧
      run ⟨.code, depth⟩ rest = initial := by
  induction text with
  | nil => cases h
  | cons c rest ih =>
      by_cases feed : c = '\n'
      · subst feed
        exact ⟨[], rest, rfl, List.not_mem_nil, h⟩
      · have same : advance ⟨.lineComment, depth⟩ c = ⟨.lineComment, depth⟩ := by
          simp [advance, feed]
        rw [run_cons, same] at h
        obtain ⟨inside, behind, rfl, noFeed, ends⟩ := ih h
        refine ⟨c :: inside, behind, rfl, ?_, ends⟩
        simpa [Ne.symm feed] using noFeed

/-- A block comment ends, also where its star has been read. -/
theorem block_ends :
    (run ⟨.block, depth⟩ text = initial →
      ∃ inside rest, text = inside ++ rest ∧ Comment inside ∧ run ⟨.code, depth⟩ rest = initial) ∧
    (run ⟨.star, depth⟩ text = initial →
      ∃ inside rest, text = inside ++ rest ∧ Comment ('*' :: inside) ∧
        run ⟨.code, depth⟩ rest = initial) := by
  induction text with
  | nil => exact ⟨nofun, nofun⟩
  | cons c rest ih =>
      obtain ⟨block, star⟩ := ih
      constructor
      -- Only a star that a slash follows ends the comment; another star may come before it.
      · intro h
        by_cases isStar : c = '*'
        · subst isStar
          obtain ⟨inside, behind, rfl, comment, ends⟩ := star h
          exact ⟨'*' :: inside, behind, rfl, comment, ends⟩
        · have same : advance ⟨.block, depth⟩ c = ⟨.block, depth⟩ := by simp [advance, isStar]
          rw [run_cons, same] at h
          obtain ⟨inside, behind, rfl, comment, ends⟩ := block h
          exact ⟨c :: inside, behind, rfl, .char (fun equal => absurd equal isStar) comment, ends⟩
      · intro h
        by_cases slash : c = '/'
        · subst slash
          exact ⟨['/'], rest, rfl, .close, h⟩
        by_cases isStar : c = '*'
        · subst isStar
          obtain ⟨inside, behind, rfl, comment, ends⟩ := star h
          exact ⟨'*' :: inside, behind, rfl, .char (fun _ => by simp) comment, ends⟩
        · have back : advance ⟨.star, depth⟩ c = ⟨.block, depth⟩ := by
            simp [advance, slash, isStar]
          rw [run_cons, back] at h
          obtain ⟨inside, behind, rfl, comment, ends⟩ := block h
          refine ⟨c :: inside, behind, rfl, .char (fun _ => by simp [slash]) ?_, ends⟩
          exact .char (fun equal => absurd equal isStar) comment

/-- A string ends, also where its backslash has been read. -/
theorem string_ends {quote : Quote} :
    (run ⟨.string quote, depth⟩ text = initial →
      ∃ inside rest, text = inside ++ rest ∧ Quoted quote inside ∧
        run ⟨.code, depth⟩ rest = initial) ∧
    (run ⟨.escape quote, depth⟩ text = initial →
      ∃ c inside rest, text = c :: (inside ++ rest) ∧ Quoted quote inside ∧
        run ⟨.code, depth⟩ rest = initial) := by
  induction text with
  | nil => exact ⟨nofun, nofun⟩
  | cons c rest ih =>
      obtain ⟨string, escape⟩ := ih
      constructor
      -- A backslash takes the next character with it, and a quotation mark ends the string.
      · intro h
        by_cases backslash : c = '\\'
        · subst backslash
          obtain ⟨d, inside, behind, rfl, quoted, ends⟩ := escape h
          exact ⟨'\\' :: d :: inside, behind, rfl, .escape quoted, ends⟩
        by_cases close : c = quote
        · have back : advance ⟨.string quote, depth⟩ c = ⟨.code, depth⟩ := by
            simp only [advance, if_neg backslash, if_pos close]
          rw [run_cons, back] at h
          exact ⟨[c], rest, rfl, close ▸ .close, h⟩
        · have same : advance ⟨.string quote, depth⟩ c = ⟨.string quote, depth⟩ := by
            simp [advance, backslash, close]
          rw [run_cons, same] at h
          obtain ⟨inside, behind, rfl, quoted, ends⟩ := string h
          exact ⟨c :: inside, behind, rfl, .char backslash close quoted, ends⟩
      · intro h
        obtain ⟨inside, behind, rfl, quoted, ends⟩ := string h
        exact ⟨c, inside, behind, rfl, quoted, ends⟩

/-- A slash that opens no comment is like any other character of code. -/
theorem run_slash (nonempty : text ≠ []) (detached : Detached text) :
    run ⟨.slash, depth⟩ text = run ⟨.code, depth⟩ text := by
  obtain ⟨c, rest, rfl⟩ := List.exists_cons_of_ne_nil nonempty
  obtain ⟨slash, star⟩ : c ≠ '/' ∧ c ≠ '*' := by simpa [Detached] using detached
  have same : advance ⟨.slash, depth⟩ c = advance ⟨.code, depth⟩ c := by
    simp [advance, slash, star]
  exact congrArg (run · rest) same

end State

/-! ### The grammar and the automaton -/

open State

section

variable {depth n : Nat} {c : Char} {rest : List Char}
  (shorter : ∀ {depth : Nat} {text : List Char}, text.length ≤ n →
    run ⟨.code, depth⟩ text = initial → Leaves depth text)

include shorter

theorem leaves_slash (size : rest.length ≤ n) (h : run ⟨.slash, depth⟩ rest = initial) :
    Leaves depth ('/' :: rest) := by
  cases rest with
  | nil => cases h
  | cons c rest =>
      -- The slash opens a line comment or a block comment, or it is a character of code.
      by_cases line : c = '/'
      · subst line
        obtain ⟨inside, behind, rfl, noFeed, ends⟩ := lineComment_ends h
        have later : Leaves depth behind := by
          apply shorter _ ends
          simp only [List.length_append, List.length_cons] at size
          omega
        have comment : Leaves depth (('/' :: '/' :: (inside ++ ['\n'])) ++ behind) := by
          apply later.prepend
          intro front _ _ closed
          simpa using Closed.lineComment noFeed trivial closed
        simpa using comment
      by_cases block : c = '*'
      · subst block
        obtain ⟨inside, behind, rfl, comment, ends⟩ := block_ends.1 h
        have later : Leaves depth behind := by
          apply shorter _ ends
          simp only [List.length_append, List.length_cons] at size
          omega
        show Leaves depth (('/' :: '*' :: inside) ++ behind)
        apply later.prepend
        intro front _ _ closed
        exact .blockComment comment closed
      · have detached : Detached (c :: rest) := by simp [Detached, line, block]
        have ends : run ⟨.code, depth⟩ (c :: rest) = initial :=
          (run_slash (List.cons_ne_nil c rest) detached).symm.trans h
        exact (shorter size ends).plain ⟨rfl, rfl, rfl, fun _ => detached⟩

theorem leaves_string {quote : Quote} (size : rest.length ≤ n)
    (h : run ⟨.string quote, depth⟩ rest = initial) : Leaves depth (quote :: rest) := by
  obtain ⟨inside, behind, rfl, quoted, ends⟩ := string_ends.1 h
  have later : Leaves depth behind := by
    apply shorter _ ends
    rw [List.length_append] at size
    omega
  show Leaves depth ((quote.val :: inside) ++ behind)
  apply later.prepend
  intro front _ _ closed
  exact .string quote.property quoted closed

theorem leaves_char (size : rest.length ≤ n) (slash : c ≠ '/') (quote : isQuote c = false)
    (h : run ⟨.code, depthAfter depth c⟩ rest = initial) : Leaves depth (c :: rest) := by
  have later : Leaves (depthAfter depth c) rest := shorter size h
  by_cases isOpen : isOpening c
  · rw [depthAfter_opening isOpen] at later
    exact later.opened isOpen
  by_cases isClose : isClosing c
  · rw [depthAfter_closing isClose] at later
    exact later.closing isClose
  · have plain : Plain c rest :=
      ⟨quote, by simpa using isOpen, by simpa using isClose, fun equal => absurd equal slash⟩
    rw [depthAfter_plain plain] at later
    exact later.plain plain

end

/-- Where the automaton gets back to the beginning, nothing is left open. By induction on the length of the
text: what comes first is a comment, a string or a single character. -/
theorem leaves_of_run {depth n : Nat} {text : List Char} (size : text.length ≤ n)
    (h : run ⟨.code, depth⟩ text = initial) : Leaves depth text := by
  induction n generalizing depth text with
  | zero =>
      obtain rfl : text = [] := List.length_eq_zero_iff.mp (Nat.le_zero.mp size)
      obtain rfl : depth = 0 := congrArg State.depth h
      exact .done .nil
  | succ n ih =>
      cases text with
      | nil =>
          obtain rfl : depth = 0 := congrArg State.depth h
          exact .done .nil
      | cons c rest =>
          have short : rest.length ≤ n := Nat.le_of_succ_le_succ size
          by_cases slash : c = '/'
          · subst slash
            exact leaves_slash ih short h
          by_cases quote : isQuote c
          · have enters : advance ⟨.code, depth⟩ c = ⟨.string ⟨c, quote⟩, depth⟩ := by
              simp [advance, State.code, slash, quote]
            rw [run_cons, enters] at h
            exact leaves_string ih short h
          · have goesOn : advance ⟨.code, depth⟩ c = ⟨.code, depthAfter depth c⟩ := by
              simp [advance, State.code, slash, quote]
            rw [run_cons, goesOn] at h
            exact leaves_char ih short slash (by simpa using quote) h

namespace State

variable {depth : Nat} {c : Char} {text behind : List Char}

theorem run_lineComment (noFeed : '\n' ∉ text) :
    run ⟨.lineComment, depth⟩ (text ++ '\n' :: behind) = run ⟨.code, depth⟩ behind := by
  induction text with
  | nil => rfl
  | cons c rest ih =>
      obtain ⟨other, within⟩ : '\n' ≠ c ∧ '\n' ∉ rest := by simpa using noFeed
      have same : advance ⟨.lineComment, depth⟩ c = ⟨.lineComment, depth⟩ := by
        simp [advance, Ne.symm other]
      calc run ⟨.lineComment, depth⟩ (c :: (rest ++ '\n' :: behind))
          = run ⟨.lineComment, depth⟩ (rest ++ '\n' :: behind) := congrArg (run · _) same
        _ = run ⟨.code, depth⟩ behind := ih within

theorem run_quoted {quote : Quote} (h : Quoted quote text) :
    run ⟨.string quote, depth⟩ text = ⟨.code, depth⟩ := by
  have noEscape : quote.val ≠ '\\' := by
    intro backslash
    have opens : isQuote '\\' := backslash ▸ quote.property
    cases opens
  induction h with
  | close => simp [advance, noEscape]
  | escape _ ih => exact ih
  | @char c rest other noQuote _ ih =>
      have same : advance ⟨.string quote, depth⟩ c = ⟨.string quote, depth⟩ := by
        simp [advance, other, noQuote]
      exact (congrArg (run · rest) same).trans ih

theorem run_bracket (slash : c ≠ '/') (quote : isQuote c = false) :
    run ⟨.code, depth⟩ (c :: text) = run ⟨.code, depthAfter depth c⟩ text := by
  simp [advance, State.code, slash, quote]

theorem run_opening (h : isOpening c) :
    run ⟨.code, depth⟩ (c :: text) = run ⟨.code, depth + 1⟩ text := by
  rcases isOpening_iff.mp h with rfl | rfl | rfl <;> rfl

theorem run_closing (h : isClosing c) :
    run ⟨.code, depth⟩ (c :: text) = run ⟨.code, depth - 1⟩ text := by
  rcases isClosing_iff.mp h with rfl | rfl | rfl <;> rfl

end State

/-- What stands behind a text decides on the slash at its end. -/
def Decides (text behind : List Char) : Prop :=
  text.getLast? = some '/' → behind ≠ [] ∧ Detached behind

theorem Decides.suffix (ahead : List Char) {text behind : List Char}
    (h : Decides (ahead ++ text) behind) : Decides text behind := by
  intro last
  exact h (by simp [last])

/-- The automaton leaves a closed text as it entered it. -/
theorem Closed.run_append {P : Char → List Char → Prop} {text : List Char} (h : Closed P text)
    {depth : Nat} {behind : List Char} (decides : Decides text behind) :
    run ⟨.code, depth⟩ (text ++ behind) = run ⟨.code, depth⟩ behind := by
  induction h generalizing depth behind with
  | nil => rfl
  | @plain P c rest plain _ _ ih =>
      have later : run ⟨.code, depth⟩ (rest ++ behind) = run ⟨.code, depth⟩ behind :=
        ih (decides.suffix [c])
      by_cases slash : c = '/'
      · subst slash
        have follows : rest ++ behind ≠ [] ∧ Detached (rest ++ behind) := by
          cases rest with
          | nil => exact decides rfl
          | cons d rest => exact ⟨List.cons_ne_nil _ _, plain.slash rfl⟩
        exact (run_slash follows.1 follows.2).trans later
      · calc run ⟨.code, depth⟩ (c :: (rest ++ behind))
            = run ⟨.code, depthAfter depth c⟩ (rest ++ behind) := run_bracket slash plain.quote
          _ = run ⟨.code, depth⟩ behind := by rw [depthAfter_plain plain, later]
  | @lineComment P inside rest noFeed _ _ ih =>
      have regroup : '/' :: '/' :: (inside ++ '\n' :: rest)
          = ('/' :: '/' :: (inside ++ ['\n'])) ++ rest := by simp
      calc run ⟨.code, depth⟩ ('/' :: '/' :: (inside ++ '\n' :: rest) ++ behind)
          = run ⟨.lineComment, depth⟩ (inside ++ '\n' :: (rest ++ behind)) := by
            simp [advance, State.code]
        _ = run ⟨.code, depth⟩ (rest ++ behind) := run_lineComment noFeed
        _ = run ⟨.code, depth⟩ behind := ih (Decides.suffix _ (regroup ▸ decides))
  | @blockComment P inside rest comment _ ih =>
      calc run ⟨.code, depth⟩ ('/' :: '*' :: (inside ++ rest) ++ behind)
          = run ⟨.block, depth⟩ (inside ++ (rest ++ behind)) := by simp [advance, State.code]
        _ = run (run ⟨.block, depth⟩ inside) (rest ++ behind) := State.run_append ..
        _ = run ⟨.code, depth⟩ (rest ++ behind) := by rw [comment.run]
        _ = run ⟨.code, depth⟩ behind := ih (decides.suffix ('/' :: '*' :: inside))
  | @string P quote inside rest isQuote quoted _ ih =>
      have slash : quote ≠ '/' := by
        rintro rfl
        cases isQuote
      calc run ⟨.code, depth⟩ (quote :: (inside ++ rest) ++ behind)
          = run ⟨.string ⟨quote, isQuote⟩, depth⟩ (inside ++ (rest ++ behind)) := by
            simp [advance, State.code, slash, isQuote]
        _ = run (run ⟨.string ⟨quote, isQuote⟩, depth⟩ inside) (rest ++ behind) :=
            State.run_append ..
        _ = run ⟨.code, depth⟩ (rest ++ behind) := by rw [run_quoted quoted]
        _ = run ⟨.code, depth⟩ behind := ih (decides.suffix (quote :: inside))
  | @brackets P opening inside closing rest isOpen isClose _ _ within ih =>
      have regroup : opening :: (inside ++ closing :: rest)
          = (opening :: (inside ++ [closing])) ++ rest := by simp
      -- A slash at the end of the inside does not open a comment, since a bracket follows it.
      have ends : Decides inside (closing :: (rest ++ behind)) :=
        fun _ => ⟨List.cons_ne_nil _ _, detached_closing isClose⟩
      calc run ⟨.code, depth⟩ (opening :: (inside ++ closing :: rest) ++ behind)
          = run ⟨.code, depth⟩ (opening :: (inside ++ closing :: (rest ++ behind))) := by simp
        _ = run ⟨.code, depth + 1⟩ (inside ++ closing :: (rest ++ behind)) := run_opening isOpen
        _ = run ⟨.code, depth + 1⟩ (closing :: (rest ++ behind)) := within ends
        _ = run ⟨.code, depth⟩ (rest ++ behind) := run_closing isClose
        _ = run ⟨.code, depth⟩ behind := ih (Decides.suffix _ (regroup ▸ decides))

theorem Leaves.run {depth : Nat} {text : List Char} (h : Leaves depth text)
    (noSlash : text.getLast? ≠ some '/') : run ⟨.code, depth⟩ text = initial := by
  -- A closing bracket lowers the depth, and at the top level it leaves it at zero.
  have behind {front rest : List Char} {c : Char} (closed : Closed (fun _ _ => True) front)
      (isClose : isClosing c) (depth : Nat) :
      State.run ⟨.code, depth⟩ (front ++ c :: rest) = State.run ⟨.code, depth - 1⟩ rest := by
    have ends : Decides front (c :: rest) :=
      fun _ => ⟨List.cons_ne_nil _ _, detached_closing isClose⟩
    exact (closed.run_append ends).trans (run_closing isClose)
  have last {front rest : List Char} {c : Char} (slash : rest.getLast? = some '/') :
      (front ++ c :: rest).getLast? = some '/' := by
    simp [List.getLast?_cons, slash]
  induction h with
  | @done text closed =>
      have same : State.run ⟨.code, 0⟩ (text ++ []) = State.run ⟨.code, 0⟩ [] :=
        closed.run_append fun slash => absurd slash noSlash
      rwa [List.append_nil] at same
  | close closed isClose _ ih =>
      exact (behind closed isClose _).trans (ih fun slash => noSlash (last slash))
  | stray closed isClose _ ih =>
      exact (behind closed isClose 0).trans (ih fun slash => noSlash (last slash))

/-- Nothing is open behind a text exactly if the automaton is as it was at the beginning. -/
theorem leaves_iff {text : List Char} (noSlash : text.getLast? ≠ some '/') :
    Leaves 0 text ↔ after text = initial :=
  ⟨fun h => h.run noSlash, leaves_of_run (Nat.le_refl text.length)⟩

/-! ## Restarting -/

/-- Where the declaration ends that begins at an offset, by the scan of the whole text. -/
def endFrom (kind : Kind) (text : List Char) (start : Nat) : Nat :=
  match ((codeOf text).filter (start ≤ ·.offset)).find? kind.endsAt with
  | some v => v.offset + 1
  | none => text.length

/-- The lines that are reported are those that start with nothing open. -/
theorem mem_lineStarts_iff_leaves {text : List Char} {start : Nat} :
    start ∈ lineStarts text ↔ start < text.length ∧
      (start = 0 ∨ (text.take start).getLast? = some '\n') ∧ Leaves 0 (text.take start) := by
  rw [mem_lineStarts_iff]
  apply and_congr_right
  intro _
  apply and_congr_right
  intro line
  apply Iff.symm
  apply leaves_iff
  rcases line with rfl | feed
  · simp
  · simp [feed]

/-- Lexing can restart at every line that is reported, and at no other one: a line is reported exactly if
the text above it leaves nothing open. From there on the scan of the rest gives the characters and depths
of the scan of the whole text, and so it finds the same end of a declaration. -/
theorem scan_restarts (text : List Char) (start : Nat) :
    (start ∈ lineStarts text ↔ start < text.length ∧
      (start = 0 ∨ (text.take start).getLast? = some '\n') ∧ Leaves 0 (text.take start)) ∧
    (start ∈ lineStarts text →
      (codeOf text).filter (start ≤ ·.offset)
          = (codeOf (text.drop start)).map (Visit.behind start) ∧
        ∀ kind, start + declarationLength kind (text.drop start) = endFrom kind text start) := by
  refine ⟨mem_lineStarts_iff_leaves, fun member => ?_⟩
  obtain ⟨short, -, closed⟩ := mem_lineStarts_iff.mp member
  have length : (text.take start).length = start := by simp [Nat.le_of_lt short]
  have visits : (codeOf text).filter (start ≤ ·.offset)
      = (codeOf (text.drop start)).map (Visit.behind start) := by
    have rest := filter_codeOf_append closed (text.drop start)
    rwa [List.take_append_drop, length] at rest
  refine ⟨visits, fun kind => ?_⟩
  -- What ends a declaration does not depend on where it stands.
  have same : kind.endsAt ∘ Visit.behind start = kind.endsAt := by
    funext v
    cases kind <;> rfl
  rw [endFrom, visits, List.find?_map, same, declarationLength]
  cases (codeOf (text.drop start)).find? kind.endsAt with
  | none => simp [Nat.le_of_lt short]
  | some v => rfl

/-- A bracket that is closed above any opening one does not put the scan off. -/
theorem scan_restarts_behind_stray :
    2 ∈ lineStarts "\x7d\ninterface A \x7b\n\x7d\n".toList ∧
      2 + declarationLength .interface ("\x7d\ninterface A \x7b\n\x7d\n".toList.drop 2) =
        endFrom .interface "\x7d\ninterface A \x7b\n\x7d\n".toList 2 := by
  have member : 2 ∈ lineStarts "\x7d\ninterface A \x7b\n\x7d\n".toList := by decide
  exact ⟨member, ((scan_restarts _ 2).2 member).2 .interface⟩

end Declarations
end WireTypes
