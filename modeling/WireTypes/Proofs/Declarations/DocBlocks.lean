import WireTypes.Proofs.Declarations.Phases
import WireTypes.Proofs.Declarations.Removal

/-!
# DocBlocks — the documentation block above a declaration

`docStart?` looks for the block backwards, as text: for the last `*/` and the last `/*` before it. The
scan reads the file forwards and knows comments and strings. Both are compared on the texts that end
like a documentation block on lines of its own.

- `DocTail`: such a text; `IsComment` says that the scan reads the block as one comment, `Single` that no
  other opening stands inside of it;
- `docStart?_eq_some_iff`: the search finds the start of the single block;
- `docStart?_agrees_iff`: where it agrees with the scan, and what is removed with a declaration then.
-/

namespace WireTypes
namespace Declarations

/-! ## Texts that end like a documentation block -/

/-- A text with `/**` behind blanks at the start of a line, and nothing but blanks between the last
`*/` and the end of the last line. -/
structure DocTail where
  lines : List Char
  indent : List Char
  content : List Char
  blanks : List Char
  fresh : lines = [] ∨ lines.getLast? = some '\n'
  margin : ∀ c ∈ indent, c ≠ '\n' ∧ Text.isBlank c
  doubled : (content ++ ['*', '/']).head? = some '*'
  trailing : ∀ c ∈ blanks, isLineBlank c

namespace DocTail

variable {d e : DocTail}

/-- What stands behind the opening, up to and with the closing. -/
def inside (d : DocTail) : List Char := d.content ++ ['*', '/']

def text (d : DocTail) : List Char :=
  d.lines ++ (d.indent ++ '/' :: '*' :: (d.inside ++ (d.blanks ++ ['\n'])))

/-- The scan reads the block as one comment. -/
structure IsComment (d : DocTail) : Prop where
  opens : (State.after (d.lines ++ d.indent)).phase = .code
  closes : Comment d.inside

/-- No other comment opens inside. -/
def Single (d : DocTail) : Prop := ¬ ['/', '*'] <:+: d.content

theorem not_mem_indent : '/' ∉ d.indent := by
  intro member
  have blank : Text.isBlank '/' := (d.margin '/' member).2
  cases blank

theorem not_mem_blanks {c : Char} (h : isLineBlank c = false) : c ∉ d.blanks := by
  intro member
  have blank : isLineBlank c := d.trailing c member
  simp [h] at blank

end DocTail

theorem eq_of_append_cons {left right behind rest : List Char} {c : Char}
    (h : left ++ c :: behind = right ++ c :: rest) (freeLeft : c ∉ left) (freeRight : c ∉ right) :
    left = right ∧ behind = rest := by
  have within : left <+: right := isPrefix_of_isPrefix_append_cons ⟨c :: behind, h⟩ freeLeft
  have around : right <+: left := isPrefix_of_isPrefix_append_cons ⟨c :: rest, h.symm⟩ freeRight
  obtain rfl : left = right :=
    within.eq_of_length (Nat.le_antisymm within.length_le around.length_le)
  exact ⟨rfl, (List.cons.inj (List.append_cancel_left h)).2⟩

/-- The line where it starts determines the block. -/
theorem DocTail.eq_of_text {d e : DocTail} (same : d.text = e.text)
    (start : d.lines.length = e.lines.length) : d = e := by
  obtain ⟨lines, line⟩ := List.append_inj same start
  obtain ⟨indent, block⟩ := eq_of_append_cons line d.not_mem_indent e.not_mem_indent
  have ends : d.blanks.reverse ++ '/' :: ('*' :: d.content.reverse)
      = e.blanks.reverse ++ '/' :: ('*' :: e.content.reverse) := by
    simpa [DocTail.inside] using congrArg List.reverse (List.cons.inj block).2
  have noSlash (t : DocTail) : '/' ∉ t.blanks.reverse := by
    simpa using t.not_mem_blanks rfl
  obtain ⟨blanks, content⟩ := eq_of_append_cons ends (noSlash d) (noSlash e)
  cases d
  cases e
  simp_all

/-- Above, the scan reads a documentation block that starts here. -/
def DocAbove (above : List Char) (start : Nat) : Prop :=
  ∃ d : DocTail, d.text = above ∧ d.IsComment ∧ d.lines.length = start

/-! ## The backwards search -/

theorem not_infix_of_lastIndexFrom? {pattern text : List Char} {offset : Nat}
    (word : pattern ≠ []) (h : lastIndexFrom? pattern offset text = none) :
    ¬ pattern <:+: text := by
  induction text generalizing offset with
  | nil => simp [word]
  | cons c rest ih =>
      cases later : lastIndexFrom? pattern (offset + 1) rest with
      | some j => simp [lastIndexFrom?, later] at h
      | none =>
          have here : ¬ pattern <+: c :: rest := by simpa [lastIndexFrom?, later] using h
          simp [List.infix_cons_iff, here, ih later]

theorem lastIndexFrom?_eq_some {pattern text : List Char} {offset i : Nat} (word : pattern ≠ [])
    (h : lastIndexFrom? pattern offset text = some i) :
    ∃ ahead c behind, text = ahead ++ c :: behind ∧ i = offset + ahead.length ∧
      pattern <+: c :: behind ∧ ¬ pattern <:+: behind := by
  induction text generalizing offset with
  | nil => simp [lastIndexFrom?, word] at h
  | cons c rest ih =>
      cases later : lastIndexFrom? pattern (offset + 1) rest with
      | some j =>
          obtain rfl : j = i := by simpa [lastIndexFrom?, later] using h
          obtain ⟨ahead, d, behind, rfl, place, found⟩ := ih later
          refine ⟨c :: ahead, d, behind, rfl, ?_, found⟩
          rw [place, List.length_cons, Nat.add_assoc, Nat.add_comm 1]
      | none =>
          obtain ⟨here, rfl⟩ : pattern <+: c :: rest ∧ offset = i := by
            simpa [lastIndexFrom?, later] using h
          exact ⟨[], c, rest, rfl, rfl, here, not_infix_of_lastIndexFrom? word later⟩

/-- What stands around the last place of a pattern of two characters. -/
theorem lastIndex?_pair {a b : Char} {text : List Char} {i : Nat}
    (h : lastIndex? [a, b] text = some i) :
    ∃ ahead behind, text = ahead ++ a :: b :: behind ∧ ¬ [a, b] <:+: behind := by
  obtain ⟨ahead, c, behind, rfl, -, here, later⟩ := lastIndexFrom?_eq_some (by simp) h
  obtain ⟨rest, split⟩ := here
  obtain ⟨rfl, rfl⟩ := List.cons.inj split
  refine ⟨ahead, rest, rfl, fun found => later (List.infix_cons_iff.mpr (.inr found))⟩

theorem lineStart_append {lines line : List Char}
    (fresh : lines = [] ∨ lines.getLast? = some '\n') (within : '\n' ∉ line) :
    lineStart (lines ++ line) = lines.length := by
  have absent : ¬ ['\n'] <:+: line := by simpa [List.singleton_infix_iff] using within
  rcases fresh with rfl | feed
  · have nowhere : lastIndex? ['\n'] line = none := lastIndexFrom?_eq_none absent
    simp [lineStart, nowhere]
  · obtain ⟨ahead, rfl⟩ := List.getLast?_eq_some_iff.mp feed
    have last : lastIndex? ['\n'] (ahead ++ '\n' :: line) = some ahead.length :=
      lastIndex?_append ahead (by simp) absent
    simp [lineStart, last]

/-- A text is its full lines and what stands behind the last line feed. -/
theorem exists_lines (text : List Char) :
    ∃ lines line, text = lines ++ line ∧ (lines = [] ∨ lines.getLast? = some '\n') ∧
      '\n' ∉ line := by
  cases found : lastIndex? ['\n'] text with
  | none =>
      have absent := not_infix_of_lastIndexFrom? (by simp) found
      exact ⟨[], text, rfl, .inl rfl, by simpa [List.singleton_infix_iff] using absent⟩
  | some i =>
      obtain ⟨ahead, c, behind, rfl, -, here, later⟩ := lastIndexFrom?_eq_some (by simp) found
      obtain rfl : c = '\n' := by simpa [eq_comm] using here
      refine ⟨ahead ++ ['\n'], behind, by simp, .inr (by simp), ?_⟩
      simpa [List.singleton_infix_iff] using later

theorem endsBlock_iff {text : List Char} :
    endsBlock text ↔ ∃ ahead blanks, text = ahead ++ '*' :: '/' :: blanks ∧
      ∀ c ∈ blanks, isLineBlank c := by
  constructor
  · intro ends
    obtain ⟨rest, split⟩ := List.isPrefixOf_iff_prefix.mp ends
    let blanks := (text.reverse.takeWhile isLineBlank).reverse
    refine ⟨rest.reverse, blanks, ?_, fun c member => ?_⟩
    · have turned : text.reverse = blanks.reverse ++ '/' :: '*' :: rest := by
        simpa [blanks, ← split] using
          (List.takeWhile_append_dropWhile (p := isLineBlank) (l := text.reverse)).symm
      simpa using congrArg List.reverse turned
    · exact List.all_eq_true.mp List.all_takeWhile c (List.mem_reverse.mp member)
  · rintro ⟨ahead, blanks, rfl, trailing⟩
    have dropped : (blanks.reverse ++ '/' :: '*' :: ahead.reverse).dropWhile isLineBlank
        = '/' :: '*' :: ahead.reverse := by
      rw [List.dropWhile_append_of_pos (by simpa using trailing)]
      rfl
    simp [endsBlock, dropped]

theorem lastIndex?_closing {head blanks : List Char} (trailing : ∀ c ∈ blanks, isLineBlank c) :
    lastIndex? ['*', '/'] (head ++ '*' :: '/' :: blanks) = some head.length := by
  apply lastIndex?_append head (by simp)
  intro found
  have star : '*' ∈ '/' :: blanks := found.subset (by simp)
  have blank : isLineBlank '*' := trailing '*' (by simpa using star)
  cases blank

/-- The search in a text whose last comment marks are these. -/
theorem docStart?_marks {ahead content blanks : List Char} (single : ¬ ['/', '*'] <:+: content)
    (trailing : ∀ c ∈ blanks, isLineBlank c) :
    docStart? (ahead ++ '/' :: '*' :: (content ++ '*' :: '/' :: (blanks ++ ['\n'])))
      = if (content ++ ['*', '/']).head? = some '*' ∧ (ahead.drop (lineStart ahead)).all Text.isBlank
        then some (lineStart ahead) else none := by
  let head := ahead ++ '/' :: '*' :: content
  let body := head ++ '*' :: '/' :: blanks
  have regroup : ahead ++ '/' :: '*' :: (content ++ '*' :: '/' :: (blanks ++ ['\n']))
      = body ++ ['\n'] := by simp [body, head]
  have ends : endsBlock body = true := endsBlock_iff.mpr ⟨head, blanks, rfl, trailing⟩
  have close : lastIndex? ['*', '/'] body = some head.length := lastIndex?_closing trailing
  have before : body.take head.length = head := by simp [body]
  have opening : lastIndex? ['/', '*'] head = some ahead.length := by
    apply lastIndex?_append ahead (by simp)
    simp [List.infix_cons_iff, single]
  have front : body.take ahead.length = ahead := by simp [body, head]
  have block : body.drop ahead.length = '/' :: '*' :: (content ++ '*' :: '/' :: blanks) := by
    simp [body, head]
  have doubled : ['/', '*', '*'].isPrefixOf ('/' :: '*' :: (content ++ '*' :: '/' :: blanks))
      = decide ((content ++ ['*', '/']).head? = some '*') := by
    cases content with
    | nil => rfl
    | cons c rest => simp [List.isPrefixOf, beq_eq_decide, eq_comm (a := c)]
  rw [regroup, docStart?, if_pos List.getLast?_concat]
  simp only [List.dropLast_concat, ends, close, if_true, before, opening, block, front, doubled,
    Bool.and_eq_true, decide_eq_true_eq]

/-- What the search finds has marks, the last ones of its text. -/
theorem exists_marks {above : List Char} {start : Nat} (h : docStart? above = some start) :
    ∃ ahead content blanks,
      above = ahead ++ '/' :: '*' :: (content ++ '*' :: '/' :: (blanks ++ ['\n'])) ∧
      (¬ ['/', '*'] <:+: content) ∧ ∀ c ∈ blanks, isLineBlank c := by
  have feed : above.getLast? = some '\n' := by
    by_contra other
    simp [docStart?, other] at h
  obtain ⟨body, rfl⟩ := List.getLast?_eq_some_iff.mp feed
  have ends : endsBlock body := by
    by_contra other
    simp [docStart?, other] at h
  obtain ⟨head, blanks, rfl, trailing⟩ := endsBlock_iff.mp ends
  have close : lastIndex? ['*', '/'] (head ++ '*' :: '/' :: blanks) = some head.length :=
    lastIndex?_closing trailing
  cases opening : lastIndex? ['/', '*'] head with
  | none =>
      rw [docStart?, if_pos feed] at h
      simp only [List.dropLast_concat, ends, close, if_true, List.take_left, opening] at h
      cases h
  | some i =>
      obtain ⟨ahead, content, rfl, single⟩ := lastIndex?_pair opening
      exact ⟨ahead, content, blanks, by simp, single, trailing⟩

theorem docStart?_eq_some_iff {above : List Char} {start : Nat} :
    docStart? above = some start ↔
      ∃ d : DocTail, d.text = above ∧ d.Single ∧ d.lines.length = start := by
  constructor
  · intro found
    obtain ⟨ahead, content, blanks, rfl, single, trailing⟩ := exists_marks found
    obtain ⟨lines, indent, rfl, fresh, within⟩ := exists_lines ahead
    rw [docStart?_marks single trailing, lineStart_append fresh within, List.drop_left] at found
    obtain ⟨⟨doubled, margin⟩, found⟩ := Option.ite_none_right_eq_some.mp found
    have blank : ∀ c ∈ indent, c ≠ '\n' ∧ Text.isBlank c := fun c member =>
      ⟨fun feed => within (feed ▸ member), List.all_eq_true.mp margin c member⟩
    refine ⟨⟨lines, indent, content, blanks, fresh, blank, doubled, trailing⟩, ?_, single,
      Option.some.inj found⟩
    simp [DocTail.text, DocTail.inside]
  · rintro ⟨d, rfl, single, rfl⟩
    have within : '\n' ∉ d.indent := fun member => (d.margin _ member).1 rfl
    have margin : d.indent.all Text.isBlank :=
      List.all_eq_true.mpr fun c member => (d.margin c member).2
    have regroup : d.text
        = d.lines ++ d.indent ++ '/' :: '*' :: (d.content ++ '*' :: '/' :: (d.blanks ++ ['\n'])) := by
      simp [DocTail.text, DocTail.inside]
    rw [regroup, docStart?_marks single d.trailing, lineStart_append d.fresh within, List.drop_left,
      if_pos ⟨d.doubled, margin⟩]

/-- The search agrees with the scan exactly if, of the texts that look like a block, those are read as
one comment that have no other opening inside. -/
theorem docStart?_iff_docAbove {above : List Char} :
    (∀ start, docStart? above = some start ↔ DocAbove above start) ↔
      ∀ d : DocTail, d.text = above → (d.IsComment ↔ d.Single) := by
  simp only [docStart?_eq_some_iff, DocAbove]
  constructor
  · intro agrees d text
    constructor
    · intro comment
      obtain ⟨e, same, single, start⟩ := (agrees d.lines.length).mpr ⟨d, text, comment, rfl⟩
      obtain rfl := DocTail.eq_of_text (same.trans text.symm) start
      exact single
    · intro single
      obtain ⟨e, same, comment, start⟩ := (agrees d.lines.length).mp ⟨d, text, single, rfl⟩
      obtain rfl := DocTail.eq_of_text (same.trans text.symm) start
      exact comment
  · intro agrees start
    apply exists_congr
    intro d
    apply and_congr_right
    intro text
    rw [agrees d text]

/-! ## What is removed with a declaration -/

/-- A comment has begun before this offset and goes on behind it. -/
def CommentOpen (text : List Char) (offset : Nat) : Prop :=
  offset < text.length ∧ (State.after (text.take offset)).phase.isComment

/-- A segment of a text that has no declaration but the own one and no half of a comment. -/
structure Separate (text : List Char) (own first stop : Nat) : Prop where
  alone : ∀ start ∈ lineStarts text, first ≤ start → start < stop → start ≠ own →
    ∀ name, header? name (text.drop start) = none
  entire : ¬ CommentOpen text first ∧ ¬ CommentOpen text stop

theorem not_commentOpen {text : List Char} {start : Nat} (h : start ∈ lineStarts text) :
    ¬ CommentOpen text start := by
  rintro ⟨-, comment⟩
  have state : State.after (text.take start) = State.initial := (mem_lineStarts_iff.mp h).2.2
  rw [state] at comment
  cases comment

theorem exists_of_append_cons {free text front behind : List Char} {c : Char}
    (h : free ++ text = front ++ c :: behind) (absent : c ∉ free) :
    ∃ middle, front = free ++ middle ∧ text = middle ++ c :: behind := by
  rcases List.append_eq_append_iff.mp h with ⟨middle, left, right⟩ | ⟨middle, left, right⟩
  · exact ⟨middle, left, right⟩
  · cases middle with
    | nil => exact ⟨[], by simpa using left.symm, by simpa using right.symm⟩
    | cons d rest =>
        obtain ⟨rfl, -⟩ := List.cons.inj right
        exact absurd (by simp [left]) absent

namespace State

/-- Blanks on a line end no comment. -/
theorem isComment_run_margin {s : State} {margin : List Char}
    (blank : ∀ c ∈ margin, c ≠ '\n' ∧ Text.isBlank c) (comment : s.phase.isComment) :
    (s.run margin).phase.isComment := by
  induction margin generalizing s with
  | nil => exact comment
  | cons c rest ih =>
      obtain ⟨⟨feed, blank⟩, others⟩ := List.forall_mem_cons.mp blank
      apply ih others
      have slash : c ≠ '/' := by
        rintro rfl
        cases blank
      obtain ⟨phase, depth⟩ := s
      cases phase with
      | lineComment => simp [advance, feed, Phase.isComment]
      | block => by_cases star : c = '*' <;> simp [advance, star, Phase.isComment]
      | star => by_cases star : c = '*' <;> simp [advance, slash, star, Phase.isComment]
      | _ => cases comment

end State

namespace DocTail

variable {d : DocTail} {rest : List Char}

theorem text_eq : d.text = d.lines ++ (d.indent ++ '/' :: '*' :: (d.inside ++ (d.blanks ++ ['\n']))) :=
  rfl

theorem length_lines_lt : d.lines.length < d.text.length := by
  simp only [text, List.length_append, List.length_cons, List.length_nil]
  omega

theorem IsComment.not_commentOpen (h : d.IsComment) :
    ¬ CommentOpen (d.text ++ rest) d.lines.length := by
  rintro ⟨-, comment⟩
  have front : (d.text ++ rest).take d.lines.length = d.lines := by simp [text]
  rw [front] at comment
  have within := State.isComment_run_margin d.margin comment
  rw [← State.after_append, h.opens] at within
  cases within

theorem exportWord_not_prefix : ¬ exportWord <+: d.indent ++ '/' :: rest := by
  intro starts
  have within : exportWord <+: d.indent := isPrefix_of_isPrefix_append_cons starts (by decide)
  have blank : Text.isBlank 'e' := (d.margin 'e' (within.subset (by decide))).2
  cases blank

/-- A line feed inside the block, with what stands around it in the block. -/
theorem exists_of_feed {ahead behind : List Char} (split : d.text = ahead ++ '\n' :: behind)
    (first : d.lines.length ≤ ahead.length) (last : behind ≠ []) :
    ∃ front rear, ahead = d.lines ++ d.indent ++ '/' :: '*' :: front ∧
      d.inside = front ++ '\n' :: rear := by
  have line : ∃ middle, ahead = d.lines ++ middle ∧
      d.indent ++ '/' :: '*' :: (d.inside ++ (d.blanks ++ ['\n'])) = middle ++ '\n' :: behind := by
    rcases List.append_eq_append_iff.mp (text_eq.symm.trans split) with
      ⟨middle, left, right⟩ | ⟨middle, left, right⟩
    · exact ⟨middle, left, right⟩
    · obtain rfl : middle = [] := by
        apply List.eq_nil_of_length_eq_zero
        have length := congrArg List.length left
        simp only [List.length_append] at length
        omega
      exact ⟨[], by simpa using left.symm, by simpa using right.symm⟩
  obtain ⟨middle, rfl, block⟩ := line
  have opening : '\n' ∉ d.indent ++ ['/', '*'] := by
    simpa using fun member => (d.margin _ member).1 rfl
  have regroup : (d.indent ++ ['/', '*']) ++ (d.inside ++ (d.blanks ++ ['\n']))
      = middle ++ '\n' :: behind := by simpa using block
  obtain ⟨front, rfl, inner⟩ := exists_of_append_cons regroup opening
  -- the only line feed behind the block is the last character of the text
  have beyond (surplus : List Char) : d.blanks ++ ['\n'] ≠ surplus ++ '\n' :: behind := by
    intro trail
    have noFeed : '\n' ∉ d.blanks := d.not_mem_blanks rfl
    obtain ⟨more, -, ends⟩ := exists_of_append_cons trail noFeed
    have length := congrArg List.length ends
    simp only [List.length_append, List.length_cons, List.length_nil] at length
    exact last (List.eq_nil_of_length_eq_zero (by omega))
  rcases List.append_eq_append_iff.mp inner with ⟨surplus, -, trail⟩ | ⟨surplus, whole, trail⟩
  · exact absurd trail (beyond surplus)
  · cases surplus with
    | nil => exact absurd trail.symm (beyond [])
    | cons c rear =>
        obtain ⟨rfl, -⟩ := List.cons.inj trail
        exact ⟨front, rear, by simp, whole⟩

/-- No line within a comment starts at the top level. -/
theorem IsComment.not_mem_lineStarts (h : d.IsComment) {start : Nat} (first : d.lines.length < start)
    (last : start < d.text.length) : start ∉ lineStarts (d.text ++ rest) := by
  intro member
  obtain ⟨-, fresh, state⟩ := mem_lineStarts_iff.mp member
  have cut : (d.text ++ rest).take start = d.text.take start := by
    simp [List.take_append, Nat.sub_eq_zero_of_le last.le]
  rw [cut] at fresh state
  have feed : (d.text.take start).getLast? = some '\n' := fresh.resolve_left (Nat.ne_zero_of_lt first)
  obtain ⟨ahead, taken⟩ := List.getLast?_eq_some_iff.mp feed
  have length : ahead.length + 1 = start := by
    simpa [Nat.min_eq_left last.le] using (congrArg List.length taken).symm
  have split : d.text = ahead ++ '\n' :: d.text.drop start := by
    simpa [taken] using (List.take_append_drop start d.text).symm
  obtain ⟨front, rear, rfl, inside⟩ := exists_of_feed split (by omega) (by simpa using last)
  have more : rear ≠ [] := by
    rintro rfl
    have ends := congrArg List.getLast? inside
    simp [DocTail.inside] at ends
  have comment : Comment ((front ++ ['\n']) ++ rear) := by simpa [← inside] using h.closes
  have within :
      (State.run ⟨.block, (State.after (d.lines ++ d.indent)).depth⟩ (front ++ ['\n'])).phase.isComment :=
    comment.run_front more
  have regroup : d.lines ++ d.indent ++ '/' :: '*' :: front ++ ['\n']
      = d.lines ++ d.indent ++ '/' :: '*' :: (front ++ ['\n']) := by simp
  rw [taken, regroup, State.after_opening h.opens] at state
  rw [state] at within
  cases within

theorem IsComment.header?_eq_none (h : d.IsComment) {start : Nat}
    (member : start ∈ lineStarts (d.text ++ rest)) (first : d.lines.length ≤ start)
    (last : start < d.text.length) (name : String) :
    header? name ((d.text ++ rest).drop start) = none := by
  rcases Nat.eq_or_lt_of_le first with rfl | inner
  · apply Declarations.header?_eq_none
    have line : (d.text ++ rest).drop d.lines.length
        = d.indent ++ '/' :: ('*' :: (d.inside ++ (d.blanks ++ ['\n'])) ++ rest) := by
      simp [text]
    rw [line]
    exact exportWord_not_prefix
  · exact absurd member (h.not_mem_lineStarts inner last)

end DocTail

/-- From the block on, a segment is as separate as from the declaration on. -/
theorem DocTail.IsComment.separate_iff {d : DocTail} (h : d.IsComment) {text : List Char}
    {own stop : Nat} (member : own ∈ lineStarts text) (above : d.text = text.take own) :
    Separate text own d.lines.length stop ↔ Separate text own own stop := by
  have split : d.text ++ text.drop own = text := by simp [above]
  have length : d.text.length = own := by
    simp [above, Nat.le_of_lt (mem_lineStarts_iff.mp member).1]
  have before : d.lines.length ≤ own := length ▸ Nat.le_of_lt d.length_lines_lt
  constructor
  · intro separate
    refine ⟨fun start line first => ?_, Declarations.not_commentOpen member, separate.entire.2⟩
    exact separate.alone start line (before.trans first)
  · intro separate
    refine ⟨fun start line first last other name => ?_, ?_, separate.entire.2⟩
    · rcases Nat.lt_or_ge start own with earlier | later
      · rw [← split] at line ⊢
        exact h.header?_eq_none line first (length ▸ earlier) name
      · exact separate.alone start line later last other name
    · have closed : ¬ CommentOpen (d.text ++ text.drop own) d.lines.length := h.not_commentOpen
      rwa [split] at closed

/-- What is removed begins at the declaration or at the block above it, and is separate, exactly if the
scan reads what the search finds as one comment and the declaration with its line is separate. -/
theorem removed_separate_iff {text : List Char} {name : String} {own : Nat} {kind : Kind}
    (found : find? name text = some (own, kind)) :
    ∃ first, remove? name text
        = some (text.take first ++ text.drop (declarationEnd kind text own)) ∧
      ((first = own ∨ DocAbove (text.take own) first) ∧
          Separate text own first (declarationEnd kind text own) ↔
        (∀ d : DocTail, d.text = text.take own → d.Single → d.IsComment) ∧
          Separate text own own (declarationEnd kind text own)) := by
  have member : own ∈ lineStarts text := by
    obtain ⟨start, line, read⟩ := List.exists_of_findSome?_eq_some found
    obtain ⟨kind, -, same⟩ := Option.map_eq_some_iff.mp read
    obtain ⟨rfl, rfl⟩ := Prod.mk.inj same
    exact line
  refine ⟨(docStart? (text.take own)).getD own, by simp [remove?, found], ?_⟩
  cases search : docStart? (text.take own) with
  | none =>
      have nothing (d : DocTail) (above : d.text = text.take own) : ¬ d.Single := by
        intro single
        have start := docStart?_eq_some_iff.mpr ⟨d, above, single, rfl⟩
        simp [search] at start
      simp only [Option.getD_none, true_or, true_and, iff_and_self]
      exact fun _ d above single => absurd single (nothing d above)
  | some first =>
      obtain ⟨d, above, single, rfl⟩ := docStart?_eq_some_iff.mp search
      have only (e : DocTail) (same : e.text = text.take own) (other : e.Single) : e = d := by
        have start := docStart?_eq_some_iff.mpr ⟨e, same, other, rfl⟩
        exact DocTail.eq_of_text (same.trans above.symm) (Option.some.inj (start.symm.trans search))
      have earlier : d.lines.length ≠ own := by
        have shorter : d.text.length ≤ own := above ▸ List.length_take_le own text
        exact Nat.ne_of_lt (Nat.lt_of_lt_of_le d.length_lines_lt shorter)
      simp only [Option.getD_some, earlier, false_or]
      constructor
      · rintro ⟨⟨e, same, comment, start⟩, separate⟩
        obtain rfl : e = d := DocTail.eq_of_text (same.trans above.symm) start
        refine ⟨fun other text_eq single => ?_, (comment.separate_iff member above).mp separate⟩
        obtain rfl := only other text_eq single
        exact comment
      · rintro ⟨comments, separate⟩
        have comment : d.IsComment := comments d above single
        exact ⟨⟨d, above, comment, rfl⟩, (comment.separate_iff member above).mpr separate⟩

/-- Above every line that starts at the top level, the search agrees with the scan exactly if, of the
texts that look like a documentation block, those are read as one comment that have no other opening
inside. What is removed with a declaration is right, as far as its beginning goes, if what the search
finds is a comment; its end takes the line of the declaration along, whatever stands on it. -/
theorem docStart?_agrees_iff (text : List Char) :
    (∀ start ∈ lineStarts text,
      ((∀ first, docStart? (text.take start) = some first ↔ DocAbove (text.take start) first) ↔
        ∀ d : DocTail, d.text = text.take start → (d.IsComment ↔ d.Single))) ∧
    ∀ (name : String) (own : Nat) (kind : Kind), find? name text = some (own, kind) →
      ∃ first, remove? name text
          = some (text.take first ++ text.drop (declarationEnd kind text own)) ∧
        ((first = own ∨ DocAbove (text.take own) first) ∧
            Separate text own first (declarationEnd kind text own) ↔
          (∀ d : DocTail, d.text = text.take own → d.Single → d.IsComment) ∧
            Separate text own own (declarationEnd kind text own)) :=
  ⟨fun _ _ => docStart?_iff_docAbove, fun _ _ _ found => removed_separate_iff found⟩

namespace Sample

/-- A line comment stands between a declaration with its block and the next declaration. -/
def commentedLine : List Char :=
  ("/** doc */\nexport interface Other \x7b\x7d\n// x */\n"
    ++ "export interface Root \x7b\x7d\n").toList

end Sample

theorem commentedLine_agrees_iff :
    45 ∈ lineStarts Sample.commentedLine ∧
    find? "Root" Sample.commentedLine = some (45, .interface) ∧
    ((∀ first, docStart? (Sample.commentedLine.take 45) = some first ↔
        DocAbove (Sample.commentedLine.take 45) first) ↔
      ∀ d : DocTail, d.text = Sample.commentedLine.take 45 → (d.IsComment ↔ d.Single)) ∧
    ∃ first, remove? "Root" Sample.commentedLine
        = some (Sample.commentedLine.take first ++ Sample.commentedLine.drop
            (declarationEnd .interface Sample.commentedLine 45)) ∧
      ((first = 45 ∨ DocAbove (Sample.commentedLine.take 45) first) ∧
          Separate Sample.commentedLine 45 first
            (declarationEnd .interface Sample.commentedLine 45) ↔
        (∀ d : DocTail, d.text = Sample.commentedLine.take 45 → d.Single → d.IsComment) ∧
          Separate Sample.commentedLine 45 45
            (declarationEnd .interface Sample.commentedLine 45)) := by
  have line : 45 ∈ lineStarts Sample.commentedLine := by decide
  have found : find? "Root" Sample.commentedLine = some (45, .interface) := by decide
  have agrees := docStart?_agrees_iff Sample.commentedLine
  exact ⟨line, found, agrees.1 45 line, agrees.2 "Root" 45 .interface found⟩

theorem State.run_blanks {blanks : List Char} {depth : Nat} (h : ∀ c ∈ blanks, isLineBlank c) :
    State.run ⟨.code, depth⟩ blanks = ⟨.code, depth⟩ := by
  induction blanks with
  | nil => rfl
  | cons c rest ih =>
      obtain ⟨blank, others⟩ := List.forall_mem_cons.mp h
      have cases : c = ' ' ∨ c = '\t' ∨ c = '\r' := by simpa [isLineBlank, or_assoc] using blank
      have still : State.advance ⟨.code, depth⟩ c = ⟨.code, depth⟩ := by
        rcases cases with rfl | rfl | rfl <;> rfl
      rw [State.run_cons, still, ih others]

/-- Behind a comment with nothing but blanks, the scan is in code up to the end of the line. -/
theorem DocAbove.ends_in_code {above : List Char} {start : Nat} (h : DocAbove above start) :
    (State.after above.dropLast).phase = .code := by
  obtain ⟨d, rfl, comment, -⟩ := h
  have body : d.text.dropLast = d.lines ++ d.indent ++ '/' :: '*' :: (d.inside ++ d.blanks) := by
    have regroup : d.text
        = (d.lines ++ d.indent ++ '/' :: '*' :: (d.inside ++ d.blanks)) ++ ['\n'] := by
      simp [DocTail.text]
    rw [regroup, List.dropLast_concat]
  rw [body, State.after_opening comment.opens, State.run_append, comment.closes.run,
    State.run_blanks d.trailing]

/-- The search takes the end of a line comment for that of the block further up, and the declaration in
between is removed as well. -/
theorem line_comment_taken_for_block :
    45 ∈ lineStarts Sample.commentedLine ∧
    docStart? (Sample.commentedLine.take 45) = some 0 ∧
    (∀ first, ¬ DocAbove (Sample.commentedLine.take 45) first) ∧
    remove? "Root" Sample.commentedLine = some [] := by
  refine ⟨by decide, by decide, fun first above => ?_, by decide⟩
  have code := above.ends_in_code
  revert code
  decide

end Declarations
end WireTypes
