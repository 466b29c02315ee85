import Mathlib.Data.List.Infix
import WireTypes.Declarations.Output
import WireTypes.Proofs.Declarations.ClosedText

/-!
# Items — a declaration and what belongs to it

An item of a generated text: a declaration with its line, below its documentation block and above the
blank line behind it. The body of the declaration is lexically closed.

- `Item.header?_declaration_iff`: the line of a declaration declares its name, and no other that has no blank;
- `Item.declarationLength_append`: the declaration ends where its body is closed;
- `Item.text_starts`: of the lines of an item that start outside brackets, only that of the declaration
  exports something.
-/

namespace WireTypes
namespace Declarations

/-! ## Items -/

def isIdentifierChar (c : Char) : Bool := c.isAlphanum || c == '_' || c == '$' || 128 ≤ c.toNat

/-- A name that can be declared. -/
structure Identifier where
  text : String
  nonempty : text ≠ ""
  chars : text.toList.all isIdentifierChar

/-- A documentation block, by what stands inside: it ends at its first closing and opens no other. -/
structure DocBlock where
  inside : List Char
  ends : Comment ('*' :: (inside ++ ['*', '/']))
  single : ¬ ['/', '*'] <:+: inside

/-- The lines of a documentation block. -/
def DocBlock.text (d : DocBlock) : List Char := '/' :: '*' :: '*' :: (d.inside ++ ['*', '/', '\n'])

/-- What every line of a declaration starts with. -/
def exportWord : List Char := "export ".toList

namespace Kind

def keyword : Kind → List Char
  | .interface => "export interface ".toList
  | .alias => "export type ".toList

def opening : Kind → List Char
  | .interface => [' ', '{']
  | .alias => [' ', '=', ' ']

def closing : Kind → Char
  | .interface => '}'
  | .alias => ';'

/-- The number of brackets open around the body. -/
def level : Kind → Nat
  | .interface => 1
  | .alias => 0

/-- What may stand in a body outside its own brackets: in an alias no semicolon, and no line that
exports. -/
def Permits : Kind → Char → List Char → Prop
  | .interface, _, _ => True
  | .alias, c, rest => c ≠ ';' ∧ (c = '\n' → ¬ exportWord <+: rest)

end Kind

structure Item where
  doc : Option DocBlock
  kind : Kind
  name : Identifier
  body : List Char
  closed : Closed kind.Permits body
  /-- Whether a blank line follows. -/
  spaced : Bool

namespace Item

def block (it : Item) : List Char := it.doc.elim [] DocBlock.text

def lead (it : Item) : List Char := it.kind.keyword ++ (it.name.text.toList ++ it.kind.opening)

def declaration (it : Item) : List Char := it.lead ++ (it.body ++ [it.kind.closing])

/-- The blank line behind a declaration. -/
def gap (it : Item) : List Char := if it.spaced then ['\n'] else []

def text (it : Item) : List Char := it.block ++ (it.declaration ++ '\n' :: it.gap)

end Item

/-! ## Names -/

/-- What ends a name in the line that declares it. -/
def isSeparator (c : Char) : Bool := c == ' ' || c == '{' || c == '<' || c == '='

theorem isSeparator_iff {c : Char} : isSeparator c ↔ c = ' ' ∨ c = '{' ∨ c = '<' ∨ c = '=' := by
  simp [isSeparator, or_assoc]

namespace Identifier

variable {c : Char} {name : Identifier}

theorem not_mem (h : isIdentifierChar c = false) : c ∉ name.text.toList := by
  intro member
  have identifier : isIdentifierChar c := List.all_eq_true.mp name.chars c member
  simp [h] at identifier

theorem avoids {p : Char → Bool} (h : ∀ c, p c → isIdentifierChar c = false)
    (member : c ∈ name.text.toList) : p c = false := by
  apply Bool.eq_false_iff.mpr
  intro holds
  exact not_mem (h c holds) member

theorem isSeparator_eq_false (h : c ∈ name.text.toList) : isSeparator c = false := by
  refine avoids (fun c ends => ?_) h
  rcases isSeparator_iff.mp ends with rfl | rfl | rfl | rfl <;> rfl

theorem isNeutral (h : c ∈ name.text.toList) : isNeutral c := by
  have plain : (isQuote c || isOpening c || isClosing c || c == '/') = false := by
    refine avoids (p := fun c => isQuote c || isOpening c || isClosing c || c == '/')
      (fun c marks => ?_) h
    simp only [Bool.or_eq_true, isQuote_iff, isOpening_iff, isClosing_iff, beq_iff_eq] at marks
    rcases marks with (((rfl | rfl | rfl) | rfl | rfl | rfl) | rfl | rfl | rfl) | rfl <;> rfl
  simp [Declarations.isNeutral, plain]

end Identifier

/-- A prefix that has none of the separating character ends before it. -/
theorem isPrefix_of_isPrefix_append_cons {word ahead behind : List Char} {c : Char}
    (h : word <+: ahead ++ c :: behind) (free : c ∉ word) : word <+: ahead := by
  induction word generalizing ahead with
  | nil => exact List.nil_prefix
  | cons w word ih =>
      cases ahead with
      | nil =>
          have equal : w = c := (List.cons_prefix_cons.mp h).1
          exact absurd (List.mem_cons.mpr (.inl equal.symm)) free
      | cons a ahead =>
          have ⟨equal, rest⟩ := List.cons_prefix_cons.mp h
          have later : c ∉ word := fun member => free (List.mem_cons_of_mem w member)
          exact List.cons_prefix_cons.mpr ⟨equal, ih rest later⟩

/-! ## The line that declares a name -/

theorem dropPrefix?_append (word rest : List Char) :
    dropPrefix? word (word ++ rest) = some rest := by
  simp [dropPrefix?]

theorem eq_append_of_dropPrefix? {word text rest : List Char}
    (h : dropPrefix? word text = some rest) : text = word ++ rest := by
  rw [dropPrefix?] at h
  split at h
  next starts =>
    obtain ⟨behind, rfl⟩ := List.isPrefixOf_iff_prefix.mp starts
    obtain rfl := Option.some.inj h
    simp
  next => cases h

theorem declares_iff {keyword name : String} {text : List Char} :
    declares keyword name text ↔
      ∃ c rest, isSeparator c ∧ text = keyword.toList ++ (name.toList ++ c :: rest) := by
  constructor
  · intro h
    rw [declares] at h
    split at h
    next c rest found =>
      obtain ⟨line, first, second⟩ := Option.bind_eq_some_iff.mp found
      refine ⟨c, rest, h, ?_⟩
      rw [eq_append_of_dropPrefix? first, eq_append_of_dropPrefix? second]
    next => cases h
  · rintro ⟨c, rest, separator, rfl⟩
    rw [declares, dropPrefix?_append, Option.bind_some, dropPrefix?_append]
    exact separator

theorem declares_eq_false {keyword name : String} {text : List Char}
    (h : ¬ keyword.toList <+: text) : declares keyword name text = false := by
  apply Bool.eq_false_iff.mpr
  intro declared
  obtain ⟨c, rest, -, rfl⟩ := declares_iff.mp declared
  exact h (List.prefix_append _ _)

/-- Only lines that export declare a name. -/
theorem header?_eq_none {name : String} {text : List Char} (h : ¬ exportWord <+: text) :
    header? name text = none := by
  have interface : declares "export interface " name text = false := by
    apply declares_eq_false
    exact fun starts => h (List.IsPrefix.trans ⟨"interface ".toList, rfl⟩ starts)
  have type : declares "export type " name text = false := by
    apply declares_eq_false
    exact fun starts => h (List.IsPrefix.trans ⟨"type ".toList, rfl⟩ starts)
  simp [header?, interface, type]

/-- A longer name, which goes on behind the identifier as the text there does, from a blank up to a character
that ends a name. -/
def Identifier.RunsOn (declared : Identifier) (behind : List Char) (name : String) : Prop :=
  ∃ more c, isSeparator c ∧ name.toList = declared.text.toList ++ ' ' :: more ∧
    ' ' :: (more ++ [c]) <+: behind

theorem Identifier.not_runsOn {declared : Identifier} {behind : List Char} {name : String}
    (blank : ' ' ∉ name.toList) : ¬ declared.RunsOn behind name := by
  rintro ⟨more, c, -, longer, -⟩
  exact blank (by simp [longer])

/-- A line declares the identifier that stands behind its keyword, and the names that run on behind it. -/
theorem declares_append_iff {keyword name : String} {declared : Identifier} {behind : List Char} :
    declares keyword name (keyword.toList ++ (declared.text.toList ++ ' ' :: behind)) ↔
      declared.text = name ∨ declared.RunsOn (' ' :: behind) name := by
  rw [declares_iff]
  constructor
  · rintro ⟨c, rest, separator, equal⟩
    have read : declared.text.toList ++ ' ' :: behind = name.toList ++ c :: rest :=
      List.append_cancel_left equal
    rcases List.append_eq_append_iff.mp read with ⟨more, longer, split⟩ | ⟨more, shorter, split⟩
    · cases more with
      | nil => exact .inl (String.toList_injective (by simpa using longer.symm))
      | cons blank more =>
          obtain ⟨rfl, rfl⟩ := List.cons.inj split
          refine .inr ⟨more, c, separator, longer, List.cons_prefix_cons.mpr ⟨rfl, rest, ?_⟩⟩
          simp
    · cases more with
      | nil => exact .inl (String.toList_injective (by simpa using shorter))
      | cons next more =>
          -- the character that ends the name would be one of the identifier
          have member : c ∈ declared.text.toList := by simp [shorter, (List.cons.inj split).1]
          exact absurd (Identifier.isSeparator_eq_false member) (by simp [separator])
  · rintro (rfl | ⟨more, c, separator, longer, runs⟩)
    · exact ⟨' ', behind, rfl, rfl⟩
    · obtain ⟨rest, rfl⟩ := (List.cons_prefix_cons.mp runs).2
      exact ⟨c, rest, separator, by simp [longer]⟩

theorem header?_keyword_iff {kind read : Kind} {name : String} {declared : Identifier}
    {behind : List Char} :
    header? name (kind.keyword ++ (declared.text.toList ++ ' ' :: behind)) = some read ↔
      read = kind ∧ (declared.text = name ∨ declared.RunsOn (' ' :: behind) name) := by
  match kind with
  | .interface =>
      have line : declares "export interface " name
          (Kind.interface.keyword ++ (declared.text.toList ++ ' ' :: behind)) ↔
            declared.text = name ∨ declared.RunsOn (' ' :: behind) name := declares_append_iff
      have other : declares "export type " name
          (Kind.interface.keyword ++ (declared.text.toList ++ ' ' :: behind)) = false := by
        apply declares_eq_false
        rintro ⟨rest, equal⟩
        cases equal
      simp [header?, line, other, and_comm, eq_comm]
  | .alias =>
      have line : declares "export type " name
          (Kind.alias.keyword ++ (declared.text.toList ++ ' ' :: behind)) ↔
            declared.text = name ∨ declared.RunsOn (' ' :: behind) name := declares_append_iff
      have other : declares "export interface " name
          (Kind.alias.keyword ++ (declared.text.toList ++ ' ' :: behind)) = false := by
        apply declares_eq_false
        rintro ⟨rest, equal⟩
        cases equal
      simp [header?, line, other, and_comm, eq_comm]

namespace Item

variable {it : Item} {name : String} {rest : List Char}

theorem declaration_append : it.declaration ++ rest = it.kind.keyword ++ (it.name.text.toList
    ++ (it.kind.opening ++ (it.body ++ it.kind.closing :: rest))) := by
  simp [declaration, lead]

/-- The name runs on behind that of the declaration, as the text does that ends with `rest`. -/
def RunsOn (it : Item) (rest : List Char) (name : String) : Prop :=
  it.name.RunsOn (it.kind.opening ++ (it.body ++ it.kind.closing :: rest)) name

theorem header?_declaration_iff {kind : Kind} :
    header? name (it.declaration ++ rest) = some kind ↔
      kind = it.kind ∧ (it.name.text = name ∨ it.RunsOn rest name) := by
  rw [declaration_append, RunsOn]
  match it.kind with
  | .interface => exact header?_keyword_iff
  | .alias => exact header?_keyword_iff

end Item

/-! ## The scan of an item -/

theorem visits_neutral {depth offset : Nat} {word : List Char} (neutral : word.all isNeutral) :
    ∃ vs : List Visit, (∀ v ∈ vs, v.char ∈ word ∧ v.depth = depth) ∧
      ∀ rest, visits .code depth offset (word ++ rest)
        = vs ++ visits .code depth (offset + word.length) rest := by
  induction word generalizing offset with
  | nil => exact ⟨[], by simp, fun _ => rfl⟩
  | cons c word ih =>
      have ⟨first, others⟩ : isNeutral c ∧ word.all isNeutral := by simpa using neutral
      obtain ⟨vs, within, scan⟩ := @ih (offset + 1) others
      refine ⟨⟨offset, c, depth⟩ :: vs, ?_, fun rest => ?_⟩
      · intro v hv
        rcases List.mem_cons.mp hv with rfl | later
        · exact ⟨List.mem_cons_self, rfl⟩
        · exact ⟨List.mem_cons_of_mem c (within v later).1, (within v later).2⟩
      · have plain : Plain c (word ++ rest) := plain_of_isNeutral first
        rw [List.cons_append, visits_code plain.quote plain.slash, depthAfter_plain plain, scan,
          List.length_cons, Nat.add_assoc, Nat.add_comm 1, List.cons_append]

namespace Item

variable {it : Item} {offset : Nat}

/-- The scan reaches the body at its level. -/
theorem lead_visits (it : Item) (offset : Nat) :
    ∃ vs : List Visit, (∀ v ∈ vs, v.char ∈ it.lead ∧ v.depth = 0) ∧
      ∀ rest, visits .code 0 offset (it.lead ++ rest)
        = vs ++ visits .code it.kind.level (offset + it.lead.length) rest := by
  have name : it.name.text.toList.all isNeutral :=
    List.all_eq_true.mpr fun _ member => Identifier.isNeutral member
  have neutral {keyword blank : List Char} (left : keyword.all isNeutral)
      (right : blank.all isNeutral) :
      (keyword ++ (it.name.text.toList ++ blank)).all isNeutral := by
    rw [List.all_append, List.all_append, left, name, right]
    rfl
  rw [lead]
  match it.kind with
  | .interface =>
      let words := Kind.interface.keyword ++ (it.name.text.toList ++ [' '])
      have words_neutral : words.all isNeutral := neutral (by decide) (by decide)
      have split : Kind.interface.keyword ++ (it.name.text.toList ++ Kind.interface.opening)
          = words ++ ['{'] := by simp [words, Kind.opening]
      obtain ⟨vs, within, scan⟩ := visits_neutral words_neutral
      refine ⟨vs ++ [⟨offset + words.length, '{', 0⟩], ?_, fun rest => ?_⟩
      · intro v hv
        rw [split]
        rcases List.mem_append.mp hv with earlier | last
        · exact ⟨List.mem_append_left _ (within v earlier).1, (within v earlier).2⟩
        · obtain rfl := List.mem_singleton.mp last
          exact ⟨List.mem_append_right _ List.mem_cons_self, rfl⟩
      · have length : offset + (words ++ ['{']).length = offset + words.length + 1 := by
          rw [List.length_append]
          rfl
        rw [split, length, List.append_assoc, scan, List.singleton_append, visits_opening rfl,
          List.append_assoc, List.singleton_append]
        rfl
  | .alias =>
      exact visits_neutral (neutral (by decide) (by decide))

theorem not_mem_lead {c : Char} (identifier : isIdentifierChar c = false)
    (keyword : c ∉ it.kind.keyword) (opening : c ∉ it.kind.opening) : c ∉ it.lead := by
  simp only [lead, List.mem_append, not_or]
  exact ⟨keyword, Identifier.not_mem identifier, opening⟩

/-- The scan comes from the body to the closing character, and behind it is outside all brackets. -/
theorem body_visits (it : Item) (offset : Nat) (rest : List Char) :
    visits .code it.kind.level offset (it.body ++ it.kind.closing :: rest)
      = visits .code it.kind.level offset it.body
        ++ ⟨offset + it.body.length, it.kind.closing, it.kind.level⟩
          :: visits .code 0 (offset + it.body.length + 1) rest := by
  have apart : Apart it.body (it.kind.closing :: rest) := by
    intro _
    match it.kind with
    | .interface => simp [Detached, Kind.closing]
    | .alias => simp [Detached, Kind.closing]
  rw [it.closed.visits_append apart]
  match it.kind with
  | .interface => rw [visits_closing rfl]; rfl
  | .alias => rw [visits_code rfl fun slash => by cases slash]; rfl

/-- What the scan meets in a declaration before the character that closes it: nothing that ends the
declaration, and no line outside brackets that exports. -/
structure Inner (it : Item) (offset : Nat) (v : Visit) : Prop where
  goesOn : it.kind.endsAt v = false
  line : v.char = '\n' → v.depth = 0 → ∃ ahead behind, it.declaration = ahead ++ '\n' :: behind ∧
    v.offset = offset + ahead.length ∧ ∀ rest, ¬ exportWord <+: behind ++ rest

theorem inner_of_mem_lead {v : Visit} (member : v.char ∈ it.lead) (level : v.depth = 0) :
    Inner it offset v := by
  have noFeed : v.char ≠ '\n' := by
    intro feed
    refine not_mem_lead (by decide) ?_ ?_ (feed ▸ member)
    · cases it.kind <;> decide
    · cases it.kind <;> decide
  have noSemicolon : v.char ≠ ';' := by
    intro semicolon
    refine not_mem_lead (by decide) ?_ ?_ (semicolon ▸ member)
    · cases it.kind <;> decide
    · cases it.kind <;> decide
  refine ⟨?_, fun feed => absurd feed noFeed⟩
  match it.kind with
  | .interface => simp [Kind.endsAt, level]
  | .alias => simp [Kind.endsAt, noSemicolon]

theorem inner_of_body {v : Visit}
    (hv : v ∈ visits .code it.kind.level (offset + it.lead.length) it.body) :
    Inner it offset v := by
  have visited : Visited it.kind.Permits it.kind.level (offset + it.lead.length) it.body v :=
    it.closed.visited hv
  obtain ⟨ahead, behind, split, stands, permitted⟩ := visited.place
  have whole : it.declaration = (it.lead ++ ahead) ++ v.char :: (behind ++ [it.kind.closing]) := by
    rw [declaration, split]
    simp
  have place : v.offset = offset + (it.lead ++ ahead).length := by
    rw [stands, List.length_append, Nat.add_assoc]
  rcases kind : it.kind with _ | _
  · -- the body of an interface stands inside a bracket
    rw [kind] at visited
    have inside : 1 ≤ v.depth := visited.least
    refine ⟨?_, fun _ outside => by omega⟩
    apply Bool.eq_false_iff.mpr
    intro ends
    have ⟨brace, level⟩ : v.char = '}' ∧ v.depth = 1 := by simpa [kind, Kind.endsAt] using ends
    have deeper : 1 < v.depth := visited.closes (by rw [brace]; rfl)
    omega
  · -- the body of an alias stands outside all brackets, and the grammar says what may stand there
    rw [kind] at permitted whole
    refine ⟨?_, fun feed outside => ?_⟩
    · apply Bool.eq_false_iff.mpr
      intro ends
      have ⟨semicolon, level⟩ : v.char = ';' ∧ v.depth = 0 := by
        simpa [kind, Kind.endsAt] using ends
      rcases permitted level with opens | permits
      · rw [semicolon] at opens
        cases opens
      · exact permits.1 semicolon
    · refine ⟨it.lead ++ ahead, behind ++ [';'], feed ▸ whole, place, fun rest starts => ?_⟩
      rw [List.append_assoc] at starts
      have within : exportWord <+: behind :=
        isPrefix_of_isPrefix_append_cons starts (by decide)
      rcases permitted outside with opens | permits
      · rw [feed] at opens
        cases opens
      · exact permits.2 feed within

/-- The scan of a declaration ends with the character that closes it. -/
theorem declaration_visits (it : Item) (offset : Nat) :
    ∃ vs : List Visit, (∀ v ∈ vs, Inner it offset v) ∧
      ∀ rest, visits .code 0 offset (it.declaration ++ rest)
        = vs ++ ⟨offset + (it.lead ++ it.body).length, it.kind.closing, it.kind.level⟩
          :: visits .code 0 (offset + it.declaration.length) rest := by
  obtain ⟨vs, within, scan⟩ := it.lead_visits offset
  refine ⟨vs ++ visits .code it.kind.level (offset + it.lead.length) it.body, ?_, fun rest => ?_⟩
  · intro v hv
    rcases List.mem_append.mp hv with lead | body
    · exact inner_of_mem_lead (within v lead).1 (within v lead).2
    · exact inner_of_body body
  · have regroup : it.declaration ++ rest = it.lead ++ (it.body ++ it.kind.closing :: rest) := by
      simp [declaration]
    have length : it.declaration.length = it.lead.length + it.body.length + 1 := by
      simp [declaration]
      omega
    rw [regroup, scan, body_visits, length, List.length_append, List.append_assoc]
    simp only [Nat.add_assoc]

theorem endsAt_closing (kind : Kind) (offset : Nat) :
    kind.endsAt ⟨offset, kind.closing, kind.level⟩ = true := by
  cases kind <;> rfl

theorem declarationLength_append (it : Item) (rest : List Char) :
    declarationLength it.kind (it.declaration ++ rest) = it.declaration.length := by
  obtain ⟨vs, inner, scan⟩ := it.declaration_visits 0
  have skipped : vs.find? it.kind.endsAt = none := by
    apply List.find?_eq_none.mpr
    intro v hv
    simp [(inner v hv).goesOn]
  have length : it.declaration.length = (it.lead ++ it.body).length + 1 := by
    simp [declaration]
    omega
  rw [declarationLength, codeOf, scan, List.find?_append, skipped, Option.none_or,
    List.find?_cons_of_pos (endsAt_closing _ _), length]
  simp

end Item

/-! ## Line starts -/

/-- The line starts outside brackets from an offset on, where a line begins. -/
def starts (offset : Nat) (text : List Char) : List Nat :=
  offset :: ((visits .code 0 offset text).filter fun v => v.char == '\n' && v.depth == 0).map
    (·.offset + 1)

theorem lineStarts_eq (text : List Char) :
    lineStarts text = (starts 0 text).filter (· < text.length) := rfl

/-- A place in a text where no exporting line starts, whatever stands behind the text. -/
def SilentAt (offset : Nat) (text : List Char) (start : Nat) : Prop :=
  ∃ ahead behind, text = ahead ++ behind ∧ start = offset + ahead.length ∧
    ∀ rest, ¬ exportWord <+: behind ++ rest

theorem SilentAt.shift {offset entry start : Nat} {text : List Char}
    (h : SilentAt entry text start) (ahead : List Char) (enters : entry = offset + ahead.length)
    (behind : List Char) : SilentAt offset (ahead ++ (text ++ behind)) start := by
  obtain ⟨left, right, rfl, rfl, silent⟩ := h
  refine ⟨ahead ++ left, right ++ behind, by simp, ?_, fun rest => ?_⟩
  · rw [enters, List.length_append, Nat.add_assoc]
  · rw [List.append_assoc]
    exact silent _

theorem starts_feed (offset : Nat) (rest : List Char) :
    starts offset ('\n' :: rest) = offset :: starts (offset + 1) rest := by
  rw [starts, visits_code rfl fun slash => by cases slash]
  rfl

theorem starts_comment {inside : List Char} (h : Comment inside) (offset : Nat)
    (rest : List Char) :
    starts offset ('/' :: '*' :: (inside ++ '\n' :: rest))
      = offset :: starts (offset + 2 + inside.length + 1) rest := by
  rw [starts, visits_skipBlock h, visits_code rfl fun slash => by cases slash]
  rfl

namespace Item

variable {it : Item}

/-- The line starts of a declaration are its own and others that do not export. -/
theorem declaration_starts (it : Item) (offset : Nat) :
    ∃ later, (∀ start ∈ later, SilentAt offset it.declaration start) ∧
      ∀ rest, starts offset (it.declaration ++ '\n' :: rest)
        = offset :: (later ++ starts (offset + it.declaration.length + 1) rest) := by
  obtain ⟨vs, inner, scan⟩ := it.declaration_visits offset
  refine ⟨(vs.filter fun v => v.char == '\n' && v.depth == 0).map (·.offset + 1), ?_, ?_⟩
  · intro start member
    obtain ⟨v, found, rfl⟩ := List.mem_map.mp member
    have ⟨visited, feeds⟩ := List.mem_filter.mp found
    have ⟨feed, outside⟩ : v.char = '\n' ∧ v.depth = 0 := by simpa using feeds
    obtain ⟨ahead, behind, split, stands, silent⟩ := (inner v visited).line feed outside
    refine ⟨ahead ++ ['\n'], behind, by simp [split], ?_, silent⟩
    rw [stands, List.length_append, Nat.add_assoc]
    rfl
  · intro rest
    have closing : it.kind.closing ≠ '\n' := by cases it.kind <;> decide
    rw [starts, scan, visits_code rfl fun slash => by cases slash]
    simp [starts, closing, depthAfter]

theorem silentAt_of_ne {offset : Nat} {text : List Char} {c : Char} (h : text.head? = some c)
    (differs : c ≠ 'e') : SilentAt offset text offset := by
  refine ⟨[], text, rfl, rfl, fun rest starts => ?_⟩
  obtain ⟨tail, rfl⟩ : ∃ tail, text = c :: tail := List.head?_eq_some_iff.mp h
  exact differs (List.cons_prefix_cons.mp starts).1.symm

/-- A documentation block is one line start that does not export. -/
theorem block_starts (it : Item) (offset : Nat) :
    ∃ earlier, (∀ start ∈ earlier, SilentAt offset it.block start) ∧
      ∀ rest, starts offset (it.block ++ rest)
        = earlier ++ starts (offset + it.block.length) rest := by
  cases doc : it.doc with
  | none =>
      have empty : it.block = [] := by simp [block, doc]
      rw [empty]
      exact ⟨[], by simp, fun _ => rfl⟩
  | some d =>
      have full : it.block = d.text := by simp [block, doc]
      rw [full]
      refine ⟨[offset], ?_, fun rest => ?_⟩
      · intro start member
        obtain rfl := List.mem_singleton.mp member
        exact silentAt_of_ne (c := '/') rfl (by decide)
      · have regroup : d.text ++ rest
            = '/' :: '*' :: (('*' :: (d.inside ++ ['*', '/'])) ++ '\n' :: rest) := by
          simp [DocBlock.text]
        have length : d.text.length = ('*' :: (d.inside ++ ['*', '/'])).length + 3 := by
          simp [DocBlock.text]
        rw [regroup, starts_comment d.ends, length]
        congr 2
        omega

/-- The line starts of an item are that of its declaration and others that do not export. -/
theorem text_starts (it : Item) (offset : Nat) :
    ∃ lines, offset + it.block.length ∈ lines ∧
      (∀ start ∈ lines, start = offset + it.block.length ∨ SilentAt offset it.text start) ∧
      ∀ rest, starts offset (it.text ++ rest)
        = lines ++ starts (offset + it.text.length) rest := by
  obtain ⟨earlier, before, scanBlock⟩ := it.block_starts offset
  obtain ⟨later, after, scanBody⟩ := it.declaration_starts (offset + it.block.length)
  let stop := offset + it.block.length + it.declaration.length + 1
  refine ⟨earlier ++ (offset + it.block.length) :: (later ++ if it.spaced then [stop] else []),
    by simp, ?_, fun rest => ?_⟩
  · intro start member
    rcases List.mem_append.mp member with block | own
    · exact .inr ((before start block).shift [] rfl _)
    rcases List.mem_cons.mp own with rfl | other
    · exact .inl rfl
    rcases List.mem_append.mp other with body | blank
    · exact .inr ((after start body).shift it.block rfl _)
    · cases spaced : it.spaced with
      | false => simp [spaced] at blank
      | true =>
          obtain rfl : start = stop := by simpa [spaced] using blank
          have split : it.text = (it.block ++ (it.declaration ++ ['\n'])) ++ (['\n'] ++ []) := by
            simp [text, gap, spaced]
          have length : stop = offset + (it.block ++ (it.declaration ++ ['\n'])).length := by
            simp [stop, Nat.add_assoc]
          rw [split]
          exact .inr ((silentAt_of_ne rfl (by decide)).shift _ length [])
  · rw [text, List.append_assoc, scanBlock, List.append_assoc, List.cons_append, scanBody]
    cases spaced : it.spaced with
    | false =>
        have length : offset + it.block.length + it.declaration.length + 1
            = offset + (it.block ++ (it.declaration ++ ['\n'])).length := by
          simp [Nat.add_assoc]
        simp [gap, spaced, length]
    | true =>
        have length : offset + it.block.length + it.declaration.length + 1 + 1
            = offset + (it.block ++ (it.declaration ++ ['\n', '\n'])).length := by
          simp [Nat.add_assoc]
        simp only [gap, spaced, if_true, List.cons_append, List.nil_append, List.append_assoc,
          starts_feed]
        rw [length]

end Item

end Declarations
end WireTypes
