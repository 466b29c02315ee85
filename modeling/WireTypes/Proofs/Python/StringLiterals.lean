import Mathlib
import WireTypes.Python.Literal

/-!
# String literals — what the strings of a source denote

A string literal is a prefix and two marks with items between them: characters, line ends and escape
sequences. The items are those of the language, and so are their values: a line end is a line feed,
however it is written, and an escape sequence is one character, none, or the sequence itself.

- `StringItem.text`, `StringItem.value`: how an item is written, and what it denotes;
- `StringLiteral`: a string token of the language that is neither bytes nor formatted;
- `unescape_append`: what the decoder makes of one item, whatever follows it;
- `decodeString?_token`: what it makes of a literal;
- `decodeString?_eq_value_iff`: the literals that are decoded to what they denote.
-/

namespace WireTypes
namespace Python

/-! ## Items -/

/-- A line end of a source text. -/
inductive LineEnd
  | feed
  | returnFeed
  | loneReturn
  deriving DecidableEq, Repr

def LineEnd.text : LineEnd → List Char
  | feed => ['\n']
  | returnFeed => ['\r', '\n']
  | loneReturn => ['\r']

inductive Escape
  /-- A letter or a mark that stands for one character. -/
  | named (letter value : Char)
  | octal (digits : List Char)
  | codePoint (letter : Char) (digits : List Char)
  /-- A line that goes on in the next one. -/
  | lineEnd (e : LineEnd)
  /-- A character that has no meaning after a backslash. -/
  | unknown (c : Char)

inductive StringItem
  | char (c : Char)
  | lineEnd (e : LineEnd)
  | escape (e : Escape)

/-! ### Numbers -/

def octalDigits : List Char := ['0', '1', '2', '3', '4', '5', '6', '7']

def lowerDigits : List Char := octalDigits ++ ['8', '9', 'a', 'b', 'c', 'd', 'e', 'f']

def hexDigits : List Char := lowerDigits ++ ['A', 'B', 'C', 'D', 'E', 'F']

/-- The place of a digit among the digits. -/
def digitOf (c : Char) : Nat := lowerDigits.idxOf c.toLower

/-- The number that digits write in a base. -/
def numberOf (base : Nat) (digits : List Char) : Nat :=
  digits.foldl (fun n c => n * base + digitOf c) 0

/-! ### Tables of the language -/

def namedEscapes : List (Char × Char) :=
  [('\\', '\\'), ('\'', '\''), ('"', '"'), ('a', '\x07'), ('b', '\x08'), ('f', '\x0c'), ('n', '\n'),
    ('r', '\r'), ('t', '\t'), ('v', '\x0b')]

/-- How many digits follow the letter. -/
def codePointWidths : List (Char × Nat) := [('x', 2), ('u', 4), ('U', 8)]

/-- The characters with a meaning after a backslash; `N` is followed by the name of a character. -/
def meaningful : List Char :=
  namedEscapes.map Prod.fst ++ octalDigits ++ codePointWidths.map Prod.fst ++ ['N', '\n', '\r']

namespace Escape

def text : Escape → List Char
  | named letter _ => ['\\', letter]
  | octal digits => '\\' :: digits
  | codePoint letter digits => '\\' :: letter :: digits
  | lineEnd e => '\\' :: e.text
  | unknown c => ['\\', c]

def value : Escape → List Char
  | named _ value => [value]
  | octal digits => [Char.ofNat (numberOf 8 digits)]
  | codePoint _ digits => [Char.ofNat (numberOf 16 digits)]
  | lineEnd _ => []
  | unknown c => ['\\', c]

def IsValid : Escape → Prop
  | named letter value => (letter, value) ∈ namedEscapes
  | octal digits => digits.length ∈ [1, 2, 3] ∧ ∀ c ∈ digits, c ∈ octalDigits
  | codePoint letter digits =>
      (letter, digits.length) ∈ codePointWidths ∧ (∀ c ∈ digits, c ∈ hexDigits) ∧
        (numberOf 16 digits).isValidChar
  | lineEnd _ => True
  | unknown c => c ∉ meaningful

end Escape

/-- A lone carriage return is not the first half of a line end. -/
def LineEnd.EndsBefore (rest : List Char) : LineEnd → Prop
  | loneReturn => rest.head? ≠ some '\n'
  | _ => True

/-- Digits in front of more digits are the longest escape that they can be. -/
def Escape.EndsBefore (rest : List Char) : Escape → Prop
  | octal digits => digits.length = 3 ∨ ∀ c ∈ rest.head?, c ∉ octalDigits
  | lineEnd e => e.EndsBefore rest
  | _ => True

namespace StringItem

def text : StringItem → List Char
  | char c => [c]
  | lineEnd e => e.text
  | escape e => e.text

def value : StringItem → List Char
  | char c => [c]
  | lineEnd _ => ['\n']
  | escape e => e.value

/-- In a raw string a backslash is a character like others. -/
def IsValid (raw : Bool) : StringItem → Prop
  | char c => c ≠ '\n' ∧ c ≠ '\r' ∧ (c = '\\' → raw = true)
  | lineEnd _ => True
  | escape e => raw = false ∧ e.IsValid

def EndsBefore (rest : List Char) : StringItem → Prop
  | char _ => True
  | lineEnd e => e.EndsBefore rest
  | escape e => e.EndsBefore rest

def textOf (items : List StringItem) : List Char := items.flatMap text

/-- The items are those that their text is read as. -/
def Formed (raw : Bool) : List StringItem → Prop
  | [] => True
  | item :: rest => item.IsValid raw ∧ item.EndsBefore (textOf rest) ∧ Formed raw rest

end StringItem

/-! ## Literals -/

/-- One quotation mark, or three of them. -/
structure QuotationMark where
  char : Char
  known : char = '"' ∨ char = '\''
  triple : Bool

def QuotationMark.text (m : QuotationMark) : List Char :=
  if m.triple then [m.char, m.char, m.char] else [m.char]

/-- The first mark after the opening one that follows no backslash stands behind this content, which is
on one line unless the mark is a triple one. -/
def QuotationMark.closes (m : QuotationMark) : List Char → Bool
  | [] => true
  | '\\' :: '\r' :: '\n' :: rest => closes m rest
  | '\\' :: _ :: rest => closes m rest
  | ['\\'] => false
  | c :: rest =>
      !m.text.isPrefixOf (c :: rest ++ m.text) && (m.triple || (c != '\n' && c != '\r'))
        && closes m rest

/-- The prefixes of strings that are neither bytes nor formatted, and whether they make a raw string. -/
def stringPrefixes : List (List Char × Bool) :=
  [([], false), (['u'], false), (['U'], false), (['r'], true), (['R'], true)]

structure StringLiteral where
  letters : List Char
  raw : Bool
  mark : QuotationMark
  items : List StringItem
  isPrefix : (letters, raw) ∈ stringPrefixes
  formed : StringItem.Formed raw items
  closed : mark.closes (StringItem.textOf items) = true

namespace StringLiteral

open StringItem (textOf)

def token (l : StringLiteral) : String :=
  String.ofList (l.letters ++ (l.mark.text ++ textOf l.items ++ l.mark.text))

/-- The string that the literal denotes. -/
def value (l : StringLiteral) : String := String.ofList (l.items.flatMap StringItem.value)

end StringLiteral

/-! ## Escape sequences as they are decoded -/

section

variable {c : Char} {cs rest digits : List Char}

theorem unescape_char (h : c ≠ '\\') : unescape (c :: rest) = c :: unescape rest := by
  rw [unescape]
  all_goals simp [h]

theorem unescape_feed : unescape ('\\' :: '\n' :: rest) = unescape rest := by
  rw [unescape]

theorem unescape_simple {value : Char} (hfeed : c ≠ '\n') (h : simpleEscape? c = some value) :
    unescape ('\\' :: c :: rest) = value :: unescape rest := by
  rw [unescape]
  · simp [h]
  · exact hfeed

theorem unescape_codePoint {width : Nat} (hfeed : c ≠ '\n') (hsimple : simpleEscape? c = none)
    (h : codePointWidth? c = some width) :
    unescape ('\\' :: c :: rest) =
      codePointText (rest.take width) ++ unescape (rest.drop width) := by
  rw [unescape]
  · simp [h, hsimple]
  · exact hfeed

theorem unescape_unknown (hfeed : c ≠ '\n') (hsimple : simpleEscape? c = none)
    (h : codePointWidth? c = none) : unescape ('\\' :: c :: rest) = '\\' :: c :: unescape rest := by
  rw [unescape]
  · simp [h, hsimple]
  · exact hfeed

theorem unescape_chars (h : ∀ c ∈ cs, c ≠ '\\') : unescape (cs ++ rest) = cs ++ unescape rest := by
  induction cs with
  | nil => rfl
  | cons c cs ih =>
      have hfirst : c ≠ '\\' := h c List.mem_cons_self
      have hothers : ∀ d ∈ cs, d ≠ '\\' := fun d hd => h d (List.mem_cons_of_mem c hd)
      rw [List.cons_append, unescape_char hfirst, ih hothers, List.cons_append]

/-! ### Code points -/

theorem hexDigitValue?_eq (h : c ∈ hexDigits) : hexDigitValue? c = some (digitOf c) := by
  have hall : hexDigits.all fun c => hexDigitValue? c = some (digitOf c) := by decide
  simpa using List.all_eq_true.1 hall c h

theorem digitOf_lt (h : c ∈ hexDigits) : digitOf c < 16 := by
  have hall : hexDigits.all fun c => digitOf c < 16 := by decide
  simpa using List.all_eq_true.1 hall c h

theorem digitsValue?_eq (h : ∀ c ∈ digits, c ∈ hexDigits) (n : Nat) :
    digitsValue? 16 n digits = some (digits.foldl (fun n c => n * 16 + digitOf c) n) := by
  induction digits generalizing n with
  | nil => rfl
  | cons c digits ih =>
      have hfirst : c ∈ hexDigits := h c List.mem_cons_self
      have hothers : ∀ d ∈ digits, d ∈ hexDigits := fun d hd => h d (List.mem_cons_of_mem c hd)
      simp [digitsValue?, hexDigitValue?_eq hfirst, digitOf_lt hfirst, ih hothers]

/-- No digit is a sign, so that all of the digits count. -/
theorem codePoint?_eq (hne : digits ≠ []) (h : ∀ c ∈ digits, c ∈ hexDigits)
    (hvalid : (numberOf 16 digits).isValidChar) :
    codePoint? digits = some (Char.ofNat (numberOf 16 digits)) := by
  have hnumber : number? 16 digits = some (numberOf 16 digits) := by
    simp [number?, hne, digitsValue?_eq h, numberOf]
  have hsign : ∀ rest, digits ≠ '+' :: rest := by
    rintro rest rfl
    exact absurd (h '+' List.mem_cons_self) (by decide)
  unfold codePoint?
  split
  next rest => exact absurd rfl (hsign rest)
  next => simp [hnumber, hvalid]

theorem codePointText_eq (hne : digits ≠ []) (h : ∀ c ∈ digits, c ∈ hexDigits)
    (hvalid : (numberOf 16 digits).isValidChar) :
    codePointText digits = [Char.ofNat (numberOf 16 digits)] := by
  simp [codePointText, codePoint?_eq hne h hvalid]

end

/-! ### Items -/

/-- What the decoder makes of an escape sequence: it knows the digit zero, no other octal digits, and
the line feed as the only line end. -/
def Escape.decoded : Escape → List Char
  | named letter value =>
      match simpleEscape? letter with
      | some _ => [value]
      | none => ['\\', letter]
  | octal ('0' :: digits) => '\x00' :: digits
  | octal digits => '\\' :: digits
  | codePoint _ digits => [Char.ofNat (numberOf 16 digits)]
  | lineEnd .feed => []
  | lineEnd e => '\\' :: e.text
  | unknown c => ['\\', c]

def StringItem.decoded : StringItem → List Char
  | char c => [c]
  | lineEnd e => e.text
  | escape e => e.decoded

section

variable {rest : List Char}

theorem ne_backslash_of_octal : ∀ c ∈ octalDigits, c ≠ '\\' := by
  simp [octalDigits]

theorem LineEnd.ne_backslash (e : LineEnd) : ∀ c ∈ e.text, c ≠ '\\' := by
  cases e <;> simp [LineEnd.text]

theorem unescape_named {letter value : Char} (h : (letter, value) ∈ namedEscapes) :
    unescape ('\\' :: letter :: rest) = (Escape.named letter value).decoded ++ unescape rest := by
  have htable : ∀ x ∈ namedEscapes, x.1 ≠ '\n' ∧ codePointWidth? x.1 = none ∧
      (simpleEscape? x.1 = none ∨ simpleEscape? x.1 = some x.2) := by decide
  obtain ⟨hfeed, hwidth, hnone | hsome⟩ := htable _ h
  · rw [unescape_unknown hfeed hnone hwidth]
    simp only at hnone
    simp [Escape.decoded, hnone]
  · rw [unescape_simple hfeed hsome]
    simp only at hsome
    simp [Escape.decoded, hsome]

theorem unescape_octal {digits : List Char} (hne : digits ≠ []) (h : ∀ c ∈ digits, c ∈ octalDigits) :
    unescape ('\\' :: digits ++ rest) = (Escape.octal digits).decoded ++ unescape rest := by
  obtain ⟨c, digits, rfl⟩ := List.exists_cons_of_ne_nil hne
  have hplain : ∀ d ∈ digits, d ≠ '\\' := fun d hd =>
    ne_backslash_of_octal d (h d (List.mem_cons_of_mem c hd))
  have htable : ∀ c ∈ octalDigits, c ≠ '\n' ∧ codePointWidth? c = none ∧
      (c = '0' ∨ simpleEscape? c = none) := by
    simp [octalDigits, codePointWidth?, simpleEscape?]
  obtain ⟨hfeed, hwidth, rfl | hnone⟩ := htable c (h c List.mem_cons_self)
  · have hzero : simpleEscape? '0' = some '\x00' := rfl
    simp only [List.cons_append]
    rw [unescape_simple hfeed hzero, unescape_chars hplain]
    rfl
  · have hdecoded : (Escape.octal (c :: digits)).decoded = '\\' :: c :: digits := by
      have hzero : c ≠ '0' := by
        rintro rfl
        cases hnone
      simp [Escape.decoded, hzero]
    simp only [List.cons_append]
    rw [unescape_unknown hfeed hnone hwidth, unescape_chars hplain, hdecoded]
    rfl

theorem unescape_digits {letter : Char} {digits : List Char}
    (h : (Escape.codePoint letter digits).IsValid) :
    unescape ('\\' :: letter :: digits ++ rest)
      = (Escape.codePoint letter digits).decoded ++ unescape rest := by
  obtain ⟨hmem, hdigits, hvalid⟩ := h
  have htable : ∀ x ∈ codePointWidths, x.1 ≠ '\n' ∧ simpleEscape? x.1 = none ∧
      codePointWidth? x.1 = some x.2 ∧ 0 < x.2 := by decide
  obtain ⟨hfeed, hsimple, hwidth, hpositive⟩ := htable _ hmem
  have hne : digits ≠ [] := List.length_pos_iff.1 hpositive
  simp only [List.cons_append]
  rw [unescape_codePoint hfeed hsimple hwidth, List.take_left, List.drop_left,
    codePointText_eq hne hdigits hvalid]
  rfl

theorem unescape_unknown_item {c : Char} (h : c ∉ meaningful) :
    unescape ('\\' :: c :: rest) = '\\' :: c :: unescape rest := by
  have hfeed : c ≠ '\n' := by
    rintro rfl
    exact h (by decide)
  have hsimple : simpleEscape? c = none := by
    unfold simpleEscape?
    split
    all_goals first | rfl | exact absurd (by decide) h
  have hwidth : codePointWidth? c = none := by
    unfold codePointWidth?
    split
    all_goals first | rfl | exact absurd (by decide) h
  exact unescape_unknown hfeed hsimple hwidth

theorem unescape_lineEnd (e : LineEnd) :
    unescape ('\\' :: e.text ++ rest) = (Escape.lineEnd e).decoded ++ unescape rest := by
  have hreturn : ∀ rest, unescape ('\\' :: '\r' :: rest) = '\\' :: '\r' :: unescape rest :=
    fun _ => unescape_unknown (by decide) rfl rfl
  cases e with
  | feed => exact unescape_feed
  | returnFeed =>
      simp only [LineEnd.text, List.cons_append, List.nil_append]
      rw [hreturn, unescape_char (by decide)]
      rfl
  | loneReturn => exact hreturn rest

/-- An item is decoded in the same way whatever follows it. -/
theorem unescape_append {item : StringItem} (h : item.IsValid false) :
    unescape (item.text ++ rest) = item.decoded ++ unescape rest := by
  cases item with
  | char c =>
      have hne : c ≠ '\\' := fun hc => by simpa using h.2.2 hc
      exact unescape_char hne
  | lineEnd e => exact unescape_chars e.ne_backslash
  | escape e =>
      cases e with
      | named letter value => exact unescape_named h.2
      | octal digits =>
          have hne : digits ≠ [] := by
            rintro rfl
            exact absurd h.2.1 (by decide)
          exact unescape_octal hne h.2.2
      | codePoint letter digits => exact unescape_digits h.2
      | lineEnd e => exact unescape_lineEnd e
      | unknown c => exact unescape_unknown_item h.2

theorem unescape_textOf {items : List StringItem} (h : StringItem.Formed false items) :
    unescape (StringItem.textOf items) = items.flatMap StringItem.decoded := by
  induction items with
  | nil =>
      simp only [StringItem.textOf, List.flatMap_nil]
      rw [unescape]
  | cons item items ih =>
      obtain ⟨hitem, -, hrest⟩ := h
      have hfirst : unescape (item.text ++ StringItem.textOf items) =
          item.decoded ++ unescape (StringItem.textOf items) := unescape_append hitem
      rw [ih hrest] at hfirst
      simpa [StringItem.textOf] using hfirst

end

/-! ## Marks -/

section

variable {m : QuotationMark} {content : List Char}

theorem QuotationMark.isQuote (m : QuotationMark) : Python.isQuote m.char = true := by
  rcases m.known with h | h <;> simp [Python.isQuote, h]

theorem QuotationMark.head?_append (m : QuotationMark) (cs : List Char) :
    (m.text ++ cs).head? = some m.char := by
  cases htriple : m.triple <;> simp [QuotationMark.text, htriple]

/-- What stands between single marks does not begin with one. -/
theorem QuotationMark.head_ne (h : m.closes content = true) (hsingle : m.triple = false) :
    content.head? ≠ some m.char := by
  unfold QuotationMark.closes at h
  split at h
  · simp
  · rcases m.known with hq | hq <;> simp [hq]
  · rcases m.known with hq | hq <;> simp [hq]
  · cases h
  · next c rest _ _ _ =>
      rintro heq
      have hc : c = m.char := by simpa using heq
      simp [QuotationMark.text, hsingle, hc] at h

theorem unquote?_of_head_ne {mark body : List Char} {q : Char} (hmark : mark.head? = some q)
    (hbody : body.head? ≠ some q) : unquote? mark body = none := by
  refine if_neg ?_
  rintro ⟨-, hprefix, -⟩
  obtain ⟨rest, rfl⟩ := List.isPrefixOf_iff_prefix.1 hprefix
  exact hbody (by simp [List.head?_append, hmark])

/-- A string in single marks is not in triple ones, unless it begins with a mark. -/
theorem unquote?_tripled {q : Char} (h : content.head? ≠ some q) :
    unquote? [q, q, q] ([q] ++ content ++ [q]) = none := by
  refine if_neg ?_
  rintro ⟨hlength, hprefix, -⟩
  cases content with
  | nil => simp at hlength
  | cons c content =>
      obtain ⟨rest, heq⟩ := List.isPrefixOf_iff_prefix.1 hprefix
      have hc : q = c := by
        simp only [List.cons_append, List.nil_append, List.cons.injEq] at heq
        exact heq.2.1
      exact h (by simp [hc])

theorem unquote?_text (m : QuotationMark) (content : List Char) :
    unquote? m.text (m.text ++ content ++ m.text) = some content := by
  have hlength : (m.text ++ content ++ m.text).length = content.length + 2 * m.text.length := by
    simp only [List.length_append]
    omega
  have hprefix : m.text.isPrefixOf (m.text ++ content ++ m.text) = true := by
    simp
  have hsuffix : m.text.isSuffixOf (m.text ++ content ++ m.text) = true :=
    List.isSuffixOf_iff_suffix.2 (List.suffix_append _ _)
  rw [unquote?, if_pos ⟨by omega, hprefix, hsuffix⟩, hlength, Nat.add_sub_cancel]
  simp

/-- The marks are found again, and a single one is not taken for a triple one. -/
theorem findSome?_unquote? (h : m.closes content = true) :
    quotationMarks.findSome? (unquote? · (m.text ++ content ++ m.text)) = some content := by
  have hown := unquote?_text m content
  have hhead : m.triple = false → content.head? ≠ some m.char := QuotationMark.head_ne h
  -- A mark of the other kind is not where the string begins.
  have hother : ∀ (mark : List Char) (q : Char), mark.head? = some q → q ≠ m.char →
      unquote? mark (m.text ++ content ++ m.text) = none := by
    intro mark q hmark hq
    refine unquote?_of_head_ne hmark fun hbody => hq ?_
    rw [List.append_assoc, QuotationMark.head?_append] at hbody
    exact (Option.some.inj hbody).symm
  have htripled : m.triple = false → unquote? [m.char, m.char, m.char] (m.text ++ content ++ m.text) =
      none := by
    intro hsingle
    rw [QuotationMark.text, hsingle]
    exact unquote?_tripled (hhead hsingle)
  generalize m.text ++ content ++ m.text = body at hown hother htripled ⊢
  obtain ⟨q, rfl | rfl, triple⟩ := m
  · have hapostrophes : unquote? ['\'', '\'', '\''] body = none := hother _ '\'' rfl (by simp)
    cases triple with
    | true => simp_all [quotationMarks, QuotationMark.text]
    | false => simp_all [quotationMarks, QuotationMark.text]
  · have hquotes : unquote? ['"', '"', '"'] body = none := hother _ '"' rfl (by simp)
    have hquote : unquote? ['"'] body = none := hother _ '"' rfl (by simp)
    cases triple with
    | true => simp_all [quotationMarks, QuotationMark.text]
    | false => simp_all [quotationMarks, QuotationMark.text]

end

/-! ## Literals as they are decoded -/

namespace StringLiteral

open StringItem (textOf)

variable (l : StringLiteral)

/-- A prefix is short, and says no more than whether the string is raw. -/
theorem letters_spec : (∀ c ∈ l.letters, isQuote c = false) ∧
    (l.letters.map Char.utf8Size).foldl (· + ·) 0 ≤ 1 ∧
    (l.letters.map Char.toLower).contains 'b' = false ∧
    (l.letters.map Char.toLower).contains 'f' = false ∧
    (l.letters.map Char.toLower).contains 'r' = l.raw := by
  have hprefix := l.isPrefix
  simp only [stringPrefixes, List.mem_cons, Prod.mk.injEq, List.not_mem_nil, or_false] at hprefix
  rcases hprefix with ⟨h, hraw⟩ | ⟨h, hraw⟩ | ⟨h, hraw⟩ | ⟨h, hraw⟩ | ⟨h, hraw⟩ <;>
    simp [h, hraw, isQuote] <;> decide

/-- The content of a literal, as the decoder gives it. -/
theorem decodeString?_token : decodeString? l.token =
    some (String.ofList (if l.raw then textOf l.items else l.items.flatMap StringItem.decoded)) := by
  obtain ⟨hletters, hsize, hbytes, hformatted, hraw⟩ := l.letters_spec
  have hmark : ∀ cs, (l.mark.text ++ cs).head? = some l.mark.char := l.mark.head?_append
  generalize hbody : l.mark.text ++ textOf l.items ++ l.mark.text = body
  have hhead : body.head? = some l.mark.char := by
    rw [← hbody, List.append_assoc, hmark]
  obtain ⟨rest, hcons⟩ : ∃ rest, body = l.mark.char :: rest := by
    cases body with
    | nil => cases hhead
    | cons c rest => exact ⟨rest, by rw [Option.some.inj hhead]⟩
  have hkept : ∀ c ∈ l.letters, (!isQuote c) = true := fun c hc => by simp [hletters c hc]
  have htake : (l.letters ++ body).takeWhile (!isQuote ·) = l.letters := by
    rw [List.takeWhile_append_of_pos hkept, hcons]
    simp [l.mark.isQuote]
  have hdrop : (l.letters ++ body).dropWhile (!isQuote ·) = body := by
    rw [List.dropWhile_append_of_pos hkept, hcons]
    simp [l.mark.isQuote]
  have hinner : quotationMarks.findSome? (unquote? · body) = some (textOf l.items) := by
    rw [← hbody]
    exact findSome?_unquote? l.closed
  have hlong : ¬ 2 < (l.letters.map Char.utf8Size).foldl (· + ·) 0 := by omega
  have hdecoded : (if l.raw then textOf l.items else unescape (textOf l.items)) =
      if l.raw then textOf l.items else l.items.flatMap StringItem.decoded := by
    cases hcooked : l.raw with
    | true => rfl
    | false => exact unescape_textOf (hcooked ▸ l.formed)
  have hne : body.isEmpty = false := by rw [hcons]; rfl
  simp only [decodeString?, token, hbody, String.toList_ofList, decodeChars?, htake, hdrop, hne,
    hlong, hbytes, hformatted, hraw, hinner, hdecoded, decide_false, Bool.or_self,
    Bool.false_eq_true, if_false, Option.map_some]

end StringLiteral

/-! ## Items that are decoded to their values -/

/-- The decoder has the meaning of an escape sequence: it has no bell, backspace, form feed and vertical
tab, no octal numbers but the single digit zero, and no line ends but the line feed. -/
def Escape.IsKept : Escape → Prop
  | named letter _ => letter ∉ ['a', 'b', 'f', 'v']
  | octal digits => digits = ['0']
  | codePoint _ _ => True
  | lineEnd e => e = .feed
  | unknown _ => True

def StringItem.IsKept : StringItem → Prop
  | char _ => True
  | lineEnd e => e = .feed
  | escape e => e.IsKept

section

variable {raw : Bool}

theorem numberOf_zero : Char.ofNat (numberOf 8 ['0']) = '\x00' := by decide

theorem Escape.decoded_of_isKept {e : Escape} (h : e.IsValid) (hkept : e.IsKept) :
    e.decoded = e.value := by
  cases e with
  | named letter c =>
      have hknown : (simpleEscape? letter).isSome := by
        simp only [IsValid, namedEscapes, List.mem_cons, Prod.mk.injEq, List.not_mem_nil,
          or_false] at h
        rcases h with ⟨rfl, -⟩ | ⟨rfl, -⟩ | ⟨rfl, -⟩ | ⟨rfl, -⟩ | ⟨rfl, -⟩ | ⟨rfl, -⟩ | ⟨rfl, -⟩ |
          ⟨rfl, -⟩ | ⟨rfl, -⟩ | ⟨rfl, -⟩ <;> simp_all [IsKept, simpleEscape?]
      obtain ⟨d, hd⟩ := Option.isSome_iff_exists.1 hknown
      simp [decoded, value, hd]
  | octal digits =>
      have hzero : digits = ['0'] := hkept
      simp [hzero, decoded, value, numberOf_zero]
  | codePoint letter digits => rfl
  | lineEnd e =>
      have hfeed : e = .feed := hkept
      simp [hfeed, decoded, value]
  | unknown c => rfl

/-- What has lost its meaning is longer than what it means. -/
theorem Escape.length_lt_of_not_isKept {e : Escape} (h : e.IsValid) (hlost : ¬ e.IsKept) :
    e.value.length < e.decoded.length := by
  cases e with
  | named letter c =>
      have hletter : letter ∈ ['a', 'b', 'f', 'v'] := not_not.1 hlost
      have hunknown : simpleEscape? letter = none := by
        simp only [List.mem_cons, List.not_mem_nil, or_false] at hletter
        rcases hletter with rfl | rfl | rfl | rfl <;> rfl
      simp [decoded, value, hunknown]
  | octal digits =>
      have hne : digits ≠ ['0'] := hlost
      match digits with
      | [] => exact absurd h.1 (by decide)
      | [c] =>
          have hc : c ≠ '0' := fun heq => hne (by rw [heq])
          simp [decoded, value, hc]
      | '0' :: d :: rest => simp [decoded, value]
      | c :: d :: rest =>
          by_cases hc : c = '0' <;> simp [decoded, value, hc]
  | codePoint letter digits => exact absurd trivial hlost
  | lineEnd e =>
      cases e with
      | feed => exact absurd rfl hlost
      | returnFeed => simp [decoded, value, LineEnd.text]
      | loneReturn => simp [decoded, value, LineEnd.text]
  | unknown c => exact absurd trivial hlost

/-- What the decoder makes of an item in a raw string or in another one. -/
def StringItem.read (raw : Bool) (item : StringItem) : List Char :=
  if raw then item.text else item.decoded

theorem LineEnd.text_eq_iff (e : LineEnd) : e.text = ['\n'] ↔ e = .feed := by
  cases e <;> simp [text]

theorem StringItem.length_value_le {item : StringItem} (h : item.IsValid raw) :
    item.value.length ≤ (item.read raw).length := by
  cases item with
  | char c => simp [read, text, decoded, value]
  | lineEnd e => cases e <;> simp [read, text, decoded, value, LineEnd.text]
  | escape e =>
      obtain ⟨rfl, hvalid⟩ := h
      by_cases hkept : e.IsKept
      · exact (congrArg List.length (e.decoded_of_isKept hvalid hkept)).ge
      · exact (e.length_lt_of_not_isKept hvalid hkept).le

theorem StringItem.read_eq_value_iff {item : StringItem} (h : item.IsValid raw) :
    item.read raw = item.value ↔ item.IsKept := by
  cases item with
  | char c => simp [read, text, decoded, value, IsKept]
  | lineEnd e =>
      have hread : (lineEnd e).read raw = e.text := by simp [read, text, decoded]
      rw [hread]
      exact e.text_eq_iff
  | escape e =>
      obtain ⟨rfl, hvalid⟩ := h
      constructor
      · intro heq
        by_contra hlost
        have hlonger := e.length_lt_of_not_isKept hvalid hlost
        have hsame : e.decoded.length = e.value.length := congrArg List.length heq
        omega
      · exact e.decoded_of_isKept hvalid

/-- Two texts that are put together from parts are equal only if the parts are, where no part of the one
is longer than its counterpart. -/
theorem flatMap_eq_flatMap_iff {α β : Type} {f g : α → List β} {items : List α}
    (h : ∀ a ∈ items, (g a).length ≤ (f a).length) :
    items.flatMap f = items.flatMap g ↔ ∀ a ∈ items, f a = g a := by
  induction items with
  | nil => simp
  | cons a items ih =>
      have hrest : ∀ a ∈ items, (g a).length ≤ (f a).length :=
        fun b hb => h b (List.mem_cons_of_mem a hb)
      have htotal : (items.flatMap g).length ≤ (items.flatMap f).length := by
        simp only [List.length_flatMap]
        exact List.sum_le_sum hrest
      rw [List.flatMap_cons, List.flatMap_cons, List.forall_mem_cons, ← ih hrest]
      constructor
      · intro heq
        have hfirst := h a List.mem_cons_self
        have hlength := congrArg List.length heq
        simp only [List.length_append] at hlength
        exact List.append_inj heq (by omega)
      · rintro ⟨hfirst, hothers⟩
        rw [hfirst, hothers]

theorem StringItem.Formed.isValid {items : List StringItem} (h : StringItem.Formed raw items) :
    ∀ item ∈ items, item.IsValid raw := by
  induction items with
  | nil => simp
  | cons item items ih => exact List.forall_mem_cons.2 ⟨h.1, ih h.2.2⟩

end

/-- Every literal is decoded, and it is decoded to what it denotes exactly if every item of it keeps its
meaning. In particular all characters do, escapes by hexadecimal digits and those without a meaning, in
strings of any prefix and in marks of any kind. -/
theorem decodeString?_eq_value_iff (l : StringLiteral) :
    (∃ s, decodeString? l.token = some s) ∧
      (decodeString? l.token = some l.value ↔ ∀ item ∈ l.items, item.IsKept) := by
  have hvalid := l.formed.isValid
  have hread : decodeString? l.token =
      some (String.ofList (l.items.flatMap (StringItem.read l.raw))) := by
    rw [l.decodeString?_token]
    cases l.raw <;> rfl
  have hvalues : l.items.flatMap (StringItem.read l.raw) = l.items.flatMap StringItem.value ↔
      ∀ item ∈ l.items, item.read l.raw = item.value :=
    flatMap_eq_flatMap_iff fun item hitem => StringItem.length_value_le (hvalid item hitem)
  refine ⟨⟨_, hread⟩, ?_⟩
  calc decodeString? l.token = some l.value
      ↔ l.items.flatMap (StringItem.read l.raw) = l.items.flatMap StringItem.value := by
        rw [hread, Option.some.injEq, StringLiteral.value, String.ofList_inj]
    _ ↔ ∀ item ∈ l.items, item.read l.raw = item.value := hvalues
    _ ↔ ∀ item ∈ l.items, item.IsKept :=
        forall₂_congr fun item hitem => StringItem.read_eq_value_iff (hvalid item hitem)

namespace Sample

/-- A bell and a letter by its octal number, in quotation marks. -/
def bell : StringLiteral where
  letters := []
  raw := false
  mark := ⟨'"', .inl rfl, false⟩
  items := [.escape (.named 'a' '\x07'), .escape (.octal ['1', '0', '1'])]
  isPrefix := by simp [stringPrefixes]
  formed := by
    simp [StringItem.Formed, StringItem.IsValid, Escape.IsValid, StringItem.EndsBefore,
      Escape.EndsBefore, namedEscapes, octalDigits]
  closed := by decide

end Sample

/-- Neither of the two escapes keeps its meaning. -/
theorem bell_is_not_decoded :
    Sample.bell.token = "\"\\a\\101\"" ∧ Sample.bell.value = "\x07A" ∧
      decodeString? Sample.bell.token = some "\\a\\101" := by
  refine ⟨?_, ?_, ?_⟩ <;> cbv

end Python
end WireTypes
