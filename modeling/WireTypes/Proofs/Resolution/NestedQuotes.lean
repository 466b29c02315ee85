import WireTypes.Proofs.Python.EncodedLength
import WireTypes.Proofs.Resolution.Quoting

/-!
# Nested quotes — the search for a class variable ends

Whether an annotation is a class variable is asked of the text in quotation marks again, however often the
annotation is quoted. Nothing but the texts bounds the search: each is shorter than the one around it.

- `QuotedIn inner outer`: one annotation is the text of another one, and this is well-founded;
- `Asks c m hint rounds answer`: the search with no bound, which opens so many texts;
- `exists_asks`: it ends for every annotation, and with the answer of `isClassVar`;
- `nested_quoting_ends`: what quoting writes is shorter, and so the search ends soon.
-/

namespace WireTypes
namespace Resolution

open Discovery Python

/-! ## Texts within texts -/

/-- An annotation is what the text of another one is read as. -/
inductive QuotedIn : TypeHint → TypeHint → Prop
  | text {text inner} : TypeHint.parse text = .ok inner → QuotedIn inner (.str text)

/-- What the searches of an annotation are measured by: a text may hold another one in two characters less. -/
def quotedLength : TypeHint → Nat
  | .str text => text.length + 2
  | _ => 0

theorem QuotedIn.length {inner outer : TypeHint} (h : QuotedIn inner outer) :
    quotedLength inner + 2 ≤ quotedLength outer := by
  obtain ⟨hparse⟩ := h
  cases inner with
  | str s => exact Nat.add_le_add_right (TypeHint.length_parse_str hparse) 2
  | _ => exact Nat.le_add_left 2 _

theorem quotedIn_wellFounded : WellFounded QuotedIn := by
  apply Subrelation.wf (r := InvImage (· < ·) quotedLength)
  · intro inner outer h
    exact Nat.lt_of_lt_of_le (Nat.lt_add_of_pos_right Nat.two_pos) h.length
  · exact InvImage.wf quotedLength Nat.lt_wfRel.wf

/-! ## The search without a bound -/

namespace ClassifiedProgram

variable {c : ClassifiedProgram} {m : SourceModule} {hint : TypeHint}

/-- The answer for an annotation that is no text. -/
def marksHint (c : ClassifiedProgram) (m : SourceModule) : TypeHint → Bool
  | .name name => isClassVarWithin.marks c m name
  | .subscript base _ => isClassVarWithin.marks c m base
  | _ => false

/-- The search for a class variable, with the number of texts that are read on the way and the answer. It
has no bound: a text that were read as itself would be asked for ever. -/
inductive Asks (c : ClassifiedProgram) (m : SourceModule) : TypeHint → Nat → Bool → Prop
  | plain {hint : TypeHint} : (∀ text, hint ≠ .str text) → Asks c m hint 0 (c.marksHint m hint)
  | unreadable {text : String} {e : TypeHint.ParseError} :
      TypeHint.parse text = .error e → Asks c m (.str text) 1 false
  | text {text : String} {inner : TypeHint} {rounds : Nat} {answer : Bool} :
      TypeHint.parse text = .ok inner → Asks c m inner rounds answer →
        Asks c m (.str text) (rounds + 1) answer

namespace Asks

variable {rounds rounds' : Nat} {answer answer' : Bool}

theorem unique (h : Asks c m hint rounds answer) (h' : Asks c m hint rounds' answer') :
    rounds = rounds' ∧ answer = answer' := by
  induction h generalizing rounds' answer' with
  | plain hplain =>
      cases h' with
      | plain _ => exact ⟨rfl, rfl⟩
      | unreadable _ => exact absurd rfl (hplain _)
      | text _ _ => exact absurd rfl (hplain _)
  | unreadable hparse =>
      cases h' with
      | plain hplain => exact absurd rfl (hplain _)
      | unreadable _ => exact ⟨rfl, rfl⟩
      | text hparse' _ => cases hparse.symm.trans hparse'
  | text hparse _ ih =>
      cases h' with
      | plain hplain => exact absurd rfl (hplain _)
      | unreadable hparse' => cases hparse.symm.trans hparse'
      | text hparse' h' =>
          cases hparse.symm.trans hparse'
          obtain ⟨rfl, rfl⟩ := ih h'
          exact ⟨rfl, rfl⟩

/-- Each round takes two characters. -/
theorem rounds_le (h : Asks c m hint rounds answer) : 2 * rounds ≤ quotedLength hint := by
  induction h with
  | plain _ => exact Nat.zero_le _
  | @unreadable text e _ => exact Nat.le_add_left 2 text.length
  | text hparse _ ih => exact (Nat.add_le_add_right ih 2).trans (QuotedIn.text hparse).length

end Asks

theorem isClassVar_plain (h : ∀ text, hint ≠ .str text) : c.isClassVar m hint = c.marksHint m hint := by
  unfold isClassVar isClassVarWithin marksHint
  cases hint with
  | str text => exact absurd rfl (h text)
  | _ => rfl

theorem isClassVar_unreadable {text : String} {e : TypeHint.ParseError}
    (h : TypeHint.parse text = .error e) : c.isClassVar m (.str text) = false := by
  simp only [isClassVar, isClassVarWithin, h]

/-- The search ends, by induction on the texts within texts, and its answer is the one with a bound. -/
theorem exists_asks (c : ClassifiedProgram) (m : SourceModule) (hint : TypeHint) :
    ∃ rounds, Asks c m hint rounds (c.isClassVar m hint) := by
  induction hint using quotedIn_wellFounded.induction with
  | _ hint ih =>
      by_cases hplain : ∀ text, hint ≠ .str text
      · exact ⟨0, isClassVar_plain hplain ▸ .plain hplain⟩
      obtain ⟨text, rfl⟩ : ∃ text, hint = .str text := by simpa using hplain
      cases hparse : TypeHint.parse text with
      | error e => exact ⟨1, isClassVar_unreadable hparse ▸ .unreadable hparse⟩
      | ok inner =>
          obtain ⟨rounds, hasks⟩ := ih inner (.text hparse)
          exact ⟨rounds + 1, isClassVar_of_parse hparse ▸ .text hparse hasks⟩

/-- Nested quoting ends. What a string token writes is shorter than the token, in characters and in bytes
and also where strings are joined, and what a text is read as is shorter than the text. So the search for a
class variable ends for every annotation with the one answer that there is, and it reads no more texts than
one and one for every two characters. -/
theorem nested_quoting_ends (c : ClassifiedProgram) (m : SourceModule) :
    (∀ token s, decodeString? token = some s →
      s.length < token.length ∧ s.utf8ByteSize < token.utf8ByteSize) ∧
    (∀ tokens s, tokens ≠ [] → decodeStrings? tokens = some s →
      s.length < (tokens.map String.length).sum ∧
        s.utf8ByteSize < (tokens.map String.utf8ByteSize).sum) ∧
    (∀ text s, TypeHint.parse text = .ok (.str s) → s.length < text.length) ∧
    ∀ hint, ∃ rounds, Asks c m hint rounds (c.isClassVar m hint) ∧
      (∀ rounds' answer, Asks c m hint rounds' answer →
        rounds' = rounds ∧ answer = c.isClassVar m hint) ∧
      ∀ text, hint = .str text → 2 * rounds ≤ text.length + 2 := by
  refine ⟨fun token s h => ?_, fun tokens s hne h => ?_, fun text s h => ?_, fun hint => ?_⟩
  · have hlength := length_decodeString? h
    have hbytes := utf8ByteSize_decodeString? h
    omega
  · have hpos := List.length_pos_of_ne_nil hne
    have hlength := length_decodeStrings? h
    have hbytes := utf8ByteSize_decodeStrings? h
    omega
  · have hlength := TypeHint.length_parse_str h
    omega
  · obtain ⟨rounds, hasks⟩ := c.exists_asks m hint
    refine ⟨rounds, hasks, fun rounds' answer h => h.unique hasks, ?_⟩
    rintro text rfl
    exact hasks.rounds_le

set_option maxRecDepth 100000 in
/-- An escape that names no character, two strings that are joined, and an annotation that is quoted twice. -/
theorem nested_quoting_ends_in_two_rounds :
    (decodeString? "'\\xZZ'" = some "ZZ" ∧ "ZZ".utf8ByteSize < "'\\xZZ'".utf8ByteSize) ∧
    (decodeStrings? ["'a'", "'b'"] = some "ab" ∧
      "ab".length < (["'a'", "'b'"].map String.length).sum) ∧
    (TypeHint.parse "'I'" = .ok (.str "I") ∧ "I".length < "'I'".length) ∧
    Asks Boxes.boxes Boxes.source (.str "'I'") 2 (Boxes.boxes.isClassVar Boxes.source (.str "'I'")) ∧
    2 * 2 ≤ "'I'".length + 2 := by
  have hescape : decodeString? "'\\xZZ'" = some "ZZ" := by cbv
  have hjoined : decodeStrings? ["'a'", "'b'"] = some "ab" := by cbv
  have hquoted : TypeHint.parse "'I'" = .ok (.str "I") := by cbv
  obtain ⟨htoken, htokens, htext, hrounds⟩ := nested_quoting_ends Boxes.boxes Boxes.source
  obtain ⟨rounds, hasks, hunique, hbound⟩ := hrounds (.str "'I'")
  have hname : ∀ text, TypeHint.name "I" ≠ .str text := by
    intro text h
    cases h
  have htwo : Asks Boxes.boxes Boxes.source (.str "'I'") 2 _ :=
    .text hquoted (.text Boxes.parse_item (.plain hname))
  obtain ⟨rfl, -⟩ := hunique _ _ htwo
  exact ⟨⟨hescape, (htoken _ _ hescape).2⟩,
    ⟨hjoined, (htokens _ _ (List.cons_ne_nil _ _) hjoined).1⟩,
    ⟨hquoted, htext _ _ hquoted⟩, hasks, hbound _ rfl⟩

end ClassifiedProgram

end Resolution
end WireTypes
