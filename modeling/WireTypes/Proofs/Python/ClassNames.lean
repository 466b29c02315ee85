import WireTypes.Python.Module

/-!
# Class names — what stands after `class` is an identifier

Words carry the proof that they are identifiers. So do the names of the classes that a module declares,
in whatever conditionals and attempts they stand.

- `Text.isName_ordinary`: identifiers have neither points nor brackets;
- `Python.Module.classes_of_read`: what holds of all classes of a source holds of those of its module;
- `Python.Module.named_of_read`: the classes of a module that was read are named by identifiers.
-/

namespace WireTypes

namespace Text

/-- A character that starts or goes on with an identifier is no point and no bracket. -/
theorem ne_of_isNameRest {c : Char} (h : isNameRest c = true) : c ≠ '.' ∧ c ≠ '[' := by
  have hpoint : isNameRest '.' = false := by decide
  have hbracket : isNameRest '[' = false := by decide
  refine ⟨?_, ?_⟩
  · rintro rfl
    rw [hpoint] at h
    cases h
  · rintro rfl
    rw [hbracket] at h
    cases h

theorem isNameRest_of_isName {text : String} (h : isName text = true) :
    ∀ c ∈ text.toList, isNameRest c = true := by
  unfold isName at h
  cases hchars : text.toList with
  | nil => exact fun _ hc => absurd hc List.not_mem_nil
  | cons first rest =>
      rw [hchars] at h
      simp only [Bool.and_eq_true, List.all_eq_true] at h
      intro c hc
      rcases List.mem_cons.1 hc with rfl | hc
      · simp [isNameRest, h.1]
      · exact h.2 c hc

theorem isName_ordinary {text : String} (h : isName text = true) :
    '.' ∉ text.toList ∧ '[' ∉ text.toList :=
  ⟨fun hc => (ne_of_isNameRest (isNameRest_of_isName h _ hc)).1 rfl,
    fun hc => (ne_of_isNameRest (isNameRest_of_isName h _ hc)).2 rfl⟩

end Text

namespace Python

/-! ## Classes of a module -/

section

variable {P : ClassDecl → Prop}

theorem forall_classes_append {a b : Module} (ha : ∀ d ∈ a.classes, P d) (hb : ∀ d ∈ b.classes, P d) :
    ∀ d ∈ (a.append b).classes, P d := by
  intro d hd
  rcases List.mem_append.1 hd with hd | hd
  · exact ha d hd
  · exact hb d hd

mutual

theorem ofStatement_classes (h : ∀ s d, classOf? s = some d → P d) (s : Statement) :
    ∀ d ∈ (ofStatement s).classes, P d := by
  cases s with
  | classDef name bases keywords body =>
      simp only [ofStatement]
      exact fun d hd => h _ d (Option.mem_toList.1 hd)
  | decorated decorators definition =>
      simp only [ofStatement]
      exact fun d hd => h _ d (Option.mem_toList.1 hd)
  | branches bodies =>
      simp only [ofStatement]
      exact ofBodies_classes h bodies
  | _ =>
      simp only [ofStatement]
      exact fun d hd => absurd hd List.not_mem_nil

theorem ofStatements_classes (h : ∀ s d, classOf? s = some d → P d) (statements : List Statement) :
    ∀ d ∈ (ofStatements statements).classes, P d := by
  cases statements with
  | nil => exact fun d hd => absurd hd List.not_mem_nil
  | cons s rest =>
      simp only [ofStatements]
      exact forall_classes_append (ofStatement_classes h s) (ofStatements_classes h rest)

theorem ofBodies_classes (h : ∀ s d, classOf? s = some d → P d) (bodies : List (List Statement)) :
    ∀ d ∈ (ofBodies bodies).classes, P d := by
  cases bodies with
  | nil => exact fun d hd => absurd hd List.not_mem_nil
  | cons body rest =>
      simp only [ofBodies]
      exact forall_classes_append (ofStatements_classes h body) (ofBodies_classes h rest)

end

/-- What holds of every class that a statement declares holds of the classes of a module. -/
theorem Module.classes_of_read (h : ∀ s d, classOf? s = some d → P d) {source : String}
    {content : Module} (hread : Module.read source = .ok content) : ∀ d ∈ content.classes, P d := by
  unfold Module.read at hread
  split at hread
  · cases hread
    exact ofStatements_classes h _
  · cases hread

end

/-- The classes of a module are named by identifiers. -/
def Module.Named (m : Module) : Prop := ∀ d ∈ m.classes, Text.isName d.name = true

theorem Module.Named.empty : Module.empty.Named := fun _ hd => absurd hd List.not_mem_nil

theorem isName_of_classOf? (s : Statement) (d : ClassDecl) (h : classOf? s = some d) :
    Text.isName d.name = true := by
  cases s with
  | classDef name bases keywords body =>
      cases h
      exact name.isName
  | _ => cases h

theorem Module.named_of_read {source : String} {content : Module}
    (h : Module.read source = .ok content) : content.Named :=
  Module.classes_of_read isName_of_classOf? h

end Python
end WireTypes
