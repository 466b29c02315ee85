import Mathlib.Data.List.Nodup
import WireTypes.Proofs.Declarations.Items

/-!
# Removal — which declaration the output leaves out

The text of a list of items with distinct names. Three passes find what is removed: the line starts lead
to the declaration, the scan from there to its end, and a search backwards to its documentation block.

- `header?_of_mem_lineStarts`: the first pass finds the line of the item with that name, or of one whose
  name it goes on behind (`RunsOn`);
- `docStart?_block_getD`: the search backwards stops where the item starts;
- `finish_removes_aggregator`: the output has every other item, byte for byte.
-/

namespace WireTypes
namespace Declarations

/-- The text of a list of items. -/
def textOf (items : List Item) : List Char := items.flatMap Item.text

/-! ## Where the items stand -/

theorem textOf_cons (it : Item) (items : List Item) :
    textOf (it :: items) = it.text ++ textOf items :=
  List.flatMap_cons

theorem textOf_append (items others : List Item) :
    textOf (items ++ others) = textOf items ++ textOf others :=
  List.flatMap_append

/-- Where the line of a declaration starts in the text of a list. -/
def lineOf (items : List Item) (j : Nat) (h : j < items.length) : Nat :=
  (textOf (items.take j)).length + items[j].block.length

theorem textOf_split (items : List Item) (j : Nat) (h : j < items.length) :
    textOf items = textOf (items.take j) ++ (items[j].text ++ textOf (items.drop (j + 1))) := by
  rw [← textOf_cons, List.cons_getElem_drop_succ, ← textOf_append, List.take_append_drop]

theorem lineOf_mem_starts (items : List Item) (offset : Nat) {j : Nat} (h : j < items.length) :
    offset + lineOf items j h ∈ starts offset (textOf items) := by
  induction items generalizing offset j with
  | nil => cases h
  | cons it items ih =>
      obtain ⟨lines, own, -, scan⟩ := it.text_starts offset
      rw [textOf_cons, scan]
      cases j with
      | zero => exact List.mem_append_left _ (by simpa [lineOf, textOf] using own)
      | succ j =>
          have later := ih (offset + it.text.length) (Nat.lt_of_succ_lt_succ h)
          refine List.mem_append_right _ ?_
          convert later using 1
          simp [lineOf, textOf_cons]
          omega

/-- The line starts of a list of items are those of its declarations and others that do not export. -/
theorem starts_textOf (items : List Item) (offset : Nat) {start : Nat}
    (h : start ∈ starts offset (textOf items)) :
    (∃ j, ∃ h : j < items.length, start = offset + lineOf items j h) ∨
      ∃ ahead behind, textOf items = ahead ++ behind ∧ start = offset + ahead.length ∧
        ¬ exportWord <+: behind := by
  induction items generalizing offset with
  | nil =>
      obtain rfl : start = offset := by simpa [starts, textOf, visits] using h
      exact .inr ⟨[], [], rfl, rfl, by decide⟩
  | cons it items ih =>
      obtain ⟨lines, -, known, scan⟩ := it.text_starts offset
      rw [textOf_cons, scan] at h
      rcases List.mem_append.mp h with own | later
      · rcases known start own with rfl | ⟨ahead, behind, split, stands, silent⟩
        · exact .inl ⟨0, Nat.succ_pos _, by simp [lineOf, textOf]⟩
        · refine .inr ⟨ahead, behind ++ textOf items, ?_, stands, silent _⟩
          rw [textOf_cons, split, List.append_assoc]
      · rcases ih (offset + it.text.length) later with
          ⟨j, hj, rfl⟩ | ⟨ahead, behind, split, rfl, silent⟩
        · refine .inl ⟨j + 1, Nat.succ_lt_succ hj, ?_⟩
          simp [lineOf, textOf_cons]
          omega
        · refine .inr ⟨it.text ++ ahead, behind, ?_, ?_, silent⟩
          · rw [textOf_cons, split, List.append_assoc]
          · rw [List.length_append, Nat.add_assoc]

/-- What stands behind a declaration, from the end of its line on. -/
def textBehind (items : List Item) (j : Nat) (h : j < items.length) : List Char :=
  '\n' :: (items[j].gap ++ textOf (items.drop (j + 1)))

theorem drop_lineOf (items : List Item) (j : Nat) (h : j < items.length) :
    (textOf items).drop (lineOf items j h) = items[j].declaration ++ textBehind items j h := by
  have split : textOf items = (textOf (items.take j) ++ items[j].block)
      ++ (items[j].declaration ++ textBehind items j h) := by
    rw [textOf_split items j h, Item.text, textBehind]
    simp
  rw [split, lineOf, ← List.length_append, List.drop_left]

theorem lineOf_mem_lineStarts (items : List Item) (j : Nat) (h : j < items.length) :
    lineOf items j h ∈ lineStarts (textOf items) := by
  have inside : lineOf items j h < (textOf items).length := by
    by_contra beyond
    have nothing : (textOf items).drop (lineOf items j h) = [] :=
      List.drop_eq_nil_of_le (Nat.le_of_not_lt beyond)
    simp [drop_lineOf, textBehind] at nothing
  rw [lineStarts_eq, List.mem_filter]
  exact ⟨by simpa using lineOf_mem_starts items 0 h, by simpa using inside⟩

/-- The line of some declaration is read as that of the name too: the name goes on behind the one that
stands there, as the text does. Such a name has a blank. -/
def RunsOn (items : List Item) (name : String) : Prop :=
  ∃ j, ∃ h : j < items.length, items[j].RunsOn (textBehind items j h) name

theorem not_runsOn {items : List Item} {name : String} (blank : ' ' ∉ name.toList) :
    ¬ RunsOn items name := by
  rintro ⟨j, hj, runs⟩
  exact Identifier.not_runsOn blank runs

/-- Only the line of a declaration declares a name: that of the declaration, or one that runs on. -/
theorem header?_of_mem_lineStarts {items : List Item} {name : String} {start : Nat} {kind : Kind}
    (member : start ∈ lineStarts (textOf items))
    (read : header? name ((textOf items).drop start) = some kind) :
    ∃ j, ∃ h : j < items.length, start = lineOf items j h ∧ kind = items[j].kind ∧
      (items[j].name.text = name ∨ items[j].RunsOn (textBehind items j h) name) := by
  have begins : start ∈ starts 0 (textOf items) := (List.mem_filter.mp member).1
  rcases starts_textOf items 0 begins with ⟨j, hj, stands⟩ | ⟨ahead, rest, split, stands, silent⟩
  · obtain rfl : start = lineOf items j hj := by simpa using stands
    rw [drop_lineOf] at read
    exact ⟨j, hj, rfl, Item.header?_declaration_iff.mp read⟩
  · obtain rfl : start = ahead.length := by simpa using stands
    rw [split, List.drop_left, header?_eq_none silent] at read
    cases read

/-- The names of the items are distinct. -/
def Distinct (items : List Item) : Prop := (items.map (·.name.text)).Nodup

theorem Distinct.index_eq {items : List Item} (distinct : Distinct items) {i j : Nat}
    {hi : i < items.length} {hj : j < items.length}
    (same : items[i].name.text = items[j].name.text) : i = j := by
  have left : i < (items.map (·.name.text)).length := by simpa using hi
  have right : j < (items.map (·.name.text)).length := by simpa using hj
  have names : (items.map (·.name.text))[i] = (items.map (·.name.text))[j] := by simpa using same
  exact (List.Nodup.getElem_inj_iff distinct).mp names

theorem find?_textOf {items : List Item} (distinct : Distinct items) {i : Nat}
    (h : i < items.length) :
    find? items[i].name.text (textOf items) = some (lineOf items i h, items[i].kind) := by
  have noBlank : ' ' ∉ items[i].name.text.toList := Identifier.not_mem rfl
  have own : header? items[i].name.text ((textOf items).drop (lineOf items i h))
      = some items[i].kind := by
    rw [drop_lineOf]
    exact Item.header?_declaration_iff.mpr ⟨rfl, .inl rfl⟩
  cases found : find? items[i].name.text (textOf items) with
  | none =>
      have nothing := List.findSome?_eq_none_iff.mp found _ (lineOf_mem_lineStarts items i h)
      simp [own] at nothing
  | some place =>
      obtain ⟨start, member, line⟩ := List.exists_of_findSome?_eq_some found
      obtain ⟨kind, read, rfl⟩ := Option.map_eq_some_iff.mp line
      obtain ⟨j, hj, rfl, rfl, same | runs⟩ := header?_of_mem_lineStarts member read
      · obtain rfl : j = i := distinct.index_eq same
        rfl
      · exact absurd runs (Identifier.not_runsOn noBlank)

theorem find?_eq_none {items : List Item} {name : String}
    (absent : ∀ it ∈ items, it.name.text ≠ name) (ends : ¬ RunsOn items name) :
    find? name (textOf items) = none := by
  apply List.findSome?_eq_none_iff.mpr
  intro start member
  cases read : header? name ((textOf items).drop start) with
  | none => rfl
  | some kind =>
      obtain ⟨j, hj, -, -, same | runs⟩ := header?_of_mem_lineStarts member read
      · exact absurd same (absent _ (List.getElem_mem hj))
      · exact absurd ⟨j, hj, runs⟩ ends

/-! ## The documentation block -/

theorem lastIndexFrom?_eq_none {pattern text : List Char} {offset : Nat} (h : ¬ pattern <:+: text) :
    lastIndexFrom? pattern offset text = none := by
  induction text generalizing offset with
  | nil =>
      have nonempty : pattern ≠ [] := fun empty => h (by simp [empty])
      simp [lastIndexFrom?, nonempty]
  | cons c rest ih =>
      have ⟨first, later⟩ : ¬ pattern <+: c :: rest ∧ ¬ pattern <:+: rest := by
        simpa [List.infix_cons_iff] using h
      simp [lastIndexFrom?, ih later, first]

/-- The last place of a pattern, if the pattern stands there and nowhere behind. -/
theorem lastIndex?_append {pattern behind : List Char} {c : Char} (ahead : List Char)
    (here : pattern <+: c :: behind) (later : ¬ pattern <:+: behind) :
    lastIndex? pattern (ahead ++ c :: behind) = some ahead.length := by
  have stands (offset : Nat) :
      lastIndexFrom? pattern offset (ahead ++ c :: behind) = some (offset + ahead.length) := by
    induction ahead generalizing offset with
    | nil => simp [lastIndexFrom?, lastIndexFrom?_eq_none later, here]
    | cons a ahead ih =>
        simp [lastIndexFrom?, ih, Nat.add_assoc, Nat.add_comm 1]
  simpa [lastIndex?] using stands 0

/-- The text of a list ends with a line feed, behind a closing character or another line feed. -/
theorem textOf_ends (items : List Item) :
    textOf items = [] ∨ ∃ ahead c, textOf items = ahead ++ [c, '\n'] ∧ c ∈ ['}', ';', '\n'] := by
  rcases List.eq_nil_or_concat' items with rfl | ⟨before, it, rfl⟩
  · exact .inl rfl
  · refine .inr ?_
    have last : textOf (before ++ [it]) = textOf before ++ it.text := by simp [textOf]
    rw [last]
    cases spaced : it.spaced with
    | false =>
        refine ⟨textOf before ++ (it.block ++ (it.lead ++ it.body)), it.kind.closing, ?_, ?_⟩
        · simp [Item.text, Item.gap, Item.declaration, spaced]
        · cases it.kind <;> decide
    | true =>
        refine ⟨textOf before ++ (it.block ++ it.declaration), '\n', ?_, by decide⟩
        simp [Item.text, Item.gap, spaced]

theorem lineStart_textOf (items : List Item) :
    lineStart (textOf items) = (textOf items).length := by
  rcases textOf_ends items with empty | ⟨ahead, c, split, -⟩
  · rw [empty]
    rfl
  · have last : lastIndex? ['\n'] ((ahead ++ [c]) ++ '\n' :: []) = some (ahead ++ [c]).length :=
      lastIndex?_append (ahead ++ [c]) (by simp) (by simp)
    have regroup : textOf items = (ahead ++ [c]) ++ '\n' :: [] := by simp [split]
    rw [regroup, lineStart, last]
    simp

/-- Without a block of its own, a declaration has none: the item above does not end with a comment. -/
theorem docStart?_textOf (items : List Item) : docStart? (textOf items) = none := by
  rcases textOf_ends items with empty | ⟨ahead, c, split, closes⟩
  · rw [empty]
    rfl
  · have noBlock : endsBlock (ahead ++ [c]) = false := by
      have cases : c = '}' ∨ c = ';' ∨ c = '\n' := by simpa using closes
      rcases cases with rfl | rfl | rfl <;> simp [endsBlock, isLineBlank, List.isPrefixOf]
    have feed : (ahead ++ [c, '\n']).getLast? = some '\n' := by simp
    have above : (ahead ++ [c, '\n']).dropLast = ahead ++ [c] := by
      rw [List.dropLast_append_of_ne_nil (by simp)]
      rfl
    rw [split, docStart?, if_pos feed]
    simp only [above, noBlock]
    rfl

/-- With a block of its own, it starts where the item starts: the block opens one comment only. -/
theorem docStart?_block (items : List Item) (d : DocBlock) :
    docStart? (textOf items ++ d.text) = some (textOf items).length := by
  let head := textOf items ++ '/' :: '*' :: '*' :: d.inside
  have regroup : textOf items ++ d.text = (head ++ ['*', '/']) ++ ['\n'] := by
    simp [head, DocBlock.text]
  have feed : (textOf items ++ d.text).getLast? = some '\n' := by
    rw [regroup, List.getLast?_concat]
  have above : (textOf items ++ d.text).dropLast = head ++ ['*', '/'] := by
    rw [regroup, List.dropLast_concat]
  have ends : endsBlock (head ++ ['*', '/']) = true := by
    simp [endsBlock, isLineBlank]
  have close : lastIndex? ['*', '/'] (head ++ ['*', '/']) = some head.length :=
    lastIndex?_append head (List.prefix_refl _) (by decide)
  have single : ¬ ['/', '*'] <:+: '*' :: '*' :: d.inside := by
    intro found
    rcases List.infix_cons_iff.mp found with first | later
    · cases (List.cons_prefix_cons.mp first).1
    rcases List.infix_cons_iff.mp later with second | inside
    · cases (List.cons_prefix_cons.mp second).1
    · exact d.single inside
  have opening : lastIndex? ['/', '*'] head = some (textOf items).length :=
    lastIndex?_append (textOf items) ⟨'*' :: d.inside, rfl⟩ single
  have before : (head ++ ['*', '/']).take (textOf items).length = textOf items := by
    simp [head]
  have block : (head ++ ['*', '/']).drop (textOf items).length
      = '/' :: '*' :: '*' :: (d.inside ++ ['*', '/']) := by
    simp [head]
  rw [docStart?, if_pos feed]
  simp only [above, ends, close, List.take_left, opening, before, block, lineStart_textOf]
  simp

theorem docStart?_block_getD (items : List Item) (it : Item) :
    (docStart? (textOf items ++ it.block)).getD (textOf items ++ it.block).length
      = (textOf items).length := by
  cases doc : it.doc with
  | none =>
      have empty : it.block = [] := by simp [Item.block, doc]
      rw [empty, List.append_nil, docStart?_textOf]
      rfl
  | some d =>
      have full : it.block = d.text := by simp [Item.block, doc]
      rw [full, docStart?_block]
      rfl

/-! ## The removal of an item -/

theorem head?_textOf_ne_feed (items : List Item) : (textOf items).head? ≠ some '\n' := by
  cases items with
  | nil => simp [textOf]
  | cons it items =>
      have start : it.declaration.head? = some 'e' := by
        have keyword : it.kind.keyword.head? = some 'e' := by cases it.kind <;> rfl
        simp [Item.declaration, Item.lead, keyword]
      cases doc : it.doc with
      | none => simp [textOf_cons, Item.text, Item.block, doc, start]
      | some d => simp [textOf_cons, Item.text, Item.block, doc, DocBlock.text]

/-- A declaration ends with its line and the blank line behind it. -/
theorem declarationEnd_eq {text rest : List Char} {start : Nat} {it : Item}
    (stands : text.drop start = it.declaration ++ '\n' :: (it.gap ++ rest))
    (noFeed : rest.head? ≠ some '\n') :
    declarationEnd it.kind text start
      = start + (it.declaration ++ '\n' :: it.gap).length := by
  have stop : start + declarationLength it.kind (text.drop start)
      = start + it.declaration.length := by
    rw [stands, it.declarationLength_append]
  have line : text.drop (start + it.declaration.length) = '\n' :: (it.gap ++ rest) := by
    rw [← List.drop_drop, stands, List.drop_left]
  have feed : restOfLine ('\n' :: (it.gap ++ rest)) = 1 := by
    simp [restOfLine]
  have next : text.drop (start + it.declaration.length + 1) = it.gap ++ rest := by
    rw [← List.drop_drop, line]
    rfl
  simp only [declarationEnd, stop, line, feed, next]
  cases spaced : it.spaced with
  | false => simp [Item.gap, spaced, noFeed, Nat.add_assoc]
  | true => simp [Item.gap, spaced, Nat.add_assoc]

theorem remove?_textOf {items : List Item} (distinct : Distinct items) {i : Nat}
    (h : i < items.length) :
    remove? items[i].name.text (textOf items) = some (textOf (items.eraseIdx i)) := by
  let before := items.take i
  let after := items.drop (i + 1)
  let it := items[i]
  have split : textOf items = textOf before ++ (it.text ++ textOf after) := textOf_split items i h
  have line : lineOf items i h = (textOf before ++ it.block).length := by
    rw [List.length_append]
    rfl
  have above : (textOf items).take (lineOf items i h) = textOf before ++ it.block := by
    have regroup : textOf items = (textOf before ++ it.block)
        ++ (it.declaration ++ '\n' :: (it.gap ++ textOf after)) := by
      rw [split, Item.text]
      simp
    rw [regroup, line, List.take_left]
  have stop : declarationEnd it.kind (textOf items) (lineOf items i h)
      = (textOf before ++ it.text).length := by
    have ends : declarationEnd it.kind (textOf items) (lineOf items i h)
        = lineOf items i h + (it.declaration ++ '\n' :: it.gap).length :=
      declarationEnd_eq (drop_lineOf items i h) (head?_textOf_ne_feed _)
    rw [ends, line, Item.text]
    simp only [List.length_append]
    omega
  have start : (docStart? ((textOf items).take (lineOf items i h))).getD (lineOf items i h)
      = (textOf before).length := by
    rw [above, line]
    exact docStart?_block_getD before it
  have left : (textOf items).take (textOf before).length = textOf before := by
    rw [split, List.take_left]
  have right : (textOf items).drop (textOf before ++ it.text).length = textOf after := by
    rw [split, ← List.append_assoc, List.drop_left]
  calc remove? items[i].name.text (textOf items)
      = some ((textOf items).take (textOf before).length
          ++ (textOf items).drop (textOf before ++ it.text).length) := by
        simp only [remove?, find?_textOf distinct h]
        rw [start, stop]
    _ = some (textOf before ++ textOf after) := by rw [left, right]
    _ = some (textOf (items.eraseIdx i)) := by
        rw [← textOf_append, List.eraseIdx_eq_take_drop_succ]

theorem remove?_eq_none {items : List Item} {name : String}
    (absent : ∀ it ∈ items, it.name.text ≠ name) (ends : ¬ RunsOn items name) :
    remove? name (textOf items) = none := by
  rw [remove?, find?_eq_none absent ends]

/-- Of a list of items with distinct names, the output has all but the one that declares the
aggregator, byte for byte, under either inclusion. Where none declares it, a root that had to be there
is missing, and one that could stay away changes nothing. The line of an item declares the item's name
only, up to names that run on behind it: an aggregator with no blank in its name is none of these. -/
theorem finish_removes_aggregator (items : List Item) (distinct : Distinct items) :
    (∀ (i : Nat) (h : i < items.length) (inclusion : Schema.Inclusion),
      (finish (String.ofList (textOf items)) items[i].name.text inclusion).map Output.text
        = .ok (banner ++ String.ofList (textOf (items.eraseIdx i)))) ∧
    ∀ aggregator : String, (∀ it ∈ items, it.name.text ≠ aggregator) → ¬ RunsOn items aggregator →
      finish (String.ofList (textOf items)) aggregator .aggregator = .error ⟨aggregator⟩ ∧
      (finish (String.ofList (textOf items)) aggregator .unreachable).map Output.text
        = .ok (banner ++ String.ofList (textOf items)) := by
  refine ⟨fun i h inclusion => ?_, fun aggregator absent ends => ?_⟩
  · rw [finish, String.toList_ofList, remove?_textOf distinct h]
    rfl
  · rw [finish, finish, String.toList_ofList, remove?_eq_none absent ends]
    exact ⟨rfl, rfl⟩

namespace Sample

def longer : Item where
  doc := none
  kind := .interface
  name := ⟨"Root_2", by decide, by decide⟩
  body := " a: ".toList ++ '"' :: (['}', '"'] ++ [';', ' '])
  closed :=
    .neutral _ (by decide) (fun _ _ _ => trivial)
      (.string rfl (.char (by decide) (by decide) .close)
        (.neutral [';', ' '] (by decide) (fun _ _ _ => trivial) .nil))
  spaced := false

def root : Item where
  doc := some ⟨[' ', '{'],
    .char (by decide) (.char (by decide) (.char (by decide) .close)), by decide⟩
  kind := .interface
  name := ⟨"Root", by decide, by decide⟩
  body := []
  closed := .nil
  spaced := true

def shape : Item where
  doc := none
  kind := .alias
  name := ⟨"Shape", by decide, by decide⟩
  body := '{' :: (" a: Root; ".toList ++ '}' :: [])
  closed :=
    .brackets rfl rfl
      (.neutral " a: Root; ".toList (by decide) (fun _ _ _ => trivial) .nil) .nil
  spaced := false

def items : List Item := [longer, root, shape]

def plain : Item where
  doc := none
  kind := .interface
  name := ⟨"A", by decide, by decide⟩
  body := " a: string; ".toList ++ []
  closed := .neutral " a: string; ".toList (by decide) (fun _ _ _ => trivial) .nil
  spaced := false

end Sample

theorem sample_without_root :
    Distinct Sample.items ∧
    textOf Sample.items = ("export interface Root_2 \x7b a: \"\x7d\"; \x7d\n/** \x7b*/\n"
      ++ "export interface Root \x7b\x7d\n\nexport type Shape = \x7b a: Root; \x7d;\n").toList ∧
    (finish (String.ofList (textOf Sample.items)) "Root" .aggregator).map Output.text
      = .ok (banner ++ String.ofList (textOf [Sample.longer, Sample.shape])) ∧
    finish (String.ofList (textOf Sample.items)) "Roo" .aggregator = .error ⟨"Roo"⟩ := by
  have distinct : Distinct Sample.items := by
    unfold Distinct
    decide
  have removes := finish_removes_aggregator Sample.items distinct
  refine ⟨distinct, by decide, ?_, ?_⟩
  · exact removes.1 1 (by decide) .aggregator
  · exact (removes.2 "Roo" (by decide) (not_runsOn (by decide))).1

/-- A name that runs on behind that of an item removes the item, though none has that name. -/
theorem longer_name_removes :
    Distinct [Sample.plain] ∧
    textOf [Sample.plain] = "export interface A \x7b a: string; \x7d\n".toList ∧
    (∀ it ∈ [Sample.plain], it.name.text ≠ "A \x7b") ∧
    finish (String.ofList (textOf [Sample.plain])) "A \x7b" .aggregator = .ok Output.empty := by
  refine ⟨?_, by decide, by decide, ?_⟩
  · unfold Distinct
    decide
  · have removed : remove? "A \x7b" (textOf [Sample.plain]) = some [] := by decide
    rw [finish, String.toList_ofList, removed]
    rfl

end Declarations
end WireTypes
