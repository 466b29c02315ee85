import WireTypes.Proofs.Python.ClassNames
import WireTypes.Proofs.Resolution.Scope
import WireTypes.Proofs.Resolution.WholeNumbers

/-!
# Integer range — the arithmetic on the numbers of a source

Whole numbers have 64 bits with a sign. The readers negate them, and the members of an enumeration are
numbered by adding one to the last number. The same is done here with numbers of any size, and the two are
compared.

- `IsRead.exact`: a number that is read is the one that is written, and may be negated;
- `Members.run?`, `Members.runFreely`: the members one after the other, in either arithmetic;
- `Members.PassesGreatest`: an automatic member stands behind the greatest number;
- `Members.run?_eq_runFreely`: as far as the resolver comes, it numbers as unbounded arithmetic does;
- `Members.sumsFit_iff`, `Members.isSome_run?_iff`: it comes to the end exactly if no member stands there;
- `Program.arithmetic_exact_iff`: every sum has 64 bits, and every value is that of unbounded arithmetic,
  exactly then.
-/

namespace WireTypes
namespace Python

open Resolution

/-! ## Negation -/

/-- A reader takes the term as a whole number. -/
def IsRead (t : Term) (n : Int) : Prop :=
  Expr.ofTerm t = .literal (.ofInt n) ∨ TypeHint.ofTerm t = .int n

/-- What is read is what is written, and it may be negated: no literal is the least number, and no
negation makes it. -/
theorem IsRead.exact {t : Term} {n : Int} (h : IsRead t n) :
    t.whole? = some n ∧ fitsSigned n ∧ fitsSigned (-n) := by
  obtain ⟨written, fits⟩ : t.whole? = some n ∧ Readable n := by
    rcases h with value | type
    · exact Expr.ofTerm_eq_int_iff.mp value
    · exact ⟨(TypeHint.ofTerm_eq_int_iff.mp type).1, (TypeHint.ofTerm_eq_int_iff.mp type).2.1⟩
  exact ⟨written, fitsSigned_of_readable fits, fitsSigned_of_readable (Readable.neg.mpr fits)⟩

end Python

namespace Resolution

open Discovery Python

namespace ClassifiedProgram.Members

/-! ## Members in either arithmetic -/

/-- The members of a class, one after the other, as the resolver takes them in. -/
def run? (byName : Bool) (members : List (String × Expr)) : Option Members :=
  members.foldlM (step byName) ⟨[], 0⟩

/-- A member, where whole numbers have no bounds. -/
def stepFreely (byName : Bool) (s : Members) (member : String × Expr) : Members :=
  if member.1.startsWith "_" then s
  else if isAutomatic member.2 then
    s.add (if byName then .str (Text.lower member.1) else .ofInt (s.lastInt + 1))
  else
    match constant? member.2 with
    | some value => s.add value
    | none => s

/-- The members of a class, where whole numbers have no bounds. -/
def runFreely (byName : Bool) (members : List (String × Expr)) : Members :=
  members.foldl (stepFreely byName) ⟨[], 0⟩

/-- A member takes the number after the one before it. -/
def IsNumbered (byName : Bool) (member : String × Expr) : Prop :=
  byName = false ∧ isMember member.1 ∧ isAutomatic member.2

/-- Every sum that the resolver comes to is a number of 64 bits. -/
def SumsFit (byName : Bool) (members : List (String × Expr)) : Prop :=
  ∀ before member s, before ++ [member] <+: members → IsNumbered byName member →
    run? byName before = some s → fitsSigned (s.lastInt + 1)

/-- A member takes the number after the greatest one of 64 bits, where numbers have no bounds. -/
def PassesGreatest (byName : Bool) (members : List (String × Expr)) : Prop :=
  ∃ before member, before ++ [member] <+: members ∧ IsNumbered byName member ∧
    (runFreely byName before).lastInt = 2 ^ 63 - 1

variable {byName : Bool} {s : Members} {member : String × Expr} {members : List (String × Expr)} {n : Int}

theorem run?_append (byName : Bool) (before : List (String × Expr)) (member : String × Expr) :
    run? byName (before ++ [member]) = (run? byName before).bind (step byName · member) := by
  simp [run?, List.foldlM_append]

theorem runFreely_append (byName : Bool) (before : List (String × Expr)) (member : String × Expr) :
    runFreely byName (before ++ [member]) = stepFreely byName (runFreely byName before) member := by
  simp [runFreely]

theorem step_of_isNumbered (h : IsNumbered byName member) :
    step byName s member = (following? s.lastInt).map fun n => s.add (.ofInt n) := by
  obtain ⟨rfl, shown, automatic⟩ := h
  have shown : member.1.startsWith "_" = false := by simpa [isMember] using shown
  simp [step, shown, automatic, automatic?, Function.comp_def]

theorem stepFreely_of_isNumbered (h : IsNumbered byName member) :
    stepFreely byName s member = s.add (.ofInt (s.lastInt + 1)) := by
  obtain ⟨rfl, shown, automatic⟩ := h
  have shown : member.1.startsWith "_" = false := by simpa [isMember] using shown
  simp [stepFreely, shown, automatic]

/-- The arithmetic matters to no other member. -/
theorem step_of_not_isNumbered (h : ¬ IsNumbered byName member) :
    step byName s member = some (stepFreely byName s member) := by
  unfold step stepFreely
  split
  · rfl
  · rename_i shown
    split
    · rename_i automatic
      have named : byName = true := by
        by_contra counted
        exact h ⟨by simpa using counted, by simpa [isMember] using shown, automatic⟩
      rw [named]
      rfl
    · cases constant? member.2 <;> rfl

/-! ## The range of the resolver -/

theorem following?_eq_some_iff {m : Int} :
    following? n = some m ↔ fitsSigned (n + 1) ∧ m = n + 1 := by
  rw [following?, Option.ite_none_right_eq_some, Option.some.injEq, eq_comm (a := m)]

/-- All numbers have 64 bits. -/
structure InRange (s : Members) : Prop where
  last : fitsSigned s.lastInt
  values : ∀ n, Json.ofInt n ∈ s.values → fitsSigned n

theorem InRange.add (range : InRange s) {value : Json} (h : ∀ n, value = .ofInt n → fitsSigned n) :
    InRange (s.add value) := by
  constructor
  case last =>
    unfold Members.add
    dsimp only
    split
    · exact h _ rfl
    · exact range.last
  case values =>
    intro n mem
    unfold Members.add at mem
    dsimp only at mem
    split at mem
    · exact range.values n mem
    · rcases List.mem_append.mp mem with old | new
      · exact range.values n old
      · exact h n (List.mem_singleton.mp new).symm

/-- The constants of the members have 64 bits. -/
def ConstantsFit (members : List (String × Expr)) : Prop :=
  ∀ member ∈ members, ∀ n, constant? member.2 = some (.ofInt n) → fitsSigned n

/-- What the resolver goes on with has 64 bits. -/
theorem InRange.step (range : InRange s)
    (h : ∀ n, constant? member.2 = some (.ofInt n) → fitsSigned n) {after : Members}
    (taken : step byName s member = some after) : InRange after := by
  unfold Members.step at taken
  split at taken
  · exact Option.some.inj taken ▸ range
  · split at taken
    · obtain ⟨value, automatic, rfl⟩ := Option.map_eq_some_iff.mp taken
      refine range.add fun n isInt => ?_
      cases byName with
      | true =>
          cases automatic
          cases isInt
      | false =>
          obtain ⟨k, next, rfl⟩ := Option.map_eq_some_iff.mp automatic
          obtain ⟨fits, rfl⟩ := following?_eq_some_iff.mp next
          have same : s.lastInt + 1 = n := by simpa [Json.ofInt] using isInt
          exact same ▸ fits
    · cases read : constant? member.2 with
      | none =>
          rw [read] at taken
          exact Option.some.inj taken ▸ range
      | some value =>
          rw [read] at taken
          exact Option.some.inj taken ▸ range.add fun n isInt => h n (by rw [read, isInt])

theorem inRange_run? (h : ConstantsFit members) (taken : run? byName members = some s) : InRange s := by
  induction members using List.reverseRecOn generalizing s with
  | nil =>
      cases taken
      exact ⟨fitsSigned_iff.mpr (by simp), by simp⟩
  | append_singleton before member ih =>
      rw [run?_append] at taken
      obtain ⟨front, earlier, last⟩ := Option.bind_eq_some_iff.mp taken
      have constants : ConstantsFit before := fun m mem => h m (List.mem_append_left _ mem)
      exact (ih constants earlier).step
        (h member (List.mem_append_right _ (List.mem_singleton_self _))) last

/-! ## The two runs -/

/-- As far as the resolver comes, it numbers as unbounded arithmetic does. -/
theorem run?_eq_runFreely (taken : run? byName members = some s) : s = runFreely byName members := by
  induction members using List.reverseRecOn generalizing s with
  | nil => exact (Option.some.inj taken).symm
  | append_singleton before member ih =>
      rw [run?_append] at taken
      obtain ⟨front, earlier, last⟩ := Option.bind_eq_some_iff.mp taken
      obtain rfl := ih earlier
      rw [runFreely_append]
      by_cases numbered : IsNumbered byName member
      · rw [step_of_isNumbered numbered] at last
        obtain ⟨n, next, rfl⟩ := Option.map_eq_some_iff.mp last
        rw [stepFreely_of_isNumbered numbered, (following?_eq_some_iff.mp next).2]
      · rw [step_of_not_isNumbered numbered] at last
        exact (Option.some.inj last).symm

/-- Where the resolver stops, it does not come to any member behind. -/
theorem run?_none_of_start {before : List (String × Expr)} (start : before <+: members)
    (stops : run? byName before = none) : run? byName members = none := by
  obtain ⟨after, rfl⟩ := start
  rw [run?, List.foldlM_append, ← run?, stops]
  rfl

/-- The resolver stops at a sum that does not fit, and nowhere else. -/
theorem exists_of_run?_none (stops : run? byName members = none) :
    ∃ before member s, before ++ [member] <+: members ∧ IsNumbered byName member ∧
      run? byName before = some s ∧ ¬ fitsSigned (s.lastInt + 1) := by
  induction members using List.reverseRecOn with
  | nil => cases stops
  | append_singleton before member ih =>
      have whole : before <+: before ++ [member] := List.prefix_append _ _
      cases front : run? byName before with
      | none =>
          obtain ⟨first, last, s, within, rest⟩ := ih front
          exact ⟨first, last, s, within.trans whole, rest⟩
      | some s =>
          rw [run?_append, front, Option.bind_some] at stops
          by_cases numbered : IsNumbered byName member
          · refine ⟨before, member, s, List.prefix_refl _, numbered, front, fun fits => ?_⟩
            rw [step_of_isNumbered numbered, following?_eq_some_iff.mpr ⟨fits, rfl⟩] at stops
            cases stops
          · rw [step_of_not_isNumbered numbered] at stops
            cases stops

/-- Behind the greatest number there is no next one. -/
theorem run?_of_passesGreatest (h : PassesGreatest byName members) : run? byName members = none := by
  obtain ⟨before, member, within, numbered, last⟩ := h
  refine run?_none_of_start within ?_
  rw [run?_append]
  cases front : run? byName before with
  | none => rfl
  | some s =>
      obtain rfl := run?_eq_runFreely front
      have beyond : ¬ fitsSigned ((runFreely byName before).lastInt + 1) := by
        rw [last, fitsSigned_iff]
        omega
      rw [Option.bind_some, step_of_isNumbered numbered, following?, if_neg beyond]
      rfl

theorem sumsFit_of_not_passesGreatest (constants : ConstantsFit members)
    (h : ¬ PassesGreatest byName members) : SumsFit byName members := by
  intro before member s within numbered front
  have start : before <+: members := (List.prefix_append _ _).trans within
  have range := fitsSigned_iff.mp
    (inRange_run? (fun m mem => constants m (start.subset mem)) front).last
  have other : s.lastInt ≠ 2 ^ 63 - 1 := fun greatest =>
    h ⟨before, member, within, numbered, run?_eq_runFreely front ▸ greatest⟩
  rw [fitsSigned_iff]
  omega

/-- The resolver takes in all members exactly if its sums fit. -/
theorem isSome_run?_iff : (run? byName members).isSome ↔ SumsFit byName members := by
  constructor
  · intro all before member s within numbered front
    by_contra beyond
    have stops : run? byName (before ++ [member]) = none := by
      rw [run?_append, front, Option.bind_some, step_of_isNumbered numbered, following?, if_neg beyond]
      rfl
    simp [run?_none_of_start within stops] at all
  · intro fits
    by_contra stops
    obtain ⟨before, member, s, within, numbered, front, beyond⟩ :=
      exists_of_run?_none (Option.not_isSome_iff_eq_none.mp stops)
    exact beyond (fits before member s within numbered front)

/-- The sums fit exactly if no member stands behind the greatest number. -/
theorem sumsFit_iff (constants : ConstantsFit members) :
    SumsFit byName members ↔ ¬ PassesGreatest byName members := by
  constructor
  · intro fits passes
    have all := isSome_run?_iff.mpr fits
    simp [run?_of_passesGreatest passes] at all
  · exact sumsFit_of_not_passesGreatest constants

/-- The values of the resolver are those of unbounded arithmetic, if it has any. -/
theorem enumValues?_eq_some_iff (constants : ConstantsFit members) :
    enumValues? byName members = some (runFreely byName members).values ↔
      ¬ PassesGreatest byName members := by
  have values : enumValues? byName members = (run? byName members).map Members.values := rfl
  rw [values]
  constructor
  · intro all passes
    simp [run?_of_passesGreatest passes] at all
  · intro below
    obtain ⟨s, taken⟩ := Option.isSome_iff_exists.mp
      (isSome_run?_iff.mpr ((sumsFit_iff constants).mpr below))
    rw [taken, run?_eq_runFreely taken]
    rfl

theorem isSome_enumValues?_iff (constants : ConstantsFit members) :
    (enumValues? byName members).isSome ↔ ¬ PassesGreatest byName members := by
  rw [← sumsFit_iff constants, ← isSome_run?_iff, enumValues?, Option.isSome_map]
  rfl

end ClassifiedProgram.Members

/-! ## Enumerations of a source -/

section

open ClassifiedProgram.Members

variable {p : Program} {id : DefinitionId} {m : SourceModule} {d : ClassDecl}

theorem eq_int_of_constant? {e : Expr} {n : Int} (h : constant? e = some (.ofInt n)) :
    e = .literal (.ofInt n) := by
  unfold constant? at h
  split at h
  · cases h
  · rename_i number constant
    obtain rfl : number = .int n := by simpa [Json.ofInt] using h
    cases e with
    | literal value =>
        rw [Expr.toJson?] at constant
        exact congrArg Expr.literal (Option.some.inj constant)
    | _ => simp [Expr.toJson?] at constant
  · cases h

theorem constantsFit_of_classOf? (s : Statement) (d : ClassDecl) (h : classOf? s = some d) :
    ConstantsFit d.assignments := by
  cases s with
  | classDef name bases keywords body =>
      cases h
      intro member mem n constant
      obtain ⟨s, _, assigned⟩ := List.mem_filterMap.mp mem
      unfold plainAssignment? at assigned
      split at assigned
      · cases assigned
        exact fitsSigned_of_readable
          (Expr.ofTerm_eq_int_iff.mp (eq_int_of_constant? constant)).2
      · cases assigned
  | _ => cases h

/-- In every source, a number that is read is the one that is written, it has 64 bits, and so has its
negative. The sums for the automatic members of an enumeration have 64 bits as well, and its values are
those of unbounded arithmetic, exactly if no automatic member stands behind the greatest number. Otherwise
it has no values, and a program that finds it stops. -/
theorem Program.arithmetic_exact_iff {source : String} (hread : Module.read source = .ok m.content)
    (hdecl : p.classDecl? id = some (m, d)) (isEnum : (p.classified.kind id).isEnum) :
    (∀ operand n, IsRead operand n → operand.whole? = some n ∧ fitsSigned n ∧ fitsSigned (-n)) ∧
    ∃ e, p.classified.enumeration? id = some e ∧
      (SumsFit (p.classified.kind id = .strEnum) d.assignments ↔
        ¬ PassesGreatest (p.classified.kind id = .strEnum) d.assignments) ∧
      (p.classified.valuesOf? id d
          = some (runFreely (p.classified.kind id = .strEnum) d.assignments).values ↔
        ¬ PassesGreatest (p.classified.kind id = .strEnum) d.assignments) ∧
      (p.classified.isCounted id ↔ ¬ PassesGreatest (p.classified.kind id = .strEnum) d.assignments) ∧
      (p.classified.isCounted id →
        e.values = (runFreely (p.classified.kind id = .strEnum) d.assignments).values) ∧
      (¬ p.classified.isCounted id → id ∈ p.classified.catalog.enums.map Enumeration.id →
        p.classified.located? = none) := by
  have constants : ConstantsFit d.assignments :=
    Module.classes_of_read constantsFit_of_classOf? hread d
      (ClassifiedProgram.classDecl?_spec hdecl).2.2.1
  have decl : p.classified.modules.classDecl? id = some (m, d) := hdecl
  have counted : p.classified.isCounted id ↔
      ¬ PassesGreatest (p.classified.kind id = .strEnum) d.assignments := by
    simp only [ClassifiedProgram.isCounted, decl]
    exact isSome_enumValues?_iff constants
  have exact_iff : p.classified.valuesOf? id d
      = some (runFreely (p.classified.kind id = .strEnum) d.assignments).values ↔
        ¬ PassesGreatest (p.classified.kind id = .strEnum) d.assignments :=
    enumValues?_eq_some_iff constants
  obtain ⟨e, found, values⟩ := enumeration?_of_decl isEnum hdecl
  refine ⟨fun operand n read => read.exact, e, found, sumsFit_iff constants, exact_iff, counted, ?_,
    fun stops member => ClassifiedProgram.located?_eq_none member stops⟩
  intro fits
  rw [values, exact_iff.mpr (counted.mp fits), Option.getD_some]

end

/-! ## The number after the greatest one -/

namespace Sample

/-- An enumeration with these members. -/
def enumOf (assignments : List (String × Expr)) : ClassDecl :=
  { declare "P" ["E"] [] with assignments }

def enumContent (assignments : List (String × Expr)) : Python.Module where
  imports := [.names 0 (some "enum") [⟨"Enum", some "E"⟩] false]
  classes := [enumOf assignments]
  aliases := []

def enumModule (assignments : List (String × Expr)) : SourceModule where
  key := ["m.py"]
  dotted := "m"
  packageDirectory := none
  content := enumContent assignments
  bindings := [("P", .classDef), ("E", .external "enum.Enum")]
  stars := []
  inScope := true

def one : List (String × Expr) := [("A", .call "auto" [] [])]

def greatest : List (String × Expr) :=
  [("A", .literal (.ofInt 9223372036854775807)), ("B", .call "auto" [] [])]

-- Reading the text of a module is a deep recursion over its characters.
set_option maxRecDepth 100000 in
theorem read_one : Module.read "from enum import Enum as E\nclass P(E): A = auto()\n"
    = .ok (enumContent one) := by cbv

section

variable (assignments : List (String × Expr))

theorem classDecl?_enumModule : Program.classDecl? [enumModule assignments] flags
    = some (enumModule assignments, enumOf assignments) := rfl

theorem kind_enumModule : (Program.classified [enumModule assignments]).kind flags = .enum := by
  have classified : Program.classified [enumModule assignments]
      = ⟨[enumModule assignments], [(flags, .enum)]⟩ := by cbv
  rw [classified]
  rfl

theorem isEnum_enumModule : ((Program.classified [enumModule assignments]).kind flags).isEnum := by
  rw [kind_enumModule]
  rfl

theorem not_strEnum_enumModule :
    decide ((Program.classified [enumModule assignments]).kind flags = .strEnum) = false := by
  rw [kind_enumModule]
  rfl

end

theorem isMember_b : isMember "B" := by cbv

theorem isNumbered_auto {name : String} (h : isMember name) :
    ClassifiedProgram.Members.IsNumbered false (name, .call "auto" [] []) := by
  have automatic : ClassifiedProgram.Members.isAutomatic (.call "auto" [] []) := by
    simp [ClassifiedProgram.Members.isAutomatic, lastSegmentOf_auto]
  exact ⟨rfl, h, automatic⟩

theorem runFreely_first :
    ClassifiedProgram.Members.runFreely false [("A", .literal (.ofInt 9223372036854775807))]
      = (⟨[], 0⟩ : ClassifiedProgram.Members).add (.ofInt 9223372036854775807) := by
  have shown : "A".startsWith "_" = false := by simp
  simp [ClassifiedProgram.Members.runFreely, ClassifiedProgram.Members.stepFreely, shown,
    ClassifiedProgram.Members.isAutomatic, ClassifiedProgram.Members.constant?, Expr.toJson?, Json.ofInt]

theorem passesGreatest_greatest : ClassifiedProgram.Members.PassesGreatest false greatest :=
  ⟨[("A", .literal (.ofInt 9223372036854775807))], ("B", .call "auto" [] []), List.prefix_refl _,
    isNumbered_auto isMember_b, by rw [runFreely_first]; rfl⟩

theorem flags_mem_enums (assignments : List (String × Expr)) :
    flags ∈ (Program.classified [enumModule assignments]).catalog.enums.map Enumeration.id := by
  have scope : Program.scopeIds [enumModule assignments] = [flags] := by cbv
  exact (Program.catalog_of_scope _).2 flags (scope ▸ List.mem_singleton_self _)
    (isEnum_enumModule assignments)

end Sample

open ClassifiedProgram.Members in
theorem one_is_exact :
    Module.read "from enum import Enum as E\nclass P(E): A = auto()\n"
      = .ok (Sample.enumModule Sample.one).content ∧
    Program.classDecl? [Sample.enumModule Sample.one] Sample.flags
      = some (Sample.enumModule Sample.one, Sample.enumOf Sample.one) ∧
    ((Program.classified [Sample.enumModule Sample.one]).kind Sample.flags).isEnum ∧
    (IsRead (.integer "1") 1 ∧ fitsSigned (-1)) ∧
    ∃ e, (Program.classified [Sample.enumModule Sample.one]).enumeration? Sample.flags = some e ∧
      SumsFit false Sample.one ∧ e.values = (runFreely false Sample.one).values := by
  have decl := Sample.classDecl?_enumModule Sample.one
  have isEnum := Sample.isEnum_enumModule Sample.one
  obtain ⟨negations, e, found, sums, -, counted, values, -⟩ :=
    Program.arithmetic_exact_iff Sample.read_one decl isEnum
  have below : ¬ PassesGreatest false Sample.one := by
    rintro ⟨before, member, within, -, last⟩
    have length := within.length_le
    simp only [Sample.one, List.length_append, List.length_singleton] at length
    rw [List.length_eq_zero_iff.mp (by omega : before.length = 0)] at last
    cases last
  have read : IsRead (.integer "1") 1 := by
    have digits : (withoutUnderscores "1").map Char.toLower = ['1'] := by cbv
    have number : natural? "1" = some 1 := by
      simp only [natural?, digits]
      rfl
    exact .inl (Expr.ofTerm_eq_int_iff.mpr
      ⟨by simp [Term.whole?, number], by norm_num [Readable]⟩)
  rw [Sample.not_strEnum_enumModule] at sums counted values
  exact ⟨Sample.read_one, decl, isEnum, ⟨read, (negations _ _ read).2.2⟩, e, found, sums.mpr below,
    values (counted.mpr below)⟩

open ClassifiedProgram.Members in
/-- An automatic member behind the greatest number has no number, and the program stops. -/
theorem nothing_follows_greatest :
    Program.classDecl? [Sample.enumModule Sample.greatest] Sample.flags
      = some (Sample.enumModule Sample.greatest, Sample.enumOf Sample.greatest) ∧
    PassesGreatest false Sample.greatest ∧
    (runFreely false Sample.greatest).values
      = [.ofInt 9223372036854775807, .ofInt 9223372036854775808] ∧
    (Program.classified [Sample.enumModule Sample.greatest]).valuesOf? Sample.flags
      (Sample.enumOf Sample.greatest) = none ∧
    (Program.classified [Sample.enumModule Sample.greatest]).located? = none := by
  have decl := Sample.classDecl?_enumModule Sample.greatest
  have stops : (Program.classified [Sample.enumModule Sample.greatest]).valuesOf? Sample.flags
      (Sample.enumOf Sample.greatest) = none := by
    rw [ClassifiedProgram.valuesOf?, Sample.not_strEnum_enumModule]
    exact congrArg (Option.map _) (run?_of_passesGreatest Sample.passesGreatest_greatest)
  refine ⟨decl, Sample.passesGreatest_greatest, ?_, stops, ?_⟩
  · have split : Sample.greatest
        = [("A", .literal (.ofInt 9223372036854775807))] ++ [("B", .call "auto" [] [])] := rfl
    rw [split, runFreely_append, Sample.runFreely_first,
      stepFreely_of_isNumbered (Sample.isNumbered_auto Sample.isMember_b)]
    rfl
  · apply ClassifiedProgram.located?_eq_none (Sample.flags_mem_enums Sample.greatest)
    have found : (Program.classified [Sample.enumModule Sample.greatest]).modules.classDecl? Sample.flags
        = _ := decl
    simp only [ClassifiedProgram.isCounted, found, stops]
    decide

end Resolution
end WireTypes
