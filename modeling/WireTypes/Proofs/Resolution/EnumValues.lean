import Mathlib.Data.Nat.Size
import WireTypes.Proofs.Resolution.KindRules

/-!
# Enum values — what the members of an enumeration are numbered by

An automatic value depends on the members before it and on what the class descends from. Here the values
are those of the language; the resolver counts on from the last whole number in every enumeration but
those of names.

- `MemberSource.Reads`: how the literals of a source are read;
- `memberValues`: the values of members, by the numbering of their class;
- `Faithful`: the resolver gets every member right, each by what stands before it;
- `Program.enumeration_values_iff`: so its values are those of the members.
-/

namespace WireTypes
namespace Resolution

open Discovery Python

/-! ## Members -/

/-- The value of a member. -/
inductive EnumValue
  | text (s : String)
  | whole (n : Int)
  deriving DecidableEq, Repr

namespace EnumValue

def json : EnumValue → Json
  | text s => .str s
  | whole n => .ofInt n

def whole? : EnumValue → Option Int
  | text _ => none
  | whole n => some n

theorem same_json (v w : EnumValue) : Json.same v.json w.json = decide (v = w) := by
  cases v <;> cases w <;> simp [json, Json.ofInt, Json.same, Json.Number.same, beq_eq_decide]

end EnumValue

/-- What the source binds a member to. -/
inductive MemberSource
  | literal (value : EnumValue)
  /-- A call of `auto`. -/
  | automatic

/-- A whole number that the reader takes in, with its sign in front or without one. -/
def Readable (n : Int) : Prop := n.natAbs < 2 ^ 63

/-- How the source of a member is read: a whole number that is too long is left as text. -/
inductive MemberSource.Reads : MemberSource → Expr → Prop
  | text (s : String) : Reads (.literal (.text s)) (.literal (.str s))
  | whole {n : Int} : Readable n → Reads (.literal (.whole n)) (.literal (.ofInt n))
  | wide {n : Int} (text : String) : ¬ Readable n → Reads (.literal (.whole n)) (.other text)
  | automatic {function : String} (args : List Expr) (named : List (String × Expr)) :
      Expr.lastSegmentOf function = "auto" → Reads .automatic (.call function args named)

/-- The number that a literal writes, of any size. -/
def natural? (token : String) : Option Nat :=
  match (withoutUnderscores token).map Char.toLower with
  | '0' :: 'x' :: digits => number? 16 digits
  | '0' :: 'o' :: digits => number? 8 digits
  | '0' :: 'b' :: digits => number? 2 digits
  | digits => number? 10 digits

theorem decodeInteger?_eq (token : String) :
    decodeInteger? token = (natural? token).bind signed? := by
  unfold decodeInteger? natural?
  generalize (withoutUnderscores token).map Char.toLower = digits
  split <;> simp_all

/-- What a term of the source says as the value of a member. -/
inductive Denotes : Term → MemberSource → Prop
  | string {tokens : List String} {text s : String} :
      decodeStrings? tokens = some s → Denotes (.string tokens text) (.literal (.text s))
  | integer {text : String} {n : Nat} :
      natural? text = some n → Denotes (.integer text) (.literal (.whole n))
  | negative {operand : Term} {text : String} {n : Int} :
      Denotes operand (.literal (.whole n)) →
      Denotes (.unary "-" operand text) (.literal (.whole (-n)))
  | group {inner : Term} {source : MemberSource} : Denotes inner source → Denotes (.group inner) source
  | automatic {function text : String} {args : List Term} {named : List (String × Term)} :
      Expr.lastSegmentOf (Text.compact function) = "auto" →
      Denotes (.call function true args named text) .automatic

theorem fitsSigned_iff {n : Int} :
    fitsSigned n ↔ -9223372036854775808 ≤ n ∧ n ≤ 9223372036854775807 := by
  have bound : Int.pow 2 63 = 9223372036854775808 := rfl
  simp only [fitsSigned, bound, Bool.and_eq_true, decide_eq_true_eq]
  omega

theorem fitsSigned_of_readable {n : Int} (h : Readable n) : fitsSigned n := by
  simp only [Readable] at h
  rw [fitsSigned_iff]
  omega

theorem signed?_of_readable {n : Nat} (fits : Readable n) : signed? n = some (n : Int) := by
  simp [signed?, fitsSigned_of_readable fits]

theorem signed?_of_not_readable {n : Nat} (wide : ¬ Readable n) : signed? n = none := by
  have beyond : ¬ fitsSigned n := by
    simp only [Readable, Int.natAbs_natCast] at wide
    rw [fitsSigned_iff]
    omega
  simp [signed?, beyond]

theorem Readable.neg {n : Int} : Readable (-n) ↔ Readable n := by
  simp [Readable]

theorem Denotes.reads {term : Term} {source : MemberSource} (h : Denotes term source) :
    source.Reads (Expr.ofTerm term) := by
  induction h with
  | string decoded => simpa [Expr.ofTerm, decoded] using MemberSource.Reads.text _
  | @integer text n value =>
      by_cases fits : Readable n
      · have decoded : decodeInteger? text = some (n : Int) := by
          rw [decodeInteger?_eq, value, Option.bind_some, signed?_of_readable fits]
        have literal : Expr.ofTerm (.integer text) = .literal (.ofInt n) := by
          simp [Expr.ofTerm, decoded, Json.ofInt]
        exact literal ▸ .whole fits
      · have refused : decodeInteger? text = none := by
          rw [decodeInteger?_eq, value, Option.bind_some, signed?_of_not_readable fits]
        have left : Expr.ofTerm (.integer text) = .other text := by
          simp [Expr.ofTerm, refused]
        exact left ▸ .wide text fits
  | @negative operand text n _ ih =>
      generalize source : MemberSource.literal (.whole n) = given at ih
      generalize read : Expr.ofTerm operand = e at ih
      cases ih with
      | text s => cases source
      | @whole k fits =>
          cases source
          have literal : Expr.ofTerm (.unary "-" operand text) = .literal (.ofInt (-n)) := by
            simp [Expr.ofTerm, read, Expr.signed, Json.ofInt]
          exact literal ▸ .whole (Readable.neg.mpr fits)
      | @wide k _ wide =>
          cases source
          have left : Expr.ofTerm (.unary "-" operand text) = .other text := by
            simp [Expr.ofTerm, read, Expr.signed]
          exact left ▸ .wide text (fun fits => wide (Readable.neg.mp fits))
      | automatic => cases source
  | group _ ih => simpa [Expr.ofTerm] using ih
  | automatic call => simpa [Expr.ofTerm] using MemberSource.Reads.automatic _ _ call

/-! ## Values of the language -/

/-- How automatic values go on. -/
inductive Numbering
  | names
  | counting
  | powers
  deriving DecidableEq, Repr

def wholes (values : List EnumValue) : List Int := values.filterMap EnumValue.whole?

/-- The last whole number, zero if there is none. -/
def lastWhole (values : List EnumValue) : Int := (wholes values).getLastD 0

/-- The least exponent such that the power of two is above some numbers. -/
def exponentAbove (numbers : List Int) : Nat :=
  numbers.foldr (fun n exponent => max n.toNat.size exponent) 0

/-- The power of two that is next above some numbers. -/
def powerAbove (numbers : List Int) : Int := 2 ^ exponentAbove numbers

theorem exponentAbove_le_iff {numbers : List Int} {e : Nat} :
    exponentAbove numbers ≤ e ↔ ∀ n ∈ numbers, n < 2 ^ e := by
  induction numbers with
  | nil => simp [exponentAbove]
  | cons n rest ih =>
      have first : n.toNat.size ≤ e ↔ n < 2 ^ e := by
        have positive : 0 < 2 ^ e := by positivity
        simp [Nat.size_le, Int.toNat_lt' positive]
      calc exponentAbove (n :: rest) ≤ e
          ↔ n.toNat.size ≤ e ∧ exponentAbove rest ≤ e := Nat.max_le
        _ ↔ ∀ m ∈ n :: rest, m < 2 ^ e := by rw [first, ih, List.forall_mem_cons]

/-- It is the least power of two that is greater than each of them. -/
theorem isLeast_powerAbove (numbers : List Int) :
    IsLeast { q : Int | (∃ e : Nat, q = 2 ^ e) ∧ ∀ n ∈ numbers, n < q } (powerAbove numbers) := by
  constructor
  · exact ⟨⟨_, rfl⟩, exponentAbove_le_iff.mp (Nat.le_refl _)⟩
  · rintro q ⟨⟨e, rfl⟩, above⟩
    have least : exponentAbove numbers ≤ e := exponentAbove_le_iff.mpr above
    exact pow_le_pow_right₀ (by decide) least

/-- The value of an automatic member, by the values before it. -/
def Numbering.next (n : Numbering) (name : String) (before : List EnumValue) : EnumValue :=
  match n with
  | .names => .text (Text.lower name)
  | .counting => .whole (lastWhole before + 1)
  | .powers => .whole (powerAbove (wholes before))

def MemberSource.value (n : Numbering) (name : String) (before : List EnumValue) :
    MemberSource → EnumValue
  | .literal value => value
  | .automatic => n.next name before

/-- A name without an underscore in front is that of a member. -/
def isMember (name : String) : Bool := !name.startsWith "_"

/-- The values of some members behind those that are known, one for each, repeated ones included. -/
def memberValues (n : Numbering) (before : List EnumValue) :
    List (String × MemberSource) → List EnumValue
  | [] => before
  | (name, source) :: rest =>
      memberValues n (if isMember name then before ++ [source.value n name before] else before) rest

/-- The different values, each where it stands first. -/
def distinctValues (values : List EnumValue) : List Json := values.eraseDups.map EnumValue.json

/-! ## Values of the resolver -/

/-- The resolver gives a member its value: a literal that it can read, and of the automatic values the
names, a number after the last one, and a power of two that is just that number. -/
def MemberSource.Kept (n : Numbering) (before : List EnumValue) : MemberSource → Prop
  | .literal (.text _) => True
  | .literal (.whole k) => Readable k
  | .automatic =>
      match n with
      | .names => True
      | .counting => Readable (lastWhole before + 1)
      | .powers => Readable (lastWhole before + 1) ∧ powerAbove (wholes before) = lastWhole before + 1

/-- The resolver gives every member its value. -/
def Faithful (n : Numbering) (before : List EnumValue) : List (String × MemberSource) → Prop
  | [] => True
  | (name, source) :: rest =>
      if isMember name then
        source.Kept n before ∧ Faithful n (before ++ [source.value n name before]) rest
      else Faithful n before rest

open ClassifiedProgram (Members enumValues?)

/-- The members so far have these values. -/
structure Tracks (s : Members) (before : List EnumValue) : Prop where
  found : s.values = distinctValues before
  last : s.lastInt = lastWhole before
  readable : ∀ k ∈ wholes before, Readable k

section Steps

variable {s : Members} {before : List EnumValue} {v : EnumValue} {n : Numbering} {k : Int}
  {name : String}

theorem wholes_append : wholes (before ++ [v]) = wholes before ++ v.whole?.toList := by
  cases v <;> simp [wholes, EnumValue.whole?]

theorem mem_wholes : k ∈ wholes before ↔ .whole k ∈ before := by
  simp only [wholes, List.mem_filterMap]
  constructor
  · rintro ⟨v, member, whole⟩
    cases v <;> simp_all [EnumValue.whole?]
  · exact fun member => ⟨_, member, rfl⟩

theorem distinctValues_append :
    distinctValues (before ++ [v])
      = if v ∈ before then distinctValues before else distinctValues before ++ [v.json] := by
  by_cases member : v ∈ before
  · simp [distinctValues, List.eraseDups_append, List.removeAll, member]
  · simp [distinctValues, List.eraseDups_append, List.removeAll, List.eraseDups_cons, member]

theorem EnumValue.json_injective {v w : EnumValue} (h : v.json = w.json) : v = w := by
  cases v <;> cases w <;> simp_all [json, Json.ofInt]

theorem any_same_json :
    (distinctValues before).any (Json.same · v.json) = decide (v ∈ before) := by
  simp [distinctValues, EnumValue.same_json, List.any_eq]

/-- A member with a value. -/
theorem values_add (tracks : Tracks s before) (v : EnumValue) :
    (s.add v.json).values
      = if v ∈ before then distinctValues before else distinctValues before ++ [v.json] := by
  simp [Members.add, tracks.found, any_same_json]

theorem Tracks.add (tracks : Tracks s before) (readable : ∀ k, v = .whole k → Readable k) :
    Tracks (s.add v.json) (before ++ [v]) := by
  constructor
  case found => rw [values_add tracks, distinctValues_append]
  case last =>
    cases v with
    | text t =>
        simp [Members.add, EnumValue.json, tracks.last, lastWhole, wholes_append, EnumValue.whole?]
    | whole k =>
        simp [Members.add, EnumValue.json, Json.ofInt, lastWhole, wholes_append, EnumValue.whole?]
  case readable =>
    intro k member
    rcases List.mem_append.mp (mem_wholes.mp member) with old | new
    · exact tracks.readable k (mem_wholes.mpr old)
    · exact readable k (List.mem_singleton.mp new).symm

/-- A wrong value in the place of a new one is seen at once. -/
theorem values_add_ne (tracks : Tracks s before) {w : EnumValue} (new : v ∉ before)
    (different : w ≠ v) : (s.add w.json).values ≠ distinctValues (before ++ [v]) := by
  rw [values_add tracks, distinctValues_append, if_neg new]
  split
  · simp
  · intro same
    have json : w.json = v.json := by simpa using same
    exact different (EnumValue.json_injective json)

theorem readable_lastWhole (tracks : Tracks s before) : Readable (lastWhole before) := by
  rcases List.eq_nil_or_concat' (wholes before) with none | ⟨front, k, split⟩
  · simp [lastWhole, none, Readable]
  · have last : lastWhole before = k := by simp [lastWhole, split]
    exact last ▸ tracks.readable k (by simp [split])

/-! ### Numbers -/

theorem following?_of_readable (h : Readable (k + 1)) : Members.following? k = some (k + 1) :=
  if_pos (fitsSigned_of_readable h)

/-- Behind the greatest number the resolver has none. -/
theorem following?_of_wide (last : Readable k) (wide : ¬ Readable (k + 1)) :
    Members.following? k = none := by
  have beyond : ¬ fitsSigned (k + 1) := by
    simp only [Readable] at last wide
    rw [fitsSigned_iff]
    omega
  exact if_neg beyond

theorem not_mem_of_wide (tracks : Tracks s before) (wide : ¬ Readable k) : .whole k ∉ before :=
  fun member => wide (tracks.readable k (mem_wholes.mpr member))

theorem powerAbove_not_mem : .whole (powerAbove (wholes before)) ∉ before := by
  intro member
  have above := (isLeast_powerAbove (wholes before)).1.2 _ (mem_wholes.mpr member)
  exact lt_irrefl _ above

/-! ### One member -/

section Member

variable {byName : Bool} {e : Expr} {source : MemberSource}

theorem step_of_not_member (h : isMember name = false) :
    Members.step byName s (name, e) = some s := by
  have underscore : name.startsWith "_" = true := by simpa [isMember] using h
  simp [Members.step, underscore]

theorem step_literal (h : isMember name) (v : EnumValue) :
    Members.step byName s (name, .literal v.json) = some (s.add v.json) := by
  have shown : name.startsWith "_" = false := by simpa [isMember] using h
  cases v <;> simp [Members.step, shown, Members.isAutomatic, Members.constant?, Expr.toJson?,
    EnumValue.json, Json.ofInt]

theorem step_wide (h : isMember name) (text : String) :
    Members.step byName s (name, .other text) = some s := by
  have shown : name.startsWith "_" = false := by simpa [isMember] using h
  simp [Members.step, shown, Members.isAutomatic, Members.constant?, Expr.toJson?]

theorem step_automatic (h : isMember name) {function : String} {args : List Expr}
    {named : List (String × Expr)} (call : Expr.lastSegmentOf function = "auto") :
    Members.step byName s (name, .call function args named)
      = (Members.automatic? byName name s).map s.add := by
  have shown : name.startsWith "_" = false := by simpa [isMember] using h
  simp [Members.step, shown, Members.isAutomatic, call]

theorem automatic?_names (name : String) (s : Members) :
    Members.automatic? (decide (Numbering.names = .names)) name s
      = some (EnumValue.text (Text.lower name)).json := rfl

/-- An automatic number is the one after the last whole number. -/
theorem automatic?_of_ne (tracks : Tracks s before) (counted : n ≠ .names) :
    Members.automatic? (decide (n = .names)) name s
      = (Members.following? (lastWhole before)).map fun k => (EnumValue.whole k).json := by
  simp only [Members.automatic?, counted, decide_false, tracks.last]
  rfl

/-- A member that is kept has its value. -/
theorem Tracks.step (tracks : Tracks s before) (member : isMember name) (reads : source.Reads e)
    (kept : source.Kept n before) :
    ∃ after, Members.step (decide (n = .names)) s (name, e) = some after ∧
      Tracks after (before ++ [source.value n name before]) := by
  cases reads with
  | text t => exact ⟨_, step_literal member (.text t), tracks.add (by simp)⟩
  | @whole k fits => exact ⟨_, step_literal member (.whole k), tracks.add (by simpa using fits)⟩
  | wide text wide => exact absurd kept wide
  | automatic args named call =>
      rw [step_automatic member call]
      cases n with
      | names =>
          rw [automatic?_names]
          exact ⟨_, rfl, tracks.add (by simp)⟩
      | counting =>
          have fits : Readable (lastWhole before + 1) := kept
          rw [automatic?_of_ne tracks (by decide), following?_of_readable fits]
          exact ⟨_, rfl, tracks.add (by simpa using fits)⟩
      | powers =>
          have value : MemberSource.automatic.value .powers name before
              = .whole (lastWhole before + 1) := congrArg EnumValue.whole kept.2
          rw [automatic?_of_ne tracks (by decide), following?_of_readable kept.1, value]
          exact ⟨_, rfl, tracks.add (by simpa using kept.1)⟩

/-- A member that is not kept is wrong at once, if the resolver goes on behind it. -/
theorem step_wrong (tracks : Tracks s before) (member : isMember name) (reads : source.Reads e)
    (lost : ¬ source.Kept n before) {after : Members}
    (step : Members.step (decide (n = .names)) s (name, e) = some after) :
    after.values ≠ distinctValues (before ++ [source.value n name before]) := by
  cases reads with
  | text t => exact absurd trivial lost
  | whole fits => exact absurd fits lost
  | @wide k text wide =>
      have new : EnumValue.whole k ∉ before := not_mem_of_wide tracks wide
      obtain rfl : s = after := Option.some.inj ((step_wide member text).symm.trans step)
      simp [MemberSource.value, distinctValues_append, new, tracks.found]
  | automatic args named call =>
      rw [step_automatic member call] at step
      cases n with
      | names => exact absurd trivial lost
      | counting =>
          -- The number does not fit, so that the resolver does not go on.
          have wide : ¬ Readable (lastWhole before + 1) := lost
          rw [automatic?_of_ne tracks (by decide),
            following?_of_wide (readable_lastWhole tracks) wide] at step
          cases step
      | powers =>
          rw [automatic?_of_ne tracks (by decide)] at step
          by_cases fits : Readable (lastWhole before + 1)
          · rw [following?_of_readable fits] at step
            obtain rfl := Option.some.inj step
            apply values_add_ne tracks powerAbove_not_mem
            intro same
            exact lost ⟨fits, (EnumValue.whole.inj same).symm⟩
          · rw [following?_of_wide (readable_lastWhole tracks) fits] at step
            cases step

end Member

end Steps

/-! ## All members -/

/-- The members as the source binds them and as they are read. -/
def ReadsAll (members : List (String × MemberSource)) (assignments : List (String × Expr)) : Prop :=
  List.Forall₂ (fun m a => m.1 = a.1 ∧ (isMember m.1 → m.2.Reads a.2)) members assignments

/-- The values are right after every one of some members exactly if each is kept, by induction on the
members that are left. -/
theorem foldlM_step_iff {n : Numbering} {members : List (String × MemberSource)}
    {assignments : List (String × Expr)} (reads : ReadsAll members assignments) {s : Members}
    {before : List EnumValue} (tracks : Tracks s before) :
    (∀ count, ((assignments.take count).foldlM (Members.step (decide (n = .names))) s).map Members.values
        = some (distinctValues (memberValues n before (members.take count)))) ↔
      Faithful n before members := by
  induction reads generalizing s before with
  | nil => simp [memberValues, Faithful, tracks.found]
  | @cons member assignment members assignments first _ ih =>
      obtain ⟨name, source⟩ := member
      obtain ⟨_, e⟩ := assignment
      obtain ⟨rfl, reads⟩ := first
      by_cases shown : isMember name
      · simp only [Faithful, shown, if_true]
        constructor
        · intro right
          have kept : source.Kept n before := by
            by_contra lost
            have first := right 1
            cases step : Members.step (decide (n = .names)) s (name, e) with
            | none => simp [step] at first
            | some after =>
                apply step_wrong tracks shown (reads shown) lost step
                simpa [memberValues, shown, step] using first
          obtain ⟨after, step, stays⟩ := tracks.step shown (reads shown) kept
          refine ⟨kept, (ih stays).mp fun count => ?_⟩
          simpa [memberValues, shown, step] using right (count + 1)
        · rintro ⟨kept, others⟩ count
          obtain ⟨after, step, stays⟩ := tracks.step shown (reads shown) kept
          cases count with
          | zero => simp [memberValues, tracks.found]
          | succ count => simpa [memberValues, shown, step] using (ih stays).mpr others count
      · have still : Members.step (decide (n = .names)) s (name, e) = some s :=
          step_of_not_member (Bool.eq_false_iff.mpr shown)
        simp only [Faithful, shown, Bool.false_eq_true, if_false, ← ih tracks]
        constructor
        · intro right count
          simpa [memberValues, shown, still] using right (count + 1)
        · intro right count
          cases count with
          | zero => simp [memberValues, tracks.found]
          | succ count => simpa [memberValues, shown, still] using right count

namespace Program

variable {p : Program} {id : DefinitionId}

/-- A class from outside the tree, by its qualified name, is above the class. -/
inductive Below (p : Program) (root : String → Prop) : DefinitionId → Prop
  | root {id : DefinitionId} {m : SourceModule} {d : ClassDecl} {name qualified : String} :
      p.classDecl? id = some (m, d) → .name name ∈ d.bases →
      p.resolve m name = .external qualified → root qualified → Below p root id
  | base {b id : DefinitionId} : p.BaseOf b id → Below p root b → Below p root id

/-- What an enumeration is numbered by: a class below `StrEnum` has the kind of those whose automatic
values are names, and of the others those below a flag class have powers of two. -/
inductive NumberedBy (p : Program) (id : DefinitionId) : Numbering → Prop
  | names : p.classified.kind id = .strEnum → NumberedBy p id .names
  | counting : p.classified.kind id = .enum →
      ¬ p.Below (fun q => q = "enum.Flag" ∨ q = "enum.IntFlag") id → NumberedBy p id .counting
  | powers : p.classified.kind id = .enum →
      p.Below (fun q => q = "enum.Flag" ∨ q = "enum.IntFlag") id → NumberedBy p id .powers

/-- In a program without cyclic or mixed classes, the kind says what is above a class. -/
theorem kind_eq_strEnum_iff (acyclic : p.Acyclic) (unmixed : p.Unmixed) :
    p.classified.kind id = .strEnum ↔ p.Below (· = "enum.StrEnum") id := by
  have kinds : ∀ id, p.HasKind id (p.classified.kind id) :=
    hasKind_of_classified acyclic (List.Subset.refl _)
  have rules := kind_rules unmixed kinds
  have named (q : String) : ClassKind.ofExternal q = .strEnum ↔ q = "enum.StrEnum" := by
    constructor
    · intro kind
      unfold ClassKind.ofExternal at kind
      split at kind <;> simp_all
    · rintro rfl
      rfl
  constructor
  · intro kind
    have descends := (kinds id).descends (P := (· = .strEnum)) (by decide) (by decide) kind
    clear kind
    induction descends with
    | external has =>
        obtain ⟨m, d, hdecl, _, hbase, name, qualified, rfl, hsymbol, strEnum⟩ := has
        exact .root hdecl hbase hsymbol ((named qualified).mp strEnum)
    | base hbase _ ih => exact .base hbase ih
  · intro below
    induction below with
    | root hdecl hbase hsymbol isStrEnum =>
        refine (rules.strEnum _).mpr ⟨_, _, hdecl, _, hbase, .inl ⟨_, _, rfl, hsymbol, ?_⟩⟩
        exact (named _).mpr isStrEnum
    | @base b id hbase _ ih =>
        cases hdecl : p.classDecl? id with
        | none =>
            have empty : p.classified.modules.classDecl? id = none := hdecl
            simp [BaseOf, ClassifiedProgram.basesOf, empty] at hbase
        | some decl =>
            obtain ⟨base, member, names⟩ := (baseOf_iff hdecl).mp hbase
            exact (rules.strEnum id).mpr ⟨_, _, hdecl, base, member, .inr ⟨b, names, ih⟩⟩

theorem exists_numbering (h : (p.classified.kind id).isEnum) : ∃ n, p.NumberedBy id n := by
  cases kind : p.classified.kind id with
  | enum =>
      by_cases flag : p.Below (fun q => q = "enum.Flag" ∨ q = "enum.IntFlag") id
      · exact ⟨.powers, .powers kind flag⟩
      · exact ⟨.counting, .counting kind flag⟩
  | strEnum => exact ⟨.names, .names kind⟩
  | _ => simp [kind, ClassKind.isEnum] at h

theorem NumberedBy.kind_iff {n : Numbering} (h : p.NumberedBy id n) :
    p.classified.kind id = .strEnum ↔ n = .names := by
  cases h <;> simp_all

theorem enumeration?_of_decl {m : SourceModule} {d : ClassDecl}
    (isEnum : (p.classified.kind id).isEnum) (hdecl : p.classDecl? id = some (m, d)) :
    ∃ e, p.classified.enumeration? id = some e ∧ e.values = (p.classified.valuesOf? id d).getD [] := by
  have decl : p.classified.modules.classDecl? id = some (m, d) := hdecl
  simp only [ClassifiedProgram.enumeration?, isEnum, decl, if_true]
  exact ⟨_, rfl, rfl⟩

/-- The values of an enumeration are those of its members, each where it stands first, exactly if the
resolver keeps every member: the values are then right however many of the members there are, and
behind the first member that it does not keep they are wrong, or there are none. What is numbered by names is
what is below `StrEnum`. -/
theorem enumeration_values_iff {m : SourceModule} {d : ClassDecl}
    {members : List (String × MemberSource)} (isEnum : (p.classified.kind id).isEnum)
    (hdecl : p.classDecl? id = some (m, d)) (reads : ReadsAll members d.assignments) :
    ∃ n e, p.NumberedBy id n ∧ p.classified.enumeration? id = some e ∧
      (Faithful n [] members →
        p.classified.isCounted id ∧ e.values = distinctValues (memberValues n [] members)) ∧
      ((∀ count, enumValues? (p.classified.kind id = .strEnum) (d.assignments.take count)
          = some (distinctValues (memberValues n [] (members.take count)))) ↔ Faithful n [] members) ∧
      (p.Acyclic → p.Unmixed → (n = .names ↔ p.Below (· = "enum.StrEnum") id)) := by
  obtain ⟨n, numbered⟩ := exists_numbering isEnum
  have byName : decide (p.classified.kind id = .strEnum) = decide (n = .names) := by
    simp [numbered.kind_iff]
  have start : Tracks ⟨[], 0⟩ [] := ⟨rfl, rfl, by simp [wholes]⟩
  have run := foldlM_step_iff (n := n) reads start
  obtain ⟨e, enumeration, values⟩ := enumeration?_of_decl isEnum hdecl
  have same_length := List.Forall₂.length_eq reads
  refine ⟨n, e, numbered, enumeration, fun faithful => ?_, ?_, fun acyclic unmixed => ?_⟩
  · have all := run.mpr faithful members.length
    rw [List.take_length, same_length, List.take_length] at all
    have counted : p.classified.valuesOf? id d = some (distinctValues (memberValues n [] members)) := by
      rw [ClassifiedProgram.valuesOf?, byName]
      exact all
    have decl : p.classified.modules.classDecl? id = some (m, d) := hdecl
    exact ⟨by simp only [ClassifiedProgram.isCounted, decl, counted, Option.isSome_some],
      by rw [values, counted, Option.getD_some]⟩
  · simpa [enumValues?, byName] using run
  · exact numbered.kind_iff.symm.trans (kind_eq_strEnum_iff acyclic unmixed)

end Program

/-! ## A class of flags -/

namespace Sample

def flags : DefinitionId := ⟨"/m.py", "P"⟩

def flagMembers : List (String × MemberSource) :=
  [("A", .automatic), ("B", .automatic), ("C", .automatic)]

/-- A class of flags with three automatic members. -/
def flagDecl : ClassDecl :=
  { declare "P" ["Flag"] [] with
    assignments := flagMembers.map fun member => (member.1, .call "auto" [] []) }

def flagModule : SourceModule where
  key := ["m.py"]
  dotted := "m"
  packageDirectory := none
  content := {
    imports := [.names 0 (some "enum") [⟨"Flag", none⟩, ⟨"auto", none⟩] false]
    classes := [flagDecl]
    aliases := [] }
  bindings := [("P", .classDef), ("auto", .external "enum.auto"), ("Flag", .external "enum.Flag")]
  stars := []
  inScope := true

def flagProgram : ClassifiedProgram := ⟨[flagModule], [(flags, .enum)]⟩

theorem classified_flagModule : Program.classified [flagModule] = flagProgram := by cbv

theorem classDecl?_flags :
    Program.classDecl? [flagModule] flags = some (flagModule, flagDecl) := rfl

theorem kind_flags : (Program.classified [flagModule]).kind flags = .enum := by
  rw [classified_flagModule]
  rfl

theorem lastSegmentOf_auto : Expr.lastSegmentOf "auto" = "auto" := by cbv

theorem readsAll_flags : ReadsAll flagMembers flagDecl.assignments := by
  have auto : MemberSource.automatic.Reads (.call "auto" [] []) :=
    .automatic [] [] lastSegmentOf_auto
  exact .cons ⟨rfl, fun _ => auto⟩ (.cons ⟨rfl, fun _ => auto⟩ (.cons ⟨rfl, fun _ => auto⟩ .nil))

theorem numberedBy_flags : Program.NumberedBy [flagModule] flags .powers := by
  have resolved : Program.resolve [flagModule] flagModule "Flag" = .external "enum.Flag" := by cbv
  have base : Expr.name "Flag" ∈ flagDecl.bases := List.mem_singleton_self _
  exact .powers kind_flags (.root classDecl?_flags base resolved (.inl rfl))

theorem isMember_flags : ∀ member ∈ flagMembers, isMember member.1 := by
  have a : isMember "A" := by cbv
  have b : isMember "B" := by cbv
  have c : isMember "C" := by cbv
  simpa [flagMembers] using ⟨a, b, c⟩

end Sample

theorem flags_values_iff :
    ((Program.classified [Sample.flagModule]).kind Sample.flags).isEnum ∧
    Program.classDecl? [Sample.flagModule] Sample.flags
      = some (Sample.flagModule, Sample.flagDecl) ∧
    ReadsAll Sample.flagMembers Sample.flagDecl.assignments ∧
    ∃ n e, Program.NumberedBy [Sample.flagModule] Sample.flags n ∧
      (Program.classified [Sample.flagModule]).enumeration? Sample.flags = some e ∧
      (Faithful n [] Sample.flagMembers → (Program.classified [Sample.flagModule]).isCounted Sample.flags ∧
        e.values = distinctValues (memberValues n [] Sample.flagMembers)) := by
  have isEnum : ((Program.classified [Sample.flagModule]).kind Sample.flags).isEnum := by
    rw [Sample.kind_flags]
    rfl
  obtain ⟨n, e, numbered, found, values, -⟩ := Program.enumeration_values_iff isEnum
    Sample.classDecl?_flags Sample.readsAll_flags
  exact ⟨isEnum, Sample.classDecl?_flags, Sample.readsAll_flags, n, e, numbered, found, values⟩

/-- Flags are numbered by powers of two, and the resolver counts them. -/
theorem flags_are_counted :
    Program.NumberedBy [Sample.flagModule] Sample.flags .powers ∧
    ReadsAll Sample.flagMembers Sample.flagDecl.assignments ∧
    distinctValues (memberValues .powers [] Sample.flagMembers)
      = [.ofInt 1, .ofInt 2, .ofInt 4] ∧
    ((Program.classified [Sample.flagModule]).enumeration? Sample.flags).map (·.values)
      = some [.ofInt 1, .ofInt 2, .ofInt 3] := by
  obtain ⟨a, b, c⟩ : isMember "A" ∧ isMember "B" ∧ isMember "C" := by
    simpa [Sample.flagMembers] using Sample.isMember_flags
  refine ⟨Sample.numberedBy_flags, Sample.readsAll_flags, ?_, ?_⟩
  · simp only [Sample.flagMembers, memberValues, a, b, c, if_true]
    rfl
  · have step (name : String) (shown : isMember name) (s : Members) :
        Members.step false s (name, .call "auto" [] [])
          = ((Members.following? s.lastInt).map Json.ofInt).map s.add :=
      step_automatic shown Sample.lastSegmentOf_auto
    have values : enumValues? false Sample.flagDecl.assignments
        = some [.ofInt 1, .ofInt 2, .ofInt 3] := by
      simp only [Sample.flagDecl, Sample.flagMembers, List.map_cons, List.map_nil, enumValues?,
        List.foldlM_cons, List.foldlM_nil, step _ a, step _ b, step _ c]
      rfl
    have decl : Sample.flagProgram.modules.classDecl? Sample.flags
        = some (Sample.flagModule, Sample.flagDecl) := rfl
    have kind : Sample.flagProgram.kind Sample.flags = .enum := rfl
    simp [Sample.classified_flagModule, ClassifiedProgram.enumeration?, kind, decl, values,
      ClassKind.isEnum, ClassifiedProgram.valuesOf?]

end Resolution
end WireTypes
