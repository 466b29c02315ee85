import WireTypes.Declarations.Scan
import WireTypes.Schema.Options
import WireTypes.Text.Blank

/-!
# Output — the file that is written

The text of a generator, without the declaration of the aggregator, below a banner. With that
declaration go the documentation block right above it and one blank line after it.
-/

namespace WireTypes
namespace Declarations

/-! ## Removing a declaration -/

/-- Drops a prefix, if the text starts with it. -/
def dropPrefix? (start text : List Char) : Option (List Char) :=
  if start.isPrefixOf text then some (text.drop start.length) else none

/-- Whether a text starts with this keyword and a declaration of the name. -/
def declares (keyword name : String) (text : List Char) : Bool :=
  match (dropPrefix? keyword.toList text).bind (dropPrefix? name.toList) with
  | some (c :: _) => c == ' ' || c == '{' || c == '<' || c == '='
  | _ => false

def header? (name : String) (text : List Char) : Option Kind :=
  if declares "export interface " name text then some .interface
  else if declares "export type " name text then some .alias
  else none

/-- The greatest offset where the pattern stands, counted from `offset`. -/
def lastIndexFrom? (pattern : List Char) (offset : Nat) : List Char → Option Nat
  | [] => if pattern.isEmpty then some offset else none
  | c :: rest =>
      match lastIndexFrom? pattern (offset + 1) rest with
      | some i => some i
      | none => if pattern.isPrefixOf (c :: rest) then some offset else none

/-- The greatest offset where the pattern stands. -/
def lastIndex? (pattern text : List Char) : Option Nat := lastIndexFrom? pattern 0 text

/-- The offset after the last line feed. -/
def lineStart (text : List Char) : Nat :=
  match lastIndex? ['\n'] text with
  | some i => i + 1
  | none => 0

def isLineBlank (c : Char) : Bool := c == ' ' || c == '\t' || c == '\r'

/-- Whether the text ends a block comment, up to blanks. -/
def endsBlock (text : List Char) : Bool :=
  ['/', '*'].isPrefixOf (text.reverse.dropWhile isLineBlank)

/-- Where a documentation block starts that ends on the last line of a text. -/
def docStart? (before : List Char) : Option Nat :=
  if before.getLast? = some '\n' then
    let above := before.dropLast
    if endsBlock above then
      match lastIndex? ['*', '/'] above with
      | none => none
      | some close =>
          match lastIndex? ['/', '*'] (above.take close) with
          | none => none
          | some opening =>
              let start := lineStart (above.take opening)
              if ['/', '*', '*'].isPrefixOf (above.drop opening)
                  && ((above.take opening).drop start).all Text.isBlank then
                some start
              else none
    else none
  else none

/-- The length of the rest of a line with its line feed. -/
def restOfLine (text : List Char) : Nat :=
  min (text.length) ((text.takeWhile (· != '\n')).length + 1)

/-- Where a declaration with its line ends, one blank line included. -/
def declarationEnd (k : Kind) (text : List Char) (start : Nat) : Nat :=
  let stop := start + declarationLength k (text.drop start)
  let stop := stop + restOfLine (text.drop stop)
  if (text.drop stop).head? = some '\n' then stop + 1 else stop

/-- The first line that declares the name. -/
def find? (name : String) (text : List Char) : Option (Nat × Kind) :=
  (lineStarts text).findSome? fun start =>
    (header? name (text.drop start)).map fun kind => (start, kind)

/-- The text without the declaration of the name, if there is one. -/
def remove? (name : String) (text : List Char) : Option (List Char) :=
  match find? name text with
  | none => none
  | some (start, kind) =>
      let stop := declarationEnd kind text start
      let start := (docStart? (text.take start)).getD start
      some (text.take start ++ text.drop stop)

/-! ## The file -/

/-- The text above every file. -/
def banner : String :=
  "/* tslint:disable */\n/**\n"
    ++ "/* This file was automatically generated from pydantic models by running typebridge.\n"
    ++ "/* Do not modify it by hand - just update the pydantic models and then re-run the script\n"
    ++ "*/\n\n"

/-- A file: what stands below the banner. -/
structure Output where
  declarations : String

namespace Output

def empty : Output := ⟨""⟩

def text (o : Output) : String := banner ++ o.declarations

end Output

/-- The generator wrote no declaration for the aggregator. -/
structure MissingAggregator where
  name : String

def MissingAggregator.message (e : MissingAggregator) : String :=
  "generator output has no declaration for the aggregator `" ++ e.name ++ "`"

/-- A missing declaration is a failure only if the schema asked for one. -/
def finish (raw aggregator : String) (inclusion : Schema.Inclusion) :
    Except MissingAggregator Output :=
  match remove? aggregator raw.toList with
  | some rest => .ok ⟨String.ofList rest⟩
  | none => if inclusion.expectsAggregator then .error ⟨aggregator⟩ else .ok ⟨raw⟩

end Declarations
end WireTypes
