/-!
# Toml documents — tables built from keys and headers

A document is built from assignments and headers one after the other. Each key has one value, and a table
is written in one way: by a header or by dotted keys.

- `Document.insertKey?` adds an assignment;
- `Document.insertHeader?` opens a table.

Only texts, whole numbers, truth values, arrays and tables are represented.
-/

namespace WireTypes
namespace Toml

inductive Value
  | text (s : String)
  | integer (n : Int)
  | boolean (b : Bool)
  | array (items : List Value)
  | table (members : List (String × Value))

/-- How a table came to be. -/
inductive Origin
  /-- A longer header names it on the way. -/
  | implied
  | dotted
  | header
  deriving DecidableEq, Repr

inductive Node
  | value (v : Value)
  | table (origin : Origin) (members : List (String × Node))

/-- The members of a table, in order. -/
abbrev Document := List (String × Node)

namespace Document

/-- Puts another node in the place of a member. -/
def replace (d : Document) (key : String) (node : Node) : Document :=
  d.map fun m => if m.1 == key then (key, node) else m

/-- Whether dotted keys may go through a table. -/
def isOpen (origin : Origin) (rest : List String) : Bool :=
  match origin with
  | .dotted => true
  | .implied => !rest.isEmpty
  | .header => false

/-- Adds an assignment to a dotted key, given by the segments before the last and the last one. -/
def insertKey? (d : Document) (dotted : List String) (key : String) (v : Value) :
    Option Document :=
  match dotted with
  | [] => if (d.lookup key).isNone then some (d ++ [(key, .value v)]) else none
  | first :: rest =>
      match d.lookup first with
      | none =>
          (insertKey? [] rest key v).map fun inner => d ++ [(first, .table .dotted inner)]
      | some (.table origin inner) =>
          if isOpen origin rest then
            (insertKey? inner rest key v).map fun inner => replace d first (.table origin inner)
          else none
      | some (.value _) => none

/-- Opens a table by its header. A table that was only implied may be opened once. -/
def insertHeader? (d : Document) : List String → Option Document
  | [] => none
  | [key] =>
      match d.lookup key with
      | none => some (d ++ [(key, .table .header [])])
      | some (.table .implied inner) => some (replace d key (.table .header inner))
      | some _ => none
  | first :: rest =>
      match d.lookup first with
      | none => (insertHeader? [] rest).map fun inner => d ++ [(first, .table .implied inner)]
      | some (.table origin inner) =>
          (insertHeader? inner rest).map fun inner => replace d first (.table origin inner)
      | some (.value _) => none

/-- Adds an assignment below a header. -/
def insertBelow? (d : Document) (header dotted : List String) (key : String) (v : Value) :
    Option Document :=
  match header with
  | [] => insertKey? d dotted key v
  | first :: rest =>
      match d.lookup first with
      | some (.table origin inner) =>
          (insertBelow? inner rest dotted key v).map fun inner =>
            replace d first (.table origin inner)
      | _ => none

mutual

def nodeValue : Node → Value
  | .value v => v
  | .table _ members => .table (memberValues members)

def memberValues : List (String × Node) → List (String × Value)
  | [] => []
  | (key, node) :: rest => (key, nodeValue node) :: memberValues rest

end

/-- The members of a document as values. -/
def values (d : Document) : List (String × Value) := memberValues d

end Document

end Toml
end WireTypes
