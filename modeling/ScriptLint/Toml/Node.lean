import ScriptLint.Toml.Key
import ScriptLint.Toml.Value

/-! TOML tables while a document is read.

How a table came to be decides what may still be added to it. -/

namespace ScriptLint.Toml

/-- How a table came to be. -/
inductive Origin where
  /-- By a header of its own. -/
  | header
  /-- On the way to the table of a longer header. -/
  | implied
  /-- By a dotted key. -/
  | dotted
  deriving DecidableEq

/-- What a key holds while the document is read.  Only tables from headers and
dotted keys can still grow, and the last element of an array of tables. -/
inductive Node where
  | value (v : Value)
  | table (origin : Origin) (entries : List (String × Node))
  | tables (earlier : List (List (String × Node))) (last : List (String × Node))

abbrev Nodes := List (String × Node)

/-- Puts a node under a key, in place of what the key held. -/
def Nodes.put (nodes : Nodes) (key : String) (node : Node) : Nodes :=
  match nodes with
  | [] => [(key, node)]
  | (k, n) :: rest => if k = key then (key, node) :: rest else (k, n) :: Nodes.put rest key node

/-- Assigns a value below `nodes`; `grows` says whether a value may be put right here.
A key is assigned once, and a dotted key adds only to tables that dotted keys made. -/
def Nodes.assign (grows : Bool) (nodes : Nodes) (path : List String) (key : String) (v : Value) :
    Option Nodes :=
  match path with
  | [] => if grows ∧ (nodes.lookup key).isNone then some (nodes.put key (.value v)) else none
  | step :: path =>
    match nodes.lookup step with
    | none => (Nodes.assign true [] path key v).map fun sub => nodes.put step (.table .dotted sub)
    | some (.table .header _) => none
    | some (.table .implied sub) =>
      (Nodes.assign false sub path key v).map fun sub => nodes.put step (.table .implied sub)
    | some (.table .dotted sub) =>
      (Nodes.assign true sub path key v).map fun sub => nodes.put step (.table .dotted sub)
    | some (.tables earlier last) =>
      (Nodes.assign false last path key v).map fun sub => nodes.put step (.tables earlier sub)
    | some (.value _) => none

/-- Assigns a list of values in order. -/
def Nodes.assignAll (nodes : Nodes) (assignments : List (Key × Value)) : Option Nodes :=
  assignments.foldlM (fun nodes (key, v) => nodes.assign true key.path key.last v) nodes

mutual

/-- The value of a finished node. -/
def Node.toValue : Node → Value
  | .value v => v
  | .table _ entries => .table (entriesToTable entries)
  | .tables earlier last => .array (tablesToValues earlier ++ [.table (entriesToTable last)])

/-- The table of finished entries. -/
def entriesToTable : List (String × Node) → Table
  | [] => []
  | (key, node) :: rest => (key, node.toValue) :: entriesToTable rest

/-- The elements of a finished array of tables. -/
def tablesToValues : List (List (String × Node)) → List Value
  | [] => []
  | entries :: rest => .table (entriesToTable entries) :: tablesToValues rest

end

end ScriptLint.Toml
