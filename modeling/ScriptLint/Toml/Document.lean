import ScriptLint.Toml.Statement

/-! TOML documents.

`parse? source` is the table that a document describes.  The rules about keys
hold across its sections: no key is assigned twice, no table has two headers,
and only an array of tables grows by repeated headers. -/

namespace ScriptLint.Toml

/-- A header with the assignments below it. -/
structure Section where
  key : Key
  /-- Whether the header adds an element to an array of tables. -/
  isElement : Bool
  body : List (Key × Value)

/-- Divides statements into the assignments before the first header, and sections. -/
def sections : List Statement → List (Key × Value) × List Section
  | [] => ([], [])
  | statement :: rest =>
    let (top, later) := sections rest
    match statement with
    | .assign key v => ((key, v) :: top, later)
    | .table key => ([], ⟨key, false, top⟩ :: later)
    | .element key => ([], ⟨key, true, top⟩ :: later)

/-- Changes the table at the end of a header's path; tables on the way are made as needed. -/
def Nodes.update (change : Nodes → Option Nodes) (nodes : Nodes) : List String → Option Nodes
  | [] => change nodes
  | step :: path =>
    match nodes.lookup step with
    | none => (Nodes.update change [] path).map fun sub => nodes.put step (.table .implied sub)
    | some (.table origin sub) =>
      (Nodes.update change sub path).map fun sub => nodes.put step (.table origin sub)
    | some (.tables earlier last) =>
      (Nodes.update change last path).map fun sub => nodes.put step (.tables earlier sub)
    | some (.value _) => none

/-- Adds the section's table under its last key. -/
def Section.addTo (s : Section) (nodes : Nodes) : Option Nodes :=
  match s.isElement, nodes.lookup s.key.last with
  | false, none =>
    (Nodes.assignAll [] s.body).map fun sub => nodes.put s.key.last (.table .header sub)
  | false, some (.table .implied sub) =>
    (Nodes.assignAll sub s.body).map fun sub => nodes.put s.key.last (.table .header sub)
  | true, none =>
    (Nodes.assignAll [] s.body).map fun sub => nodes.put s.key.last (.tables [] sub)
  | true, some (.tables earlier last) =>
    (Nodes.assignAll [] s.body).map fun sub =>
      nodes.put s.key.last (.tables (earlier ++ [last]) sub)
  | _, _ => none

/-- The table that statements describe. -/
def ofStatements? (statements : List Statement) : Option Table := do
  let (top, sections) := sections statements
  let nodes ← Nodes.assignAll [] top
  let nodes ← sections.foldlM (fun nodes s => Nodes.update s.addTo nodes s.key.path) nodes
  return entriesToTable nodes

/-- A byte order mark at the very beginning does not count. -/
def dropMark (cs : List Char) : List Char :=
  match cs with
  | '\uFEFF' :: rest => rest
  | _ => cs

/-- The table that a document describes; `none` if it is not well-formed. -/
def parse? (source : String) : Option Table := do
  let cs := dropMark source.toList
  if hasLoneReturn cs then none
  else ofStatements? (← statements? (cs.length + 1) cs)

end ScriptLint.Toml
