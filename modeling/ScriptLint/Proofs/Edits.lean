import Mathlib.Data.List.Nodup
import ScriptLint.Toml.Document

/-! Documents as edits of the keys of their top table.

Every statement at the top of a document, and every section, changes what one key
of the top table holds, and looks at nothing else (`assign_eq_apply`,
`update_eq_apply`).  What a key holds in the end is therefore decided by the edits
of that key alone (`run_cases`), and two documents whose edits agree key by key
describe the same table up to the order of its entries (`ofStatements?_reorder`). -/

namespace ScriptLint.Toml

/-! ## Tables as maps -/

namespace Nodes
variable {nodes nodes' : Nodes} {key : String} {node : Node}

theorem lookup_cons_eq (k k' : String) (n : Node) :
    List.lookup k ((k', n) :: nodes) = if k = k' then some n else nodes.lookup k := by
  by_cases h : k = k'
  · subst h
    simp
  · rw [List.lookup_cons, beq_false_of_ne h, if_neg h]

theorem lookup_put (k : String) :
    (nodes.put key node).lookup k = if k = key then some node else nodes.lookup k := by
  induction nodes with
  | nil => exact lookup_cons_eq k key node
  | cons entry rest ih =>
    obtain ⟨k', n'⟩ := entry
    by_cases hk' : k' = key
    · subst hk'
      rw [put, if_pos rfl, lookup_cons_eq, lookup_cons_eq]
      split <;> rfl
    · rw [put, if_neg hk', lookup_cons_eq, lookup_cons_eq, ih]
      by_cases h : k = k'
      · rw [if_pos h, if_pos h, if_neg (h ▸ hk')]
      · rw [if_neg h, if_neg h]

theorem mem_keys_put {k : String} :
    k ∈ (nodes.put key node).map Prod.fst ↔ k = key ∨ k ∈ nodes.map Prod.fst := by
  induction nodes with
  | nil => simp [put]
  | cons entry rest ih =>
    obtain ⟨k', n'⟩ := entry
    by_cases hk' : k' = key
    · simp [put, hk']
    · rw [put, if_neg hk', List.map_cons, List.map_cons, List.mem_cons, List.mem_cons, ih,
        or_left_comm]

theorem nodup_keys_put (h : (nodes.map Prod.fst).Nodup) :
    ((nodes.put key node).map Prod.fst).Nodup := by
  induction nodes with
  | nil => simp [put]
  | cons entry rest ih =>
    obtain ⟨k', n'⟩ := entry
    obtain ⟨hnot, hrest⟩ := List.nodup_cons.mp h
    by_cases hk' : k' = key
    · subst hk'
      rwa [put, if_pos rfl]
    · rw [put, if_neg hk', List.map_cons]
      refine List.nodup_cons.mpr ⟨fun hmem => ?_, ih hrest⟩
      rcases mem_keys_put.mp hmem with h' | h'
      · exact hk' h'
      · exact hnot h'

theorem mem_iff_lookup (h : (nodes.map Prod.fst).Nodup) {k : String} {n : Node} :
    (k, n) ∈ nodes ↔ nodes.lookup k = some n := by
  induction nodes with
  | nil => simp
  | cons entry rest ih =>
    obtain ⟨k', n'⟩ := entry
    obtain ⟨hnot, hrest⟩ := List.nodup_cons.mp h
    rw [lookup_cons_eq, List.mem_cons, ih hrest]
    by_cases hk : k = k'
    · subst hk
      have habsent : List.lookup k rest ≠ some n := fun hmem =>
        hnot (List.mem_map.mpr ⟨(k, n), (ih hrest).mpr hmem, rfl⟩)
      simp [habsent, eq_comm]
    · simp [hk]

theorem perm_of_lookup (h : (nodes.map Prod.fst).Nodup) (h' : (nodes'.map Prod.fst).Nodup)
    (heq : ∀ k, nodes.lookup k = nodes'.lookup k) : nodes.Perm nodes' := by
  refine (List.perm_ext_iff_of_nodup (List.Nodup.of_map _ h) (List.Nodup.of_map _ h')).mpr ?_
  rintro ⟨k, n⟩
  rw [mem_iff_lookup h, mem_iff_lookup h', heq]

end Nodes

theorem entriesToTable_eq_map (nodes : Nodes) :
    entriesToTable nodes = nodes.map fun entry => (entry.1, entry.2.toValue) := by
  induction nodes with
  | nil => rw [entriesToTable, List.map_nil]
  | cons entry rest ih =>
    obtain ⟨k, n⟩ := entry
    rw [entriesToTable, ih, List.map_cons]

/-! ## Edits -/

/-- A change of what one key holds, decided by what it held; `none` refuses it. -/
structure Edit where
  key : String
  change : Option Node → Option Node

namespace Edit

def apply (e : Edit) (nodes : Nodes) : Option Nodes :=
  (e.change (nodes.lookup e.key)).map (nodes.put e.key)

/-- Makes edits in order, up to the first that is refused. -/
def run (nodes : Nodes) (edits : List Edit) : Option Nodes :=
  edits.foldlM (fun nodes e => e.apply nodes) nodes

/-- What one key holds after edits of it. -/
def result (held : Option Node) (edits : List Edit) : Option (Option Node) :=
  edits.foldlM (fun held e => (e.change held).map some) held

/-- The edits of one key. -/
def of (key : String) (edits : List Edit) : List Edit :=
  edits.filter fun e => e.key = key

variable {nodes nodes' : Nodes} {edits edits' : List Edit}

theorem run_cons (e : Edit) : run nodes (e :: edits) = (e.apply nodes).bind (run · edits) := by
  simp only [run, List.foldlM_cons]
  rfl

theorem result_cons (e : Edit) (held : Option Node) :
    result held (e :: edits) = (e.change held).bind fun node => result (some node) edits := by
  simp only [result, List.foldlM_cons]
  cases e.change held <;> rfl

theorem run_append : run nodes (edits ++ edits') = (run nodes edits).bind (run · edits') := by
  simp only [run, List.foldlM_append]
  rfl

theorem of_append (key : String) : of key (edits ++ edits') = of key edits ++ of key edits' :=
  List.filter_append ..

/-- What a run does to each key is what the edits of that key do, and the run is
refused when some key refuses. -/
theorem run_cases (nodes : Nodes) (edits : List Edit) :
    match run nodes edits with
    | some after => ∀ k, result (nodes.lookup k) (of k edits) = some (after.lookup k)
    | none => ∃ k, result (nodes.lookup k) (of k edits) = none := by
  induction edits generalizing nodes with
  | nil =>
    intro k
    rfl
  | cons e edits ih =>
    rw [run_cons, apply]
    cases hchange : e.change (nodes.lookup e.key) with
    | none =>
      refine ⟨e.key, ?_⟩
      rw [of, List.filter_cons_of_pos (by simp), result_cons, hchange]
      rfl
    | some node =>
      -- the first edit shows in the other edits of its key, and in no other key
      have hstep : ∀ k, result (nodes.lookup k) (of k (e :: edits)) =
          result ((nodes.put e.key node).lookup k) (of k edits) := by
        intro k
        rw [Nodes.lookup_put]
        by_cases hk : k = e.key
        · subst hk
          rw [of, List.filter_cons_of_pos (by simp), result_cons, hchange, if_pos rfl]
          rfl
        · rw [of, List.filter_cons_of_neg (by simpa using Ne.symm hk), if_neg hk]
          rfl
      simp only [Option.map_some, Option.bind_some, hstep]
      exact ih _

theorem nodup_keys_run (nodes : Nodes) {after : Nodes} (h : (nodes.map Prod.fst).Nodup)
    (hrun : run nodes edits = some after) : (after.map Prod.fst).Nodup := by
  induction edits generalizing nodes with
  | nil =>
    cases hrun
    exact h
  | cons e edits ih =>
    rw [run_cons] at hrun
    obtain ⟨next, hnext, hrest⟩ := Option.bind_eq_some_iff.mp hrun
    obtain ⟨node, -, rfl⟩ := Option.map_eq_some_iff.mp hnext
    exact ih _ (Nodes.nodup_keys_put h) hrest

/-- Edits that agree key by key are refused together, and else make the same table up to
the order of its keys. -/
theorem run_reorder (h : ∀ k, of k edits = of k edits') :
    Option.Rel List.Perm (run [] edits) (run [] edits') := by
  have hrun := run_cases [] edits
  have hrun' := run_cases [] edits'
  cases hafter : run [] edits with
  | none =>
    cases hafter' : run [] edits' with
    | none => exact .none
    | some after' =>
      rw [hafter] at hrun
      rw [hafter'] at hrun'
      obtain ⟨k, hk⟩ := hrun
      rw [h k, hrun' k] at hk
      cases hk
  | some after =>
    cases hafter' : run [] edits' with
    | none =>
      rw [hafter] at hrun
      rw [hafter'] at hrun'
      obtain ⟨k, hk⟩ := hrun'
      rw [← h k, hrun k] at hk
      cases hk
    | some after' =>
      rw [hafter] at hrun
      rw [hafter'] at hrun'
      refine .some (Nodes.perm_of_lookup (nodup_keys_run [] List.nodup_nil hafter)
        (nodup_keys_run [] List.nodup_nil hafter') fun k => ?_)
      have hk := hrun k
      rw [h k, hrun' k] at hk
      exact (Option.some.inj hk).symm

end Edit

/-! ## Statements as edits -/

/-- The key of the top table that a dotted key goes through. -/
def Key.top (key : Key) : String :=
  key.path.headD key.last

/-- The edit of an assignment at the top. -/
def Edit.assign (key : Key) (v : Value) : Edit where
  key := key.top
  change held :=
    match key.path, held with
    | [], none => some (.value v)
    | [], some _ => none
    | _ :: path, none => (Nodes.assign true [] path key.last v).map (.table .dotted)
    | _ :: _, some (.table .header _) => none
    | _ :: path, some (.table .implied sub) =>
      (Nodes.assign false sub path key.last v).map (.table .implied)
    | _ :: path, some (.table .dotted sub) =>
      (Nodes.assign true sub path key.last v).map (.table .dotted)
    | _ :: path, some (.tables earlier last) =>
      (Nodes.assign false last path key.last v).map (.tables earlier)
    | _ :: _, some (.value _) => none

theorem Nodes.assign_eq_apply (nodes : Nodes) (key : Key) (v : Value) :
    nodes.assign true key.path key.last v = (Edit.assign key v).apply nodes := by
  obtain ⟨path, last⟩ := key
  cases path with
  | nil =>
    simp only [Nodes.assign, Edit.apply, Edit.assign, Key.top, List.headD_nil]
    cases nodes.lookup last <;> simp
  | cons step path =>
    simp only [Nodes.assign, Edit.apply, Edit.assign, Key.top, List.headD_cons]
    rcases nodes.lookup step with _ | _ | ⟨_ | _ | _, _⟩ | _ <;> simp [Function.comp_def]

/-- The edit of a section. -/
def Edit.addSection (s : Section) : Edit where
  key := s.key.top
  change held :=
    match s.key.path, held with
    | [], held =>
      match s.isElement, held with
      | false, none => (Nodes.assignAll [] s.body).map (.table .header)
      | false, some (.table .implied sub) => (Nodes.assignAll sub s.body).map (.table .header)
      | true, none => (Nodes.assignAll [] s.body).map (.tables [])
      | true, some (.tables earlier last) =>
        (Nodes.assignAll [] s.body).map (.tables (earlier ++ [last]))
      | _, _ => none
    | _ :: path, none => (Nodes.update s.addTo [] path).map (.table .implied)
    | _ :: path, some (.table origin sub) => (Nodes.update s.addTo sub path).map (.table origin)
    | _ :: path, some (.tables earlier last) =>
      (Nodes.update s.addTo last path).map (.tables earlier)
    | _ :: _, some (.value _) => none

theorem Nodes.update_eq_apply (nodes : Nodes) (s : Section) :
    Nodes.update s.addTo nodes s.key.path = (Edit.addSection s).apply nodes := by
  obtain ⟨⟨path, last⟩, isElement, body⟩ := s
  cases path with
  | nil =>
    simp only [Nodes.update, Section.addTo, Edit.apply, Edit.addSection, Key.top, List.headD_nil]
    cases isElement <;>
      rcases nodes.lookup last with _ | _ | ⟨_ | _ | _, _⟩ | _ <;> simp [Function.comp_def]
  | cons step path =>
    simp only [Nodes.update, Edit.apply, Edit.addSection, Key.top, List.headD_cons]
    rcases nodes.lookup step with _ | _ | _ | _ <;> simp [Function.comp_def]

/-- The edits of statements divided into sections. -/
def edits (divided : List (Key × Value) × List Section) : List Edit :=
  divided.1.map (fun a => .assign a.1 a.2) ++ divided.2.map .addSection

theorem ofStatements?_eq_run (statements : List Statement) :
    ofStatements? statements = (Edit.run [] (edits (sections statements))).map entriesToTable := by
  have htop : ∀ nodes assignments, Nodes.assignAll nodes assignments =
      Edit.run nodes (assignments.map fun a => .assign a.1 a.2) := by
    intro nodes assignments
    simp only [Nodes.assignAll, Edit.run, List.foldlM_map, Nodes.assign_eq_apply]
  have hsections : ∀ (nodes : Nodes) (sections : List Section),
      sections.foldlM (fun nodes s => Nodes.update s.addTo nodes s.key.path) nodes =
        Edit.run nodes (sections.map .addSection) := by
    intro nodes sections
    simp only [Edit.run, List.foldlM_map, Nodes.update_eq_apply]
  simp only [ofStatements?, htop, hsections, edits, Edit.run_append]
  cases Edit.run [] ((sections statements).1.map fun a => .assign a.1 a.2) with
  | none => rfl
  | some nodes => exact Option.map_eq_bind.symm

theorem nodup_keys_ofStatements? {statements : List Statement} {table : Table}
    (h : ofStatements? statements = some table) : (table.map Prod.fst).Nodup := by
  rw [ofStatements?_eq_run] at h
  obtain ⟨nodes, hrun, rfl⟩ := Option.map_eq_some_iff.mp h
  rw [entriesToTable_eq_map, List.map_map]
  exact Edit.nodup_keys_run [] List.nodup_nil hrun

theorem nodup_keys_parse? {source : String} {table : Table} (h : parse? source = some table) :
    (table.map Prod.fst).Nodup := by
  simp only [parse?] at h
  split at h
  · cases h
  · obtain ⟨statements, -, htable⟩ := Option.bind_eq_some_iff.mp h
    exact nodup_keys_ofStatements? htable

/-- Statements whose edits agree key by key are refused together, and else describe the
same table up to the order of its keys. -/
theorem ofStatements?_reorder {statements statements' : List Statement}
    (h : ∀ k, Edit.of k (edits (sections statements)) = Edit.of k (edits (sections statements'))) :
    Option.Rel List.Perm (ofStatements? statements) (ofStatements? statements') := by
  have hrun := Edit.run_reorder h
  rw [ofStatements?_eq_run, ofStatements?_eq_run]
  generalize Edit.run [] (edits (sections statements)) = after at hrun
  generalize Edit.run [] (edits (sections statements')) = after' at hrun
  cases hrun with
  | none => exact .none
  | some hperm =>
    simp only [Option.map_some, entriesToTable_eq_map]
    exact .some (hperm.map _)

end ScriptLint.Toml
