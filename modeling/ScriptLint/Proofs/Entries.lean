import ScriptLint.Proofs.Edits
import ScriptLint.Proofs.WholeLines

/-! Documents as lists of the entries of their top table.

An entry is whole lines about one key: an assignment with a comment above it, say,
or the sections of a table.  Only the order of entries of one key counts, as long as
assignments stay before headers: documents with their entries in different orders
describe the same table, up to the order of its keys (`parse?_reorder`). -/

namespace ScriptLint.Toml

/-- Whole lines about one key of the top table, which can be read by themselves.  The
text is without the end of its last line. -/
structure Entry where
  key : String
  text : List Char
  statements : List Statement
  returns : hasLoneReturn (text ++ ['\n']) = false
  reads : statements? ((text ++ ['\n']).length + 1) (text ++ ['\n']) = some statements
  edited : ∀ e ∈ edits (sections statements), e.key = key

/-- The document that consists of entries. -/
def document (entries : List Entry) : String :=
  String.ofList (entries.flatMap fun e => e.text ++ ['\n'])

/-- No entry assigns a top key behind a header: there its assignments would be about the
header's table. -/
def Ordered (entries : List Entry) : Prop :=
  entries.Pairwise fun a b => (sections a.statements).2 = [] ∨ (sections b.statements).1 = []

/-- The entries of each key stand in the same order. -/
def Reorders (entries entries' : List Entry) : Prop :=
  ∀ key, (entries.filter fun e => e.key = key) = entries'.filter fun e => e.key = key

/-- Where no key has two entries, every order will do. -/
theorem reorders_of_perm {entries entries' : List Entry} (h : entries.Perm entries')
    (hkeys : (entries.map Entry.key).Nodup) : Reorders entries entries' := by
  intro key
  induction h with
  | nil => rfl
  | cons e _ ih => rw [List.filter_cons, List.filter_cons, ih (List.nodup_cons.mp hkeys).2]
  | swap a b rest =>
    have hne : b.key ≠ a.key := fun heq => (List.nodup_cons.mp hkeys).1 (by simp [heq])
    by_cases ha : a.key = key
    · have hb : b.key ≠ key := ha ▸ hne
      simp [ha, hb]
    · simp [List.filter_cons, ha]
  | trans h _ ih ih' => exact (ih hkeys).trans (ih' ((h.map Entry.key).nodup_iff.mp hkeys))

/-! ## The statements of a document -/

theorem reads_document (entries : List Entry) :
    Reads (entries.flatMap fun e => e.text ++ ['\n']) (entries.flatMap Entry.statements) := by
  induction entries with
  | nil => exact .done rfl
  | cons e entries ih =>
    have hfirst := (statements?_eq_some_iff.mp e.reads).1
    have happend := hfirst.append ih
    rwa [List.append_cons] at happend

theorem hasLoneReturn_document (entries : List Entry) :
    hasLoneReturn (entries.flatMap fun e => e.text ++ ['\n']) = false := by
  induction entries with
  | nil => rfl
  | cons e entries ih =>
    rw [List.flatMap_cons, List.append_assoc, List.singleton_append, hasLoneReturn_append,
      e.returns, ih, Bool.false_or]

theorem length_statements_le (entries : List Entry) :
    (entries.flatMap Entry.statements).length ≤
      (entries.flatMap fun e => e.text ++ ['\n']).length := by
  induction entries with
  | nil => exact Nat.le_refl 0
  | cons e entries ih =>
    have hfirst := (statements?_eq_some_iff.mp e.reads).2
    rw [List.flatMap_cons, List.flatMap_cons, List.length_append, List.length_append]
    omega

theorem parse?_document (entries : List Entry) :
    parse? (document entries) = ofStatements? (entries.flatMap Entry.statements) := by
  have hreads := reads_document entries
  have hstatements := statements?_eq_some_iff.mpr
    ⟨hreads, Nat.lt_succ_of_le (length_statements_le entries)⟩
  simp only [parse?, document, String.toList_ofList, dropMark_eq_self hreads,
    hasLoneReturn_document, hstatements]
  rfl

/-! ## Their sections -/

theorem sections_append {first second : List Statement}
    (h : (sections first).2 = [] ∨ (sections second).1 = []) :
    sections (first ++ second) =
      ((sections first).1 ++ (sections second).1, (sections first).2 ++ (sections second).2) := by
  induction first with
  | nil => rfl
  | cons statement first ih =>
    cases statement with
    | assign key v =>
      rw [List.cons_append, sections, ih h]
      rfl
    | table key =>
      have hnone : (sections second).1 = [] := h.resolve_left (List.cons_ne_nil _ _)
      rw [List.cons_append, sections, ih (.inr hnone), hnone]
      simp [sections]
    | element key =>
      have hnone : (sections second).1 = [] := h.resolve_left (List.cons_ne_nil _ _)
      rw [List.cons_append, sections, ih (.inr hnone), hnone]
      simp [sections]

theorem sections_document {entries : List Entry} (h : Ordered entries) :
    sections (entries.flatMap Entry.statements) =
      (entries.flatMap fun e => (sections e.statements).1,
        entries.flatMap fun e => (sections e.statements).2) := by
  induction entries with
  | nil => rfl
  | cons e entries ih =>
    obtain ⟨hfirst, hrest⟩ := List.pairwise_cons.mp h
    have ih := ih hrest
    have hapart : (sections e.statements).2 = [] ∨
        (sections (entries.flatMap Entry.statements)).1 = [] := by
      by_cases hnone : (sections e.statements).2 = []
      · exact .inl hnone
      · rw [ih]
        exact .inr (List.flatMap_eq_nil_iff.mpr fun b hb => (hfirst b hb).resolve_left hnone)
    rw [List.flatMap_cons, sections_append hapart, ih]
    rfl

/-- The edits of a key in a document come from the entries of that key. -/
theorem of_flatMap {entries : List Entry} {part : Entry → List Edit}
    (hpart : ∀ entry, ∀ e ∈ part entry, e.key = entry.key) (key : String) :
    Edit.of key (entries.flatMap part) = (entries.filter fun e => e.key = key).flatMap part := by
  induction entries with
  | nil => rfl
  | cons entry entries ih =>
    rw [List.flatMap_cons, Edit.of_append, ih]
    by_cases hkey : entry.key = key
    · have hall : Edit.of key (part entry) = part entry :=
        List.filter_eq_self.mpr fun e he => by simp [hpart entry e he, hkey]
      rw [hall, List.filter_cons_of_pos (by simpa using hkey), List.flatMap_cons]
    · have hnone : Edit.of key (part entry) = [] :=
        List.filter_eq_nil_iff.mpr fun e he => by simp [hpart entry e he, hkey]
      rw [hnone, List.nil_append, List.filter_cons_of_neg (by simpa using hkey)]

theorem of_edits_document {entries : List Entry} (h : Ordered entries) (key : String) :
    Edit.of key (edits (sections (entries.flatMap Entry.statements))) =
      ((entries.filter fun e => e.key = key).flatMap fun e =>
          (sections e.statements).1.map fun a => Edit.assign a.1 a.2) ++
        (entries.filter fun e => e.key = key).flatMap fun e =>
          (sections e.statements).2.map Edit.addSection := by
  rw [sections_document h, edits, List.map_flatMap, List.map_flatMap, Edit.of_append,
    of_flatMap fun entry e he => entry.edited e (List.mem_append_left _ he),
    of_flatMap fun entry e he => entry.edited e (List.mem_append_right _ he)]

/-- Documents with reordered entries are refused together, and else describe the same
table up to the order of its keys. -/
theorem parse?_reorder {entries entries' : List Entry} (h : Ordered entries)
    (h' : Ordered entries') (hreorder : Reorders entries entries') :
    Option.Rel List.Perm (parse? (document entries)) (parse? (document entries')) := by
  rw [parse?_document, parse?_document]
  refine ofStatements?_reorder fun key => ?_
  rw [of_edits_document h, of_edits_document h', hreorder key]

end ScriptLint.Toml
