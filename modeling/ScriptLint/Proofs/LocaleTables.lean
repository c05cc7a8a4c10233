import ScriptLint.Proofs.Activation
import ScriptLint.Proofs.Loading

/-! Locale tables are a code for lists of names.

Writing names and reading them gives the names back, whatever follows the table.
What can be read begins with the table of what was read, so a directory has one
table, and a name stands at one index.  Every other table has a leftmost bad
entry, and reading fails with what is wrong with it.

The reader goes through a table in turns, one for each entry.  `readWithin n` is the
reader with at most `n` of them; one turn more than there are NULs is enough
(`readWithin_eq`). -/

namespace ScriptLint.Locale.Directory

/-! ## Turns -/

/-- Reads a table in at most `n` turns; `none` if there is more to read by then. -/
def readWithin : Nat → List String → Bytes → Option (Except Catalog.Error Directory)
  | 0, _, _ => none
  | n + 1, names, table =>
    match table.cutAtNul? with
    | none => some (.error .unterminatedLocaleTable)
    | some ([], _) => some (.ok ⟨names.reverse⟩)
    | some (entry, rest) =>
      match Utf8.decode? entry with
      | none => some (.error (.invalidLocaleName names.length))
      | some name =>
        if names.contains name then some (.error (.duplicateLocale name))
        else readWithin n (name :: names) rest

/-- Each turn takes one NUL off the table. -/
theorem count_of_cutAtNul? {table entry rest : Bytes} (h : table.cutAtNul? = some (entry, rest)) :
    table.count 0 = rest.count 0 + 1 := by
  obtain ⟨rfl, h0⟩ := Bytes.cutAtNul?_eq_some_iff.mp h
  rw [List.count_append, List.count_eq_zero_of_not_mem h0, List.count_cons_self, Nat.zero_add]

theorem readWithin_eq {n : Nat} {names : List String} {table : Bytes} (h : table.count 0 ≤ n) :
    readWithin (n + 1) names table = some (readFrom names table) := by
  fun_induction readFrom names table generalizing n with
  | case1 names table hcut => simp only [readWithin, hcut]
  | case2 names table rest hcut => simp only [readWithin, hcut]
  | case3 names table entry rest hne hcut hdecode => simp only [readWithin, hcut, hdecode]
  | case4 names table entry rest hne hcut name hdecode hold =>
    simp only [readWithin, hcut, hdecode, hold, if_true]
  | case5 names table entry rest hne hcut name hdecode hnew ih =>
    have hcount := count_of_cutAtNul? hcut
    obtain ⟨n, rfl⟩ : ∃ m, n = m + 1 := ⟨n - 1, by omega⟩
    rw [readWithin, hcut]
    simp only [hdecode, hnew, Bool.false_eq_true, if_false]
    exact ih (by omega)

/-! ## Names and indices -/

/-- Where no name is listed twice, looking up a name and reading it off are inverse. -/
theorem find?_eq_some_iff {d : Directory} (h : d.names.Nodup) {name : String} {index : Nat} :
    d.find? name = some index ↔ d.name? index = some name := by
  refine ⟨name?_of_find?, fun hname => ?_⟩
  obtain ⟨hlt, hget⟩ := List.getElem?_eq_some_iff.mp hname
  refine List.idxOf?_eq_some_iff.mpr ⟨hlt, hget, fun j hj hsame => ?_⟩
  exact List.pairwise_iff_getElem.mp h j index (Nat.lt_trans hj hlt) hlt hj (hsame.trans hget.symm)

/-! ## Tables -/

theorem toTable_eq (names : List String) : toTable ⟨names⟩ = closed names ++ [0] := rfl

theorem lists_toTable {names : List String} (h : Listable names) (rest : Bytes) :
    Lists (toTable ⟨names⟩ ++ rest) names :=
  ⟨h, rest, by rw [toTable_eq, List.append_assoc, List.singleton_append]⟩

theorem lists_of_ofTable {table : Bytes} {d : Directory} (h : ofTable table = .ok d) :
    Lists table d.names := by
  rcases lists_or_fault table with ⟨names, hl⟩ | ⟨e, he⟩
  · rw [ofTable_of_lists hl] at h
    cases h
    exact hl
  · rw [ofTable_of_fault he] at h
    cases h

/-! ## Top theorems -/

/-- Locale tables are a code: names that can be listed are read back whatever follows;
what is read back can be listed, and its own table stands in front; every other
table fails with what is wrong with its leftmost bad entry; and reading ends after
at most one turn more than there are NULs. -/
theorem table_code :
    (∀ names, Listable names → ∀ rest, ofTable (toTable ⟨names⟩ ++ rest) = .ok ⟨names⟩) ∧
    (∀ table d, ofTable table = .ok d →
      Listable d.names ∧ d.toTable <+: table ∧
        ∀ name index, d.find? name = some index ↔ d.name? index = some name) ∧
    (∀ table, (∀ d, ofTable table ≠ .ok d) → ∃ e, ofTable table = .error e ∧ TableFault table e) ∧
    (∀ table e, TableFault table e → ofTable table = .error e) ∧
    ∀ table, readWithin (table.count 0 + 1) [] table = some (ofTable table) := by
  refine ⟨fun names h rest => ofTable_of_lists (lists_toTable h rest), ?_, ?_,
    fun _ _ => ofTable_of_fault, fun _ => readWithin_eq (Nat.le_refl _)⟩
  · intro table d h
    obtain ⟨hl, rest, htable⟩ := lists_of_ofTable h
    refine ⟨hl, ⟨rest, ?_⟩, fun _ _ => find?_eq_some_iff hl.nodup⟩
    rw [htable, toTable_eq, List.append_assoc, List.singleton_append]
  · intro table h
    rcases lists_or_fault table with ⟨names, hl⟩ | ⟨e, he⟩
    · exact absurd (ofTable_of_lists hl) (h _)
    · exact ⟨e, ofTable_of_fault he, he⟩

theorem table_code_twoNames :
    ofTable (toTable ⟨["de", "fr"]⟩ ++ [0x64]) = .ok ⟨["de", "fr"]⟩ ∧
    ((⟨["de", "fr"]⟩ : Directory).find? "fr" = some 1 ↔
      (⟨["de", "fr"]⟩ : Directory).name? 1 = some "fr") ∧
    ofTable (toTable ⟨["de", "fr", "de"]⟩) = .error (.duplicateLocale "de") := by
  obtain ⟨hwritten, hread, -, hfault, -⟩ := table_code
  have hlist : Listable ["de", "fr"] := ⟨by decide, by decide, by decide⟩
  have hback := hwritten ["de", "fr"] hlist [0x64]
  have hagain : EntryFault ["de", "fr"] (Bytes.ofString "de" ++ 0 :: [0]) (.duplicateLocale "de") :=
    .duplicate (by decide)
  exact ⟨hback, (hread _ _ hback).2.2 "fr" 1, hfault _ _ ⟨_, _, hlist, rfl, hagain⟩⟩

end ScriptLint.Locale.Directory
