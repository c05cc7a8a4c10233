import ScriptLint.Config
import ScriptLint.Proofs.Entries
import ScriptLint.Proofs.Utf8
import ScriptLint.Proofs.Verdicts

/-! Which configurations fit.

Each key of a table fits or not for itself (`Fits`, `Misfit`).  A table is accepted
when all its keys fit, and refused for the misfit whose key comes first in the order
of bytes, wherever it stands in the table (`ofTable_eq_error_iff`).  The order of the
entries thus makes no difference, neither in a table nor in its source. -/

namespace ScriptLint

/-! ## First faults -/

section
variable {ε α : Type} {Good : α → Prop} {Fault : α → ε → Prop} {l : List α} {e : ε}

theorem firstOf_cons_iff {x : α} :
    FirstOf Good Fault (x :: l) e ↔ Fault x e ∨ Good x ∧ FirstOf Good Fault l e := by
  constructor
  · rintro ⟨before, y, after, heq, hgood, hfault⟩
    cases before with
    | nil =>
      cases heq
      exact .inl hfault
    | cons b before =>
      cases heq
      obtain ⟨hx, hbefore⟩ := List.forall_mem_cons.mp hgood
      exact .inr ⟨hx, before, y, after, rfl, hbefore, hfault⟩
  · rintro (hfault | ⟨hx, before, y, after, rfl, hgood, hfault⟩)
    · exact ⟨[], x, l, rfl, nofun, hfault⟩
    · exact ⟨x :: before, y, after, rfl, List.forall_mem_cons.mpr ⟨hx, hgood⟩, hfault⟩

/-- In a sorted list the first fault is the least. -/
theorem firstOf_sorted_iff {lt : α → α → Prop} (hsorted : l.Pairwise lt)
    (hasymm : ∀ x y, lt x y → ¬ lt y x) :
    FirstOf Good Fault l e ↔ ∃ x ∈ l, Fault x e ∧ ∀ y ∈ l, lt y x → Good y := by
  constructor
  · rintro ⟨before, x, after, rfl, hgood, hfault⟩
    refine ⟨x, by simp, hfault, fun y hy hlt => ?_⟩
    obtain ⟨-, hafter, -⟩ := List.pairwise_append.mp hsorted
    rcases List.mem_append.mp hy with hy | hy
    · exact hgood y hy
    rcases List.mem_cons.mp hy with rfl | hy
    · exact absurd hlt (hasymm y y hlt)
    · exact absurd hlt (hasymm x y ((List.pairwise_cons.mp hafter).1 y hy))
  · rintro ⟨x, hx, hfault, hgood⟩
    obtain ⟨before, after, rfl⟩ := List.append_of_mem hx
    obtain ⟨-, -, hbefore⟩ := List.pairwise_append.mp hsorted
    refine ⟨before, x, after, rfl, fun y hy => ?_, hfault⟩
    exact hgood y (List.mem_append_left _ hy) (hbefore y hy x List.mem_cons_self)

end

namespace Config

/-! ## Which entries fit -/

/-- The declared shape: a text, and a list of texts. -/
inductive Fits : String → Toml.Value → Prop
  | locale (s : String) : Fits "locale" (.string s)
  | locales (ss : List String) : Fits "locales" (.array (ss.map .string))

/-- What is said of a value that is not of the expected type.  A number that is out of
range has no name. -/
inductive WrongType (expected : String) : Toml.Value → Error → Prop
  | named {v : Toml.Value} {name : String} (h : v.name? = some name) :
    WrongType expected v (.misfit s!"invalid type: {name}, expected {expected}")
  | nameless {v : Toml.Value} (h : v.name? = none) : WrongType expected v .malformed

/-- What is said of an entry that does not fit; of a list, about its first item that is
no text. -/
inductive Misfit : String → Toml.Value → Error → Prop
  | unknown {key : String} {v : Toml.Value} (h : key ≠ "locale") (h' : key ≠ "locales") :
    Misfit key v (.misfit s!"unknown field `{key}`, expected `locale` or `locales`")
  | locale {v : Toml.Value} {e : Error} (h : ∀ s, v ≠ .string s) (he : WrongType "a string" v e) :
    Misfit "locale" v e
  | locales {v : Toml.Value} {e : Error} (h : ∀ items, v ≠ .array items)
    (he : WrongType "a sequence" v e) : Misfit "locales" v e
  | item {ss : List String} {v : Toml.Value} {rest : List Toml.Value} {e : Error}
    (h : ∀ s, v ≠ .string s) (he : WrongType "a string" v e) :
    Misfit "locales" (.array (ss.map .string ++ v :: rest)) e

theorem Fits.exists_text {v : Toml.Value} (h : Fits "locale" v) : ∃ s, v = .string s := by
  generalize hkey : "locale" = key at h
  cases h with
  | locale s => exact ⟨s, rfl⟩
  | locales ss => exact absurd hkey (by decide)

theorem Fits.exists_texts {v : Toml.Value} (h : Fits "locales" v) :
    ∃ ss : List String, v = .array (ss.map .string) := by
  generalize hkey : "locales" = key at h
  cases h with
  | locale s => exact absurd hkey (by decide)
  | locales ss => exact ⟨ss, rfl⟩

theorem wrongType_iff {v : Toml.Value} {expected : String} {e : Error} :
    WrongType expected v e ↔ Error.wrongType v expected = e := by
  constructor
  · rintro (h | h)
    · simp [Error.wrongType, Toml.Value.wrongType?, h]
    · simp [Error.wrongType, Toml.Value.wrongType?, h]
  · rintro rfl
    cases h : v.name? with
    | none =>
      simp only [Error.wrongType, Toml.Value.wrongType?, h]
      exact .nameless h
    | some name =>
      simp only [Error.wrongType, Toml.Value.wrongType?, h]
      exact .named h

theorem textItems_texts (ss : List String) : textItems (ss.map .string) = .ok ss := by
  induction ss with
  | nil => rfl
  | cons s ss ih => rw [List.map_cons, textItems, ih]

theorem textItems_item {ss : List String} {v : Toml.Value} {rest : List Toml.Value}
    (h : ∀ s, v ≠ .string s) :
    textItems (ss.map .string ++ v :: rest) = .error (.wrongType v "a string") := by
  induction ss with
  | nil =>
    cases v with
    | string s => exact absurd rfl (h s)
    | _ => rfl
  | cons s ss ih => rw [List.map_cons, List.cons_append, textItems, ih]

/-- The items of a list are all texts, or there is a first one that is not. -/
theorem texts_or_item (items : List Toml.Value) :
    (∃ ss : List String, items = ss.map .string) ∨
      ∃ (ss : List String) (v : Toml.Value) (rest : List Toml.Value),
        items = ss.map .string ++ v :: rest ∧ ∀ s, v ≠ .string s := by
  induction items with
  | nil => exact .inl ⟨[], rfl⟩
  | cons item items ih =>
    by_cases hitem : ∃ s, item = .string s
    · obtain ⟨s, rfl⟩ := hitem
      rcases ih with ⟨ss, rfl⟩ | ⟨ss, v, rest, rfl, hv⟩
      · exact .inl ⟨s :: ss, rfl⟩
      · exact .inr ⟨s :: ss, v, rest, rfl, hv⟩
    · exact .inr ⟨[], item, items, rfl, fun s hs => hitem ⟨s, hs⟩⟩

theorem addEntry_locale (c : Config) (s : String) :
    c.addEntry "locale" (.string s) = .ok { c with locale := some s } := rfl

theorem addEntry_locales (c : Config) (ss : List String) :
    c.addEntry "locales" (.array (ss.map .string)) = .ok { c with locales := ss } := by
  simp [addEntry, textItems_texts]

theorem addEntry_of_misfit {c : Config} {key : String} {v : Toml.Value} {e : Error}
    (h : Misfit key v e) : c.addEntry key v = .error e := by
  cases h with
  | unknown h h' =>
    unfold addEntry
    rw [if_neg h, if_neg h']
  | locale h he =>
    obtain rfl := wrongType_iff.mp he
    cases v with
    | string s => exact absurd rfl (h s)
    | _ => rfl
  | locales h he =>
    obtain rfl := wrongType_iff.mp he
    cases v with
    | array items => exact absurd rfl (h items)
    | _ => rfl
  | item h he =>
    obtain rfl := wrongType_iff.mp he
    simp [addEntry, textItems_item h]

theorem fits_or_misfit (key : String) (v : Toml.Value) : Fits key v ∨ ∃ e, Misfit key v e := by
  by_cases hlocale : key = "locale"
  · subst hlocale
    by_cases hv : ∃ s, v = .string s
    · obtain ⟨s, rfl⟩ := hv
      exact .inl (.locale s)
    · exact .inr ⟨_, .locale (fun s hs => hv ⟨s, hs⟩) (wrongType_iff.mpr rfl)⟩
  by_cases hlocales : key = "locales"
  · subst hlocales
    by_cases hv : ∃ items, v = .array items
    · obtain ⟨items, rfl⟩ := hv
      rcases texts_or_item items with ⟨ss, rfl⟩ | ⟨ss, item, rest, rfl, hitem⟩
      · exact .inl (.locales ss)
      · exact .inr ⟨_, .item hitem (wrongType_iff.mpr rfl)⟩
    · exact .inr ⟨_, .locales (fun items hs => hv ⟨items, hs⟩) (wrongType_iff.mpr rfl)⟩
  · exact .inr ⟨_, .unknown hlocale hlocales⟩

theorem judges_addEntry (c : Config) (key : String) (v : Toml.Value) :
    Judges (c.addEntry key v) (Fits key v) (Misfit key v) := by
  refine judges_of_total ?_ (fun e => addEntry_of_misfit) (fits_or_misfit key v)
  rintro (s | ss)
  · exact ⟨_, addEntry_locale c s⟩
  · exact ⟨_, addEntry_locales c ss⟩

theorem judges_addEntries (c : Config) (table : Toml.Table) :
    Judges (c.addEntries table) (∀ entry ∈ table, Fits entry.1 entry.2)
      (FirstOf (fun entry => Fits entry.1 entry.2) (fun entry => Misfit entry.1 entry.2)
        table) := by
  induction table generalizing c with
  | nil =>
    refine judges_of_total (fun _ => ⟨c, rfl⟩) ?_ (.inl nofun)
    rintro e ⟨before, x, after, heq, -⟩
    exact absurd heq (by simp)
  | cons entry table ih =>
    obtain ⟨key, v⟩ := entry
    refine ((judges_addEntry c key v).andThen (fun c _ => ih c) ?_ ?_).congr
      List.forall_mem_cons fun e => firstOf_cons_iff
    · intro e he
      rw [addEntries, he]
    · intro c' hc'
      rw [addEntries, hc']

/-! ## What an accepted table holds -/

/-- The fields hold what the table has for them, and what they held where it has nothing. -/
structure Holds (before : Config) (table : Toml.Table) (c : Config) : Prop where
  locale : ∀ s, ("locale", .string s) ∈ table → c.locale = some s
  noLocale : "locale" ∉ table.map Prod.fst → c.locale = before.locale
  locales : ∀ ss : List String, ("locales", .array (ss.map .string)) ∈ table → c.locales = ss
  noLocales : "locales" ∉ table.map Prod.fst → c.locales = before.locales

theorem map_string_inj {ss ss' : List String}
    (h : ss.map Toml.Value.string = ss'.map Toml.Value.string) : ss = ss' :=
  List.map_injective_iff.mpr (fun _ _ => Toml.Value.string.inj) h

theorem Holds.addEntry {before c : Config} {key : String} {v : Toml.Value} {table : Toml.Table}
    (hfits : Fits key v) (hkey : key ∉ table.map Prod.fst)
    {next : Config} (hnext : before.addEntry key v = .ok next) (h : Holds next table c) :
    Holds before ((key, v) :: table) c := by
  cases hfits with
  | locale s =>
    cases hnext
    refine ⟨fun s' hs' => ?_, fun hno => absurd List.mem_cons_self hno, fun ss hss => ?_,
      fun hno => h.noLocales fun hmem => hno (List.mem_cons_of_mem _ hmem)⟩
    · rcases List.mem_cons.mp hs' with heq | hmem
      · cases heq
        exact h.noLocale hkey
      · exact h.locale s' hmem
    · rcases List.mem_cons.mp hss with heq | hmem
      · simp at heq
      · exact h.locales ss hmem
  | locales ss =>
    rw [addEntry_locales] at hnext
    cases hnext
    refine ⟨fun s hs => ?_, fun hno => h.noLocale fun hmem => hno (List.mem_cons_of_mem _ hmem),
      fun ss' hss' => ?_, fun hno => absurd List.mem_cons_self hno⟩
    · rcases List.mem_cons.mp hs with heq | hmem
      · simp at heq
      · exact h.locale s hmem
    · rcases List.mem_cons.mp hss' with heq | hmem
      · have hitems := Toml.Value.array.inj (congrArg Prod.snd heq)
        rw [map_string_inj hitems]
        exact h.noLocales hkey
      · exact h.locales ss' hmem

theorem holds_addEntries {before c : Config} {table : Toml.Table}
    (hkeys : (table.map Prod.fst).Nodup) (h : before.addEntries table = .ok c) :
    Holds before table c := by
  induction table generalizing before with
  | nil =>
    cases h
    exact ⟨nofun, fun _ => rfl, nofun, fun _ => rfl⟩
  | cons entry table ih =>
    obtain ⟨key, v⟩ := entry
    obtain ⟨hkey, hkeys⟩ := List.nodup_cons.mp hkeys
    cases hnext : before.addEntry key v with
    | error e =>
      rw [addEntries, hnext] at h
      cases h
    | ok next =>
      rw [addEntries, hnext] at h
      exact (ih hkeys h).addEntry ((judges_addEntry before key v).1.mp ⟨next, hnext⟩) hkey hnext

/-- A table that fits decides what the configuration is. -/
theorem Holds.unique {before c c' : Config} {table : Toml.Table}
    (hfits : ∀ entry ∈ table, Fits entry.1 entry.2) (h : Holds before table c)
    (h' : Holds before table c') : c = c' := by
  have hlocale : c.locale = c'.locale := by
    by_cases hmem : "locale" ∈ table.map Prod.fst
    · obtain ⟨⟨key, v⟩, hentry, rfl⟩ := List.mem_map.mp hmem
      obtain ⟨s, rfl⟩ := (hfits _ hentry).exists_text
      rw [h.locale s hentry, h'.locale s hentry]
    · rw [h.noLocale hmem, h'.noLocale hmem]
  have hlocales : c.locales = c'.locales := by
    by_cases hmem : "locales" ∈ table.map Prod.fst
    · obtain ⟨⟨key, v⟩, hentry, rfl⟩ := List.mem_map.mp hmem
      obtain ⟨ss, rfl⟩ := (hfits _ hentry).exists_texts
      rw [h.locales ss hentry, h'.locales ss hentry]
    · rw [h.noLocales hmem, h'.noLocales hmem]
  cases c
  cases c'
  cases hlocale
  cases hlocales
  rfl

/-! ## In the order of keys -/

theorem byKey_perm (table : Toml.Table) : (byKey table).Perm table :=
  List.mergeSort_perm table _

theorem byKey_sorted {table : Toml.Table} (hkeys : (table.map Prod.fst).Nodup) :
    (byKey table).Pairwise fun a b => Bytes.ofString a.1 < Bytes.ofString b.1 := by
  have hsorted : (byKey table).Pairwise fun a b => Bytes.ofString a.1 ≤ Bytes.ofString b.1 := by
    refine (List.pairwise_mergeSort ?_ ?_ table).imp of_decide_eq_true
    · intro a b c hab hbc
      exact decide_eq_true (List.le_trans (of_decide_eq_true hab) (of_decide_eq_true hbc))
    · intro a b
      rw [Bool.or_eq_true, decide_eq_true_eq, decide_eq_true_eq]
      exact List.le_total _ _
  have hdistinct : (byKey table).Pairwise fun a b => a.1 ≠ b.1 :=
    List.pairwise_map.mp (((byKey_perm table).map Prod.fst).nodup_iff.mpr hkeys)
  refine (hsorted.and hdistinct).imp fun {a b} hab => ?_
  have hne : Bytes.ofString a.1 ≠ Bytes.ofString b.1 := fun heq => hab.2 (Bytes.ofString_inj heq)
  exact Std.lt_of_le_of_ne hab.1 hne

theorem byKey_eq_of_perm {table table' : Toml.Table} (hkeys : (table.map Prod.fst).Nodup)
    (h : table.Perm table') : byKey table = byKey table' := by
  have hkeys' := (h.map Prod.fst).nodup_iff.mp hkeys
  have hperm := ((byKey_perm table).trans h).trans (byKey_perm table').symm
  refine hperm.eq_of_pairwise ?_ (byKey_sorted hkeys) (byKey_sorted hkeys')
  intro a b _ _ hab hba
  exact absurd hba (List.lt_asymm hab)

theorem fits_byKey_iff (table : Toml.Table) :
    (∀ entry ∈ byKey table, Fits entry.1 entry.2) ↔ ∀ entry ∈ table, Fits entry.1 entry.2 := by
  simp only [(byKey_perm table).mem_iff]

theorem holds_byKey_iff {before c : Config} (table : Toml.Table) :
    Holds before (byKey table) c ↔ Holds before table c := by
  have hmem : ∀ entry, entry ∈ byKey table ↔ entry ∈ table := fun _ => (byKey_perm table).mem_iff
  have hkey : ∀ key, key ∈ (byKey table).map Prod.fst ↔ key ∈ table.map Prod.fst := fun _ =>
    ((byKey_perm table).map Prod.fst).mem_iff
  constructor
  · rintro ⟨h₁, h₂, h₃, h₄⟩
    simp only [hmem, hkey] at h₁ h₂ h₃ h₄
    exact ⟨h₁, h₂, h₃, h₄⟩
  · rintro ⟨h₁, h₂, h₃, h₄⟩
    refine ⟨?_, ?_, ?_, ?_⟩ <;> simpa only [hmem, hkey]

section
variable {table : Toml.Table} (hkeys : (table.map Prod.fst).Nodup)
include hkeys

theorem ofTable_eq_ok_iff (c : Config) :
    ofTable table = .ok c ↔
      (∀ entry ∈ table, Fits entry.1 entry.2) ∧ Holds ⟨none, []⟩ table c := by
  have hjudges := judges_addEntries ⟨none, []⟩ (byKey table)
  have hnodup := ((byKey_perm table).map Prod.fst).nodup_iff.mpr hkeys
  rw [← fits_byKey_iff, ← holds_byKey_iff]
  constructor
  · intro h
    exact ⟨hjudges.1.mp ⟨c, h⟩, holds_addEntries hnodup h⟩
  · rintro ⟨hfits, hholds⟩
    obtain ⟨c', hc'⟩ := hjudges.1.mpr hfits
    rw [hholds.unique hfits (holds_addEntries hnodup hc')]
    exact hc'

theorem ofTable_eq_error_iff (e : Error) :
    ofTable table = .error e ↔
      ∃ entry ∈ table, Misfit entry.1 entry.2 e ∧
        ∀ other ∈ table, Bytes.ofString other.1 < Bytes.ofString entry.1 →
          Fits other.1 other.2 := by
  have hfirst := (judges_addEntries ⟨none, []⟩ (byKey table)).2 e
  rw [firstOf_sorted_iff (byKey_sorted hkeys) fun _ _ => List.lt_asymm] at hfirst
  simp only [(byKey_perm table).mem_iff] at hfirst
  exact hfirst

theorem ofTable_eq_of_perm {table' : Toml.Table} (h : table.Perm table') :
    ofTable table = ofTable table' := by
  rw [ofTable, ofTable, byKey_eq_of_perm hkeys h]

end

theorem parse_reorder {entries entries' : List Toml.Entry} (h : Toml.Ordered entries)
    (h' : Toml.Ordered entries') (hreorder : Toml.Reorders entries entries') :
    parse (Toml.document entries) = parse (Toml.document entries') := by
  have htables := Toml.parse?_reorder h h' hreorder
  unfold parse
  cases htable : Toml.parse? (Toml.document entries) with
  | none =>
    rw [htable] at htables
    generalize Toml.parse? (Toml.document entries') = table' at htables
    cases htables
    rfl
  | some table =>
    rw [htable] at htables
    generalize Toml.parse? (Toml.document entries') = table' at htables
    cases htables with
    | some hperm => exact ofTable_eq_of_perm (Toml.nodup_keys_parse? htable) hperm

/-! ## Top theorem -/

/-- A table is accepted exactly when it has the declared shape, and the configuration
then holds its values; else the complaint is that of the least key that does not fit.
So the order of entries does not matter: not in the table, and not in the source, whose
keys are distinct once it is read, nor for the locale that is chosen in the end. -/
theorem fits_in_any_order :
    (∀ table : Toml.Table, (table.map Prod.fst).Nodup →
      ((∃ c, ofTable table = .ok c) ↔ ∀ entry ∈ table, Fits entry.1 entry.2) ∧
      (∀ c, ofTable table = .ok c ↔
        (∀ entry ∈ table, Fits entry.1 entry.2) ∧ Holds ⟨none, []⟩ table c) ∧
      (∀ e, ofTable table = .error e ↔
        ∃ entry ∈ table, Misfit entry.1 entry.2 e ∧
          ∀ other ∈ table, Bytes.ofString other.1 < Bytes.ofString entry.1 →
            Fits other.1 other.2) ∧
      ∀ table', table.Perm table' → ofTable table' = ofTable table) ∧
    (∀ source, match Toml.parse? source with
      | none => parse source = .error .malformed
      | some table => (table.map Prod.fst).Nodup ∧ parse source = ofTable table) ∧
    ∀ entries entries' : List Toml.Entry, Toml.Ordered entries → Toml.Ordered entries' →
      Toml.Reorders entries entries' →
      parse (Toml.document entries) = parse (Toml.document entries') ∧
      ∀ explicit t, (parse (Toml.document entries)).map (·.resolve explicit t) =
        (parse (Toml.document entries')).map (·.resolve explicit t) := by
  refine ⟨fun table hkeys =>
    ⟨?_, ofTable_eq_ok_iff hkeys, ofTable_eq_error_iff hkeys, ?_⟩, fun source => ?_, ?_⟩
  · exact (judges_addEntries _ _).1.trans (fits_byKey_iff table)
  · intro table' h
    exact (ofTable_eq_of_perm hkeys h).symm
  · cases htable : Toml.parse? source with
    | none => simp only [parse, htable]
    | some table => exact ⟨Toml.nodup_keys_parse? htable, by simp only [parse, htable]⟩
  · intro entries entries' h h' hreorder
    have hparse := parse_reorder h h' hreorder
    exact ⟨hparse, fun explicit t => by rw [hparse]⟩

/-- A preferred locale, below a comment. -/
def preferredEntry : Toml.Entry where
  key := "locale"
  text := "# ours\nlocale = 'pt-BR'".toList
  statements := [.assign ⟨[], "locale"⟩ (.string "pt-BR")]
  returns := rfl
  reads := rfl
  edited := by simp [Toml.edits, Toml.sections, Toml.Edit.assign, Toml.Key.top]

/-- A list over several lines, whose second item is no text. -/
def listEntry : Toml.Entry where
  key := "locales"
  text := "locales = [\n  'de', # first\n  7,\n]".toList
  statements := [.assign ⟨[], "locales"⟩ (.array [.string "de", .integer 7])]
  returns := rfl
  reads := rfl
  edited := by simp [Toml.edits, Toml.sections, Toml.Edit.assign, Toml.Key.top]

/-- A table of an unknown key, with a header. -/
def foreignEntry : Toml.Entry where
  key := "zone"
  text := "[zone.inner]\nx = true".toList
  statements := [.table ⟨["zone"], "inner"⟩, .assign ⟨[], "x"⟩ (.boolean true)]
  returns := rfl
  reads := rfl
  edited := by simp [Toml.edits, Toml.sections, Toml.Edit.addSection, Toml.Key.top]

/-- The table of the three entries, in reverse. -/
def misfitting : Toml.Table :=
  [("zone", .table [("inner", .table [("x", .boolean true)])]),
    ("locales", .array [.string "de", .integer 7]), ("locale", .string "pt-BR")]

/-- Two keys do not fit, and the list comes first in the order of bytes. -/
theorem fits_in_any_order_twoMisfits :
    (misfitting.map Prod.fst).Nodup ∧
    ofTable misfitting = .error (.misfit "invalid type: integer `7`, expected a string") ∧
    ofTable misfitting.reverse = ofTable misfitting ∧
    Toml.Reorders [preferredEntry, listEntry, foreignEntry]
      [listEntry, preferredEntry, foreignEntry] ∧
    parse (Toml.document [preferredEntry, listEntry, foreignEntry]) =
      .error (.misfit "invalid type: integer `7`, expected a string") ∧
    parse (Toml.document [listEntry, preferredEntry, foreignEntry]) =
      .error (.misfit "invalid type: integer `7`, expected a string") := by
  have hkeys : (misfitting.map Prod.fst).Nodup := by decide
  have hmisfit : Misfit "locales" (.array [.string "de", .integer 7])
      (.misfit "invalid type: integer `7`, expected a string") :=
    @Misfit.item ["de"] (.integer 7) [] _ nofun (wrongType_iff.mpr (by decide +kernel))
  have hleast : ∀ other ∈ misfitting, Bytes.ofString other.1 < Bytes.ofString "locales" →
      Fits other.1 other.2 := by
    simp only [misfitting, List.forall_mem_cons]
    refine ⟨fun h => absurd h (by decide), fun h => absurd h (by decide), fun _ => .locale _, nofun⟩
  have hreorders : Toml.Reorders [preferredEntry, listEntry, foreignEntry]
      [listEntry, preferredEntry, foreignEntry] :=
    Toml.reorders_of_perm (.swap ..) (by decide)
  obtain ⟨htables, hsource, hdocuments⟩ := fits_in_any_order
  obtain ⟨-, -, herror, hperm⟩ := htables misfitting hkeys
  have hofTable := (herror _).mpr
    ⟨("locales", _), List.mem_cons_of_mem _ List.mem_cons_self, hmisfit, hleast⟩
  have hreverse := hperm _ (List.reverse_perm misfitting).symm
  have hparse : Toml.parse? (Toml.document [preferredEntry, listEntry, foreignEntry]) =
      some misfitting.reverse := by
    rw [Toml.parse?_document]
    rfl
  have hread : ∀ source table, Toml.parse? source = some table → parse source = ofTable table := by
    intro source table h
    have hs := hsource source
    rw [h] at hs
    exact hs.2
  have hparsed := (hread _ _ hparse).trans (hreverse.trans hofTable)
  refine ⟨hkeys, hofTable, hreverse, hreorders, hparsed, ?_⟩
  rw [← hparsed]
  refine (hdocuments _ _ ?_ ?_ hreorders).1.symm
  · simp [Toml.Ordered, preferredEntry, listEntry, Toml.sections]
  · simp [Toml.Ordered, preferredEntry, listEntry, Toml.sections]

end Config

end ScriptLint
