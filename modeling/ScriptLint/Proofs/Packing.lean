import ScriptLint.Proofs.Rows

/-! A packed catalog loads as what was packed.

    s.pack = .ok p → p.load.map Catalog.rows = if p.pool.length ≤ maxOffset then .ok s.described
                     else .error (.poolTooLarge p.pool.length)              (load_of_pack)

The segments are written one after the other and read the same way.  The locale
table is read back name by name (`readFrom_append`).  The pool only grows while
texts are laid out in it, so an offset keeps pointing at its text
(`Holds.mono`), and a row of offsets is read as the row that it was packed from
(`packRow_spec`). -/

namespace ScriptLint

/-! ## Locale tables -/

namespace Locale.Directory

theorem readFrom_end {names : List String} {table rest : Bytes}
    (h : table.cutAtNul? = some ([], rest)) : readFrom names table = .ok ⟨names.reverse⟩ := by
  rw [readFrom]
  split
  next hc => rw [h] at hc; cases hc
  next => rfl
  next hne hc =>
    rw [h] at hc
    cases hc
    exact (hne rfl).elim

theorem readFrom_entry {names : List String} {table entry rest : Bytes} {name : String}
    (h : table.cutAtNul? = some (entry, rest)) (hentry : entry ≠ [])
    (hname : Utf8.decode? entry = some name) (hnew : names.contains name = false) :
    readFrom names table = readFrom (name :: names) rest := by
  rw [readFrom]
  split
  next hc => rw [h] at hc; cases hc
  next hc =>
    rw [h] at hc
    cases hc
    exact absurd rfl hentry
  next hc =>
    rw [h] at hc
    cases hc
    simp only [hname, hnew, Bool.false_eq_true, if_false]

/-- Names that can be packed are read back, whatever follows the table. -/
theorem readFrom_append {earlier names : List String}
    (h : Catalog.checkLocales earlier names = .ok ()) (rest : Bytes) :
    readFrom earlier (names.flatMap (fun name => Bytes.ofString name ++ [0]) ++ 0 :: rest) =
      .ok ⟨earlier.reverse ++ names⟩ := by
  induction names generalizing earlier with
  | nil =>
    rw [List.append_nil]
    exact readFrom_end (Bytes.cutAtNul?_append (x := []) nofun rest)
  | cons name names ih =>
    rw [Catalog.checkLocales] at h
    split at h
    next => cases h
    next hempty =>
    split at h
    next => cases h
    next hnul =>
    split at h
    next => cases h
    next hnew =>
    have hbytes : 0 ∉ Bytes.ofString name :=
      Bytes.zero_notMem_ofString fun hmem => hnul (List.contains_iff_mem.mpr hmem)
    rw [List.flatMap_cons, List.append_assoc, List.append_assoc, List.singleton_append,
      readFrom_entry (Bytes.cutAtNul?_append hbytes _) (Bytes.ofString_ne_nil hempty)
        (Utf8.decode?_ofString name) (Bool.eq_false_iff.mpr hnew),
      ih h, List.reverse_cons, List.append_assoc, List.singleton_append]

theorem ofTable_toTable {names : List String} (h : Catalog.checkLocales [] names = .ok ()) :
    ofTable (toTable ⟨names⟩) = .ok ⟨names⟩ :=
  readFrom_append h []

end Locale.Directory

namespace Catalog

/-! ## Texts in a pool -/

/-- A text stands at an offset of a pool, closed by a NUL. -/
def Holds (pool : Bytes) (offset : Nat) (text : String) : Prop :=
  0 < offset ∧ '\x00' ∉ text.toList ∧ ∃ back, pool.drop offset = Bytes.ofString text ++ 0 :: back

/-- A pool that grows at its end keeps its texts where they are. -/
theorem Holds.mono {pool pool' : Bytes} {offset : Nat} {text : String}
    (h : Holds pool offset text) (hp : pool <+: pool') : Holds pool' offset text := by
  obtain ⟨hpos, hnul, back, hback⟩ := h
  obtain ⟨more, rfl⟩ := hp
  refine ⟨hpos, hnul, back ++ more, ?_⟩
  have hlt : offset < pool.length := by
    apply Nat.lt_of_not_le
    intro hle
    rw [List.drop_eq_nil_of_le hle] at hback
    exact absurd hback.symm (by simp)
  rw [List.drop_append_of_le_length (Nat.le_of_lt hlt), hback, List.append_assoc, List.cons_append]

theorem textAt_of_holds {pool : Bytes} {offset : Nat} {text : String} (h : Holds pool offset text)
    (message : Nat) : textAt pool message offset = .ok text := by
  obtain ⟨-, hnul, back, hback⟩ := h
  obtain ⟨b, rest, hhead, hb⟩ := Bytes.exists_head text back
  have hcut := Bytes.cutAtNul?_append (Bytes.zero_notMem_ofString hnul) back
  rw [hhead] at hback hcut
  unfold textAt
  simp only [hback, hb, Bool.false_eq_true, if_false, hcut, Utf8.decodeLossy_ofString]

theorem slotText_of_holds {pool : Bytes} {offset : Nat} {text : String}
    (h : Holds pool offset text) (message : Nat) :
    slotText pool message offset = .ok (some text) := by
  rw [slotText, if_neg (Nat.ne_of_gt h.1), textAt_of_holds h]
  rfl

theorem defaultText_of_holds {pool : Bytes} {offset : Nat} {text : String}
    (h : Holds pool offset text) (hne : text ≠ "") (message : Nat) :
    defaultText pool message offset = .ok text := by
  rw [defaultText, if_neg (Nat.ne_of_gt h.1), textAt_of_holds h]
  exact if_neg hne

/-! ## Laying out texts -/

/-- A pool is laid out: its size is the number of its bytes, and every text
stands at its offset. -/
structure Pool.Laid (p : Pool) : Prop where
  size_eq : p.size = p.toBytes.length
  holds : ∀ x ∈ p.texts, Holds p.toBytes x.2 x.1

theorem Pool.laid_empty : Pool.empty.Laid :=
  ⟨rfl, nofun⟩

/-- What laying out texts leads to: a pool that is laid out and goes on where the old one ends. -/
structure Pool.Grown (p p' : Pool) : Prop where
  laid : p'.Laid
  is_extended : p.toBytes <+: p'.toBytes

theorem Pool.toBytes_add (p : Pool) (text : String) (offset size : Nat) :
    Pool.toBytes ⟨(text, offset) :: p.texts, size⟩ =
      p.toBytes ++ (Bytes.ofString text ++ [0]) := by
  simp [Pool.toBytes]

theorem Pool.Laid.add {p : Pool} (hp : p.Laid) {text : String} (hnul : '\x00' ∉ text.toList) :
    let p' : Pool := ⟨(text, p.size) :: p.texts, p.size + (Bytes.ofString text).length + 1⟩
    p.Grown p' ∧ Holds p'.toBytes p.size text := by
  intro p'
  have hbytes : p'.toBytes = p.toBytes ++ (Bytes.ofString text ++ [0]) := p.toBytes_add ..
  have hprefix : p.toBytes <+: p'.toBytes := ⟨_, hbytes.symm⟩
  have hpos : 0 < p.size := by
    rw [hp.size_eq]
    exact Nat.succ_pos _
  have hnew : Holds p'.toBytes p.size text := by
    refine ⟨hpos, hnul, [], ?_⟩
    rw [hbytes, hp.size_eq, List.drop_left]
  refine ⟨⟨⟨?_, ?_⟩, hprefix⟩, hnew⟩
  · show p.size + (Bytes.ofString text).length + 1 = _
    rw [hbytes, hp.size_eq, List.length_append, List.length_append, Nat.add_assoc]
    rfl
  · intro x hx
    rcases List.mem_cons.mp hx with rfl | hx
    · exact hnew
    · exact (hp.holds x hx).mono hprefix

theorem Pool.intern_spec {p p' : Pool} (hp : p.Laid) {message offset : Nat} {text : String}
    (h : p.intern message text = .ok (offset, p')) :
    p.Grown p' ∧ Holds p'.toBytes offset text := by
  unfold intern at h
  split at h
  next offset ho =>
    -- the text was laid out before, so the pool stays as it is
    cases h
    obtain ⟨l₁, l₂, hl, -⟩ := List.lookup_eq_some_iff.mp ho
    refine ⟨⟨hp, List.prefix_refl _⟩, hp.holds (text, offset) ?_⟩
    rw [hl]
    exact List.mem_append_right l₁ List.mem_cons_self
  next =>
    split at h
    next => cases h
    next hnul =>
    split at h
    next => cases h
    next =>
    cases h
    exact hp.add fun hmem => hnul (List.contains_iff_mem.mpr hmem)

theorem Pool.Grown.trans {p q r : Pool} (h : p.Grown q) (h' : q.Grown r) : p.Grown r :=
  ⟨h'.laid, h.is_extended.trans h'.is_extended⟩

/-- A translation that is missing or empty gets no text, every other one its own. -/
theorem Pool.slot_spec {p p' : Pool} (hp : p.Laid) {message offset : Nat}
    {translation : Option String}
    (h : (if translation.getD "" = "" then .ok (0, p)
      else p.intern message (translation.getD "")) = .ok (offset, p')) :
    p.Grown p' ∧ ∀ pool, p'.toBytes <+: pool → ∀ number,
      slotText pool number offset = .ok (translation.filter (· ≠ "")) := by
  by_cases hempty : translation.getD "" = ""
  · rw [if_pos hempty] at h
    cases h
    have hnone : translation.filter (· ≠ "") = none := by
      cases translation with
      | none => rfl
      | some text => simpa [Option.filter] using hempty
    exact ⟨⟨hp, List.prefix_refl _⟩, fun _ _ _ => by rw [hnone]; rfl⟩
  · rw [if_neg hempty] at h
    obtain ⟨hgrown, hholds⟩ := intern_spec hp h
    have hsome : translation.filter (· ≠ "") = some (translation.getD "") := by
      cases translation with
      | none => exact absurd rfl hempty
      | some text => simpa [Option.filter] using hempty
    refine ⟨hgrown, fun pool hpool number => ?_⟩
    rw [hsome, slotText_of_holds (hholds.mono hpool)]

/-- The translations that a row has: an empty one is none. -/
def present (translations : List (Option String)) : List (Option String) :=
  translations.map (·.filter (· ≠ ""))

/-- The slots of a row are read as its translations, in every pool that goes on from here. -/
theorem Pool.internAll_spec {p p' : Pool} (hp : p.Laid) {message : Nat}
    {translations : List (Option String)} {offsets : List Nat}
    (h : p.internAll message translations = .ok (offsets, p')) :
    p.Grown p' ∧ offsets.length = translations.length ∧ ∀ pool, p'.toBytes <+: pool → ∀ number,
      offsets.mapM (slotText pool number) = .ok (present translations) := by
  induction translations generalizing p offsets with
  | nil =>
    cases h
    exact ⟨⟨hp, List.prefix_refl _⟩, rfl, fun _ _ _ => rfl⟩
  | cons translation rest ih =>
    rw [internAll] at h
    split at h
    next => cases h
    next offset q hslot =>
    split at h
    next => cases h
    next offsets q' hrest =>
    cases h
    obtain ⟨hgrown, hread⟩ := slot_spec hp hslot
    obtain ⟨hgrown', hlen, hread'⟩ := ih hgrown.laid hrest
    refine ⟨hgrown.trans hgrown', congrArg (· + 1) hlen, fun pool hpool number => ?_⟩
    rw [List.mapM_cons, hread pool (hgrown'.is_extended.trans hpool) number,
      hread' pool hpool number]
    rfl

/-! ## Rows -/

/-- The entry that a row describes. -/
def Entry.described (row : Entry) : Entry :=
  { row with translations := present row.translations }

/-- The offsets of a row are read as its entry, in every pool that goes on from here. -/
theorem packRow_spec {p p' : Pool} (hp : p.Laid) {width message : Nat} {row : Entry}
    {offsets : List Nat} (h : packRow width message p row = .ok (offsets, p')) :
    p.Grown p' ∧ offsets.length = width + 1 ∧ ∀ pool, p'.toBytes <+: pool → ∀ number,
      readEntry pool number offsets = .ok row.described := by
  unfold packRow at h
  split at h
  next => cases h
  next hwidth =>
  split at h
  next => cases h
  next hdefault =>
  split at h
  next => cases h
  next offsets q hall =>
  split at h
  next => cases h
  next offset q' hintern =>
  cases h
  obtain ⟨hgrown, hlen, hread⟩ := Pool.internAll_spec hp hall
  obtain ⟨hgrown', hholds⟩ := Pool.intern_spec hgrown.laid hintern
  refine ⟨hgrown.trans hgrown', ?_, fun pool hpool number => ?_⟩
  · rw [List.length_append, hlen, Decidable.not_not.mp hwidth]
    rfl
  · have hslots := hread pool (hgrown'.is_extended.trans hpool) number
    have hlast := defaultText_of_holds (hholds.mono hpool) hdefault number
    simp only [readEntry, List.getLast?_concat, List.dropLast_concat, hlast, hslots]
    rfl

/-- Rows are read back one after the other, in every pool that goes on from here. -/
theorem packRows_spec {p p' : Pool} (hp : p.Laid) {width message : Nat} {rows : List Entry}
    {before after : List (List Nat)}
    (h : packRows width message p before rows = .ok (after, p')) :
    p.Grown p' ∧ ∃ packed, after = before.reverse ++ packed ∧
      packed.flatten.length = rows.length * (width + 1) ∧
      ∀ pool, p'.toBytes <+: pool → ∀ entries,
        readEntries pool (width + 1) rows.length packed.flatten entries =
          .ok (entries ++ (rows.map Entry.described).toArray) := by
  induction rows generalizing p message before with
  | nil =>
    cases h
    refine ⟨⟨hp, List.prefix_refl _⟩, [], (List.append_nil _).symm, ?_, fun _ _ entries => ?_⟩
    · simp
    · simp [readEntries]
  | cons row rows ih =>
    rw [packRows] at h
    split at h
    next => cases h
    next offsets q hrow =>
    obtain ⟨hgrown, hlen, hread⟩ := packRow_spec hp hrow
    obtain ⟨hgrown', packed, rfl, hlen', hread'⟩ := ih hgrown.laid h
    refine ⟨hgrown.trans hgrown', offsets :: packed, ?_, ?_, fun pool hpool entries => ?_⟩
    · rw [List.reverse_cons, List.append_assoc, List.singleton_append]
    · rw [List.flatten_cons, List.length_append, hlen, hlen', List.length_cons, Nat.succ_mul,
        Nat.add_comm]
    · -- a row is as long as the stride, so the first row is what one stride cuts off
      have htake : (offsets ++ packed.flatten).take (width + 1) = offsets := by
        rw [← hlen, List.take_left]
      have hdrop : (offsets ++ packed.flatten).drop (width + 1) = packed.flatten := by
        rw [← hlen, List.drop_left]
      have hfirst := hread pool (hgrown'.is_extended.trans hpool) entries.size
      rw [List.length_cons, readEntries, List.flatten_cons, htake, hdrop, hfirst]
      simp only [hread' pool hpool]
      simp

/-! ## Packed catalogs -/

theorem Pool.toBytes_eq_encode (p : Pool) : p.toBytes =
    ('\x00' :: p.texts.reverse.flatMap fun x => x.1.toList ++ ['\x00']).flatMap
      String.utf8EncodeChar := by
  have hnul : String.utf8EncodeChar '\x00' = [0] := rfl
  simp [toBytes, Bytes.ofString, List.flatMap_assoc, hnul]

theorem checkPool_toBytes (p : Pool) : checkPool p.toBytes =
    if p.toBytes.length ≤ maxOffset then .ok () else .error (.poolTooLarge p.toBytes.length) := by
  have hhead : ¬ p.toBytes.head? ≠ some 0 := not_not_intro rfl
  have hutf8 : Utf8.illFormedAt? p.toBytes = none := by
    rw [p.toBytes_eq_encode]
    exact Utf8.illFormedFrom_encode 0 _
  unfold checkPool
  rw [if_neg hhead, hutf8]
  by_cases h : p.toBytes.length ≤ maxOffset
  · rw [if_neg (Nat.not_lt.mpr h), if_pos h]
  · rw [if_pos (Nat.lt_of_not_le h), if_neg h]

/-- The checks that packing makes, and what it writes. -/
theorem Source.pack_cases {s : Source} {p : Packed} (h : s.pack = .ok p) :
    checkLocales [] s.locales = .ok () ∧ s.rows.length ≤ maxMessages ∧
      ∃ rows pool, packRows s.locales.length 0 .empty [] s.rows = .ok (rows, pool) ∧
        p = ⟨(⟨s.locales⟩ : Locale.Directory).toTable, rows.flatten, pool.toBytes⟩ := by
  unfold pack at h
  split at h
  next => cases h
  next hlocales =>
  split at h
  next => cases h
  next hcount =>
  cases hrows : packRows s.locales.length 0 .empty [] s.rows with
  | error e =>
    rw [hrows] at h
    cases h
  | ok packed =>
    rw [hrows] at h
    cases h
    exact ⟨hlocales, Nat.not_lt.mp hcount, packed.1, packed.2, rfl, rfl⟩

/-- The table that a catalog describes. -/
def Source.described (s : Source) : Rows :=
  ⟨⟨s.locales⟩, (s.rows.map Entry.described).toArray⟩

/-- Only a pool that offsets cannot reach keeps a packed catalog from loading. -/
theorem load_of_pack {s : Source} {p : Packed} (h : s.pack = .ok p) :
    p.load.map rows = if p.pool.length ≤ maxOffset then .ok s.described
      else .error (.poolTooLarge p.pool.length) := by
  obtain ⟨hlocales, hcount, rows, pool, hrows, rfl⟩ := s.pack_cases h
  obtain ⟨-, packed, rfl, hlen, hread⟩ := packRows_spec Pool.laid_empty hrows
  have hstride : 0 < s.locales.length + 1 := Nat.succ_pos _
  rw [map_rows_load]
  unfold Packed.readTexts
  simp only [Locale.Directory.ofTable_toTable hlocales, Locale.Directory.size, hlen,
    Nat.mul_mod_left, Nat.mul_div_cancel _ hstride, checkPool_toBytes, ne_eq, not_true, if_false,
    if_neg (Nat.not_lt.mpr hcount), hread _ (List.prefix_refl _)]
  by_cases hpool : pool.toBytes.length ≤ maxOffset
  · simp only [if_pos hpool]
    exact congrArg Except.ok (congrArg (Rows.mk ⟨s.locales⟩) Array.empty_append)
  · simp only [if_neg hpool]

section
variable {s : Source} {p : Packed}

theorem exists_load_of_pack (h : s.pack = .ok p) (hle : p.pool.length ≤ maxOffset) :
    ∃ c, p.load = .ok c := by
  have hload := load_of_pack h
  rw [if_pos hle] at hload
  cases hc : p.load with
  | ok c => exact ⟨c, rfl⟩
  | error e =>
    rw [hc] at hload
    cases hload

theorem load_of_pack_of_lt (h : s.pack = .ok p) (hlt : maxOffset < p.pool.length) :
    p.load = .error (.poolTooLarge p.pool.length) := by
  have hload := load_of_pack h
  rw [if_neg (Nat.not_le.mpr hlt)] at hload
  cases hc : p.load with
  | ok c =>
    rw [hc] at hload
    cases hload
  | error e =>
    rw [hc] at hload
    cases hload
    rfl

theorem rows_of_load (h : s.pack = .ok p) {c : Catalog} (hc : p.load = .ok c) :
    p.pool.length ≤ maxOffset ∧ c.rows = s.described := by
  have hload := load_of_pack h
  rw [hc] at hload
  split at hload
  next hle => exact ⟨hle, Except.ok.inj hload⟩
  next => cases hload

/-- A source that packs into a pool in reach of offsets is built as the table that it describes. -/
theorem rows_catalog (h : s.pack = .ok p) (hle : p.pool.length ≤ maxOffset) :
    s.catalog.rows = s.described := by
  obtain ⟨c, hc⟩ := exists_load_of_pack h hle
  have hbuild : s.build = .ok c := by
    rw [Source.build, h]
    exact hc
  rw [Source.catalog, hbuild]
  exact (rows_of_load h hc).2

end

/-- Whether a source can be built. -/
def Source.builds (s : Source) : Bool :=
  s.pack.toOption.any fun p => p.pool.length ≤ maxOffset

theorem Source.rows_of_builds {s : Source} (h : s.builds = true) : s.catalog.rows = s.described := by
  unfold builds at h
  cases hp : s.pack with
  | error e =>
    rw [hp] at h
    cases h
  | ok p =>
    rw [hp] at h
    exact rows_catalog hp (of_decide_eq_true h)

/-! ## Lookups -/

/-- A row's own text for a locale: its translation, unless that is empty. -/
def Source.Translates (s : Source) (row : Entry) (locale : Nat) (text : String) : Prop :=
  locale < s.locales.length ∧ row.translations[locale]? = some (some text) ∧ text ≠ ""

/-- Every row that is packed has one translation for each locale, and a default text. -/
theorem row_of_packRows {width message : Nat} {p p' : Pool} {rows : List Entry}
    {before after : List (List Nat)} (h : packRows width message p before rows = .ok (after, p')) :
    ∀ row ∈ rows, row.translations.length = width ∧ row.default ≠ "" := by
  induction rows generalizing message p before with
  | nil => exact nofun
  | cons row rows ih =>
    rw [packRows] at h
    split at h
    next => cases h
    next offsets q hrow =>
    intro r hr
    rcases List.mem_cons.mp hr with rfl | hr
    · unfold packRow at hrow
      split at hrow
      next => cases hrow
      next hwidth =>
      split at hrow
      next => cases hrow
      next hdefault => exact ⟨Decidable.not_not.mp hwidth, hdefault⟩
    · exact ih h r hr

section
variable {s : Source} {m : Nat} {row : Entry}

theorem entries_described (h : s.rows[m]? = some row) :
    s.described.entries[m]? = some row.described := by
  show (s.rows.map Entry.described).toArray[m]? = _
  rw [List.getElem?_toArray, List.getElem?_map, h]
  rfl

theorem translation?_described (h : s.rows[m]? = some row) (l : Nat) :
    s.described.translation? m l = (row.translations[l]?).join.filter (· ≠ "") := by
  rw [Rows.translation?, entries_described h]
  show ((present row.translations)[l]?).join = _
  rw [present, List.getElem?_map]
  cases row.translations[l]? <;> rfl

theorem lookup?_described (h : s.rows[m]? = some row) (l : Nat) :
    s.described.lookup? m l = some ((s.described.translation? m l).getD row.default) := by
  rw [Rows.lookup?, Rows.translation?, entries_described h]
  rfl

theorem translation?_of_translates (h : s.rows[m]? = some row) {l : Nat} {text : String}
    (ht : s.Translates row l text) : s.described.translation? m l = some text := by
  obtain ⟨-, htext, hne⟩ := ht
  rw [translation?_described h, htext]
  simp [Option.filter, hne]

theorem translation?_eq_none (h : s.rows[m]? = some row) {l : Nat}
    (hwidth : row.translations.length = s.locales.length) (ht : ∀ text, ¬ s.Translates row l text) :
    s.described.translation? m l = none := by
  rw [translation?_described h]
  match htext : row.translations[l]? with
  | none => rfl
  | some none => rfl
  | some (some text) =>
    by_cases hne : text = ""
    · simp [Option.filter, hne]
    · have hl : l < row.translations.length := (List.getElem?_eq_some_iff.mp htext).1
      exact absurd ⟨hwidth ▸ hl, htext, hne⟩ (ht text)

end

theorem lookup?_described_ne_empty {s : Source} (h : ∀ row ∈ s.rows, row.default ≠ "") (m l : Nat) :
    s.described.lookup? m l ≠ some "" := by
  intro he
  cases hrow : s.rows[m]? with
  | none =>
    have hentry : s.described.entries[m]? = none := by
      show (s.rows.map Entry.described).toArray[m]? = none
      rw [List.getElem?_toArray, List.getElem?_map, hrow]
      rfl
    rw [Rows.lookup?, hentry] at he
    cases he
  | some row =>
    rw [lookup?_described hrow, translation?_described hrow] at he
    cases ht : (row.translations[l]?).join.filter (· ≠ "") with
    | none =>
      rw [ht] at he
      exact h row (List.mem_of_getElem? hrow) (Option.some.inj he)
    | some text =>
      rw [ht] at he
      have hne := (Option.filter_eq_some_iff.mp ht).2
      exact of_decide_eq_true hne (Option.some.inj he)

/-! ## Top theorems -/

/-- A catalog that packs loads with the same locales and messages, unless its
pool is too large for offsets; every lookup gives the row's own text where it
has one and its default text where it has none. -/
theorem load_pack_lookup {s : Source} {p : Packed} (h : s.pack = .ok p) :
    ((∃ c, p.load = .ok c) ↔ p.pool.length ≤ maxOffset) ∧
    (maxOffset < p.pool.length → p.load = .error (.poolTooLarge p.pool.length)) ∧
    ∀ c, p.load = .ok c →
      c.locales.names = s.locales ∧ c.messageCount = s.rows.length ∧
      (∀ m row, s.rows[m]? = some row → ∀ l,
        (∀ text, s.Translates row l text →
          c.lookup? m l = some text ∧ c.hasTranslation m l = true) ∧
        ((∀ text, ¬ s.Translates row l text) →
          c.lookup? m l = some row.default ∧ c.hasTranslation m l = false)) ∧
      ∀ m l, c.lookup? m l ≠ some "" := by
  obtain ⟨-, -, packed, pool, hpacked, -⟩ := s.pack_cases h
  have hrow := row_of_packRows hpacked
  refine ⟨?_, ?_, ?_⟩
  · constructor
    · rintro ⟨c, hc⟩
      exact (rows_of_load h hc).1
    · exact exists_load_of_pack h
  · exact load_of_pack_of_lt h
  · intro c hc
    have hrows := (rows_of_load h hc).2
    refine ⟨congrArg (·.locales.names) hrows, ?_, fun m row hm l => ⟨?_, ?_⟩, fun m l => ?_⟩
    · rw [← messageCount_rows, hrows]
      simp [Rows.messageCount, Source.described]
    · intro text ht
      rw [← lookup?_rows, ← isSome_translation?_rows, hrows, lookup?_described hm,
        translation?_of_translates hm ht]
      exact ⟨rfl, rfl⟩
    · intro ht
      have hwidth := (hrow row (List.mem_of_getElem? hm)).1
      rw [← lookup?_rows, ← isSome_translation?_rows, hrows, lookup?_described hm,
        translation?_eq_none hm hwidth ht]
      exact ⟨rfl, rfl⟩
    · rw [← lookup?_rows, hrows]
      exact lookup?_described_ne_empty (fun row hr => (hrow row hr).2) m l

/-- Two texts of which each is the other's translation, so that both are laid out only once. -/
def coffee : Source where
  locales := ["de", "fr"]
  rows := [
    { default := "coffee", translations := [some "", some "café"] },
    { default := "café", translations := [none, some "coffee"] }]

def packedCoffee : Packed where
  localeTable := [0x64, 0x65, 0, 0x66, 0x72, 0, 0]
  mapping := [0, 1, 7, 0, 7, 1]
  pool := [0, 0x63, 0x61, 0x66, 0xC3, 0xA9, 0, 0x63, 0x6F, 0x66, 0x66, 0x65, 0x65, 0]

theorem load_packedCoffee : coffee.pack = .ok packedCoffee ∧ ∃ c, packedCoffee.load = .ok c ∧
    c.locales.names = ["de", "fr"] ∧ c.messageCount = 2 ∧
    (c.lookup? 0 0 = some "coffee" ∧ c.hasTranslation 0 0 = false) ∧
    (c.lookup? 0 1 = some "café" ∧ c.hasTranslation 0 1 = true) ∧
    (c.lookup? 1 7 = some "café" ∧ c.hasTranslation 1 7 = false) := by
  have hpack : coffee.pack = .ok packedCoffee := rfl
  obtain ⟨hloads, -, hread⟩ := load_pack_lookup hpack
  obtain ⟨c, hc⟩ := hloads.mpr (by decide)
  obtain ⟨hnames, hcount, hlookup, -⟩ := hread c hc
  refine ⟨hpack, c, hc, hnames, hcount, ?_, ?_, ?_⟩
  · refine (hlookup 0 _ rfl 0).2 ?_
    rintro text ⟨-, htext, hne⟩
    cases htext
    exact hne rfl
  · exact (hlookup 0 _ rfl 1).1 "café" ⟨by decide, rfl, by decide⟩
  · refine (hlookup 1 _ rfl 7).2 ?_
    rintro text ⟨hlt, -⟩
    exact absurd hlt (by decide)

end Catalog

end ScriptLint
