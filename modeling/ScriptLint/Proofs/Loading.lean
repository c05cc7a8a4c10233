import ScriptLint.Proofs.Packing
import ScriptLint.Proofs.Verdicts

/-! Which packed catalogs load, and which fault is named when one does not.

    (∃ c, p.load = .ok c)  ↔  p.WellFormed
    p.load = .error e      ↔  p.FirstFault e        (load_verdict)

Both right-hand sides speak of the bytes and offsets of the three segments only.
Every reader of a segment has a verdict of its own (`judges_…`): what it accepts,
and which fault it names. -/

namespace ScriptLint

/-! ## Locale tables -/

namespace Locale.Directory

/-- Names that a table can list: no two alike, none empty, none with a NUL. -/
structure Listable (names : List String) : Prop where
  nodup : names.Nodup
  ne_empty : ∀ name ∈ names, name ≠ ""
  nul_notMem : ∀ name ∈ names, '\x00' ∉ name.toList

/-- The bytes of names, each closed by a NUL. -/
def closed (names : List String) : Bytes :=
  names.flatMap fun name => Bytes.ofString name ++ [0]

/-- A table begins with these names, followed by an empty one. -/
def Lists (table : Bytes) (names : List String) : Prop :=
  Listable names ∧ ∃ rest, table = closed names ++ 0 :: rest

/-- What is wrong with the entry after `names`. -/
inductive EntryFault (names : List String) : Bytes → Catalog.Error → Prop
  | unterminated {rest : Bytes} (h : 0 ∉ rest) :
      EntryFault names rest .unterminatedLocaleTable
  | invalid {entry rest : Bytes} (hne : entry ≠ []) (h0 : 0 ∉ entry) (h : ¬ Utf8.IsText entry) :
      EntryFault names (entry ++ 0 :: rest) (.invalidLocaleName names.length)
  | duplicate {name : String} {rest : Bytes} (h : name ∈ names) :
      EntryFault names (Bytes.ofString name ++ 0 :: rest) (.duplicateLocale name)

/-- The first thing that is wrong with a table, after names that are well listed. -/
def TableFault (table : Bytes) (e : Catalog.Error) : Prop :=
  ∃ names rest, Listable names ∧ table = closed names ++ rest ∧ EntryFault names rest e

theorem closed_cons (name : String) (names : List String) (rest : Bytes) :
    closed (name :: names) ++ rest = Bytes.ofString name ++ 0 :: (closed names ++ rest) := by
  simp [closed]

theorem Listable.zero_notMem {names : List String} (h : Listable names) {name : String}
    (hmem : name ∈ names) : 0 ∉ Bytes.ofString name :=
  Bytes.zero_notMem_ofString (h.nul_notMem name hmem)

theorem Listable.concat {names : List String} (h : Listable names) {name : String}
    (hnew : name ∉ names) (hne : name ≠ "") (hnul : '\x00' ∉ name.toList) :
    Listable (names ++ [name]) := by
  refine ⟨?_, ?_, ?_⟩
  · rw [List.nodup_append]
    refine ⟨h.nodup, by simp, ?_⟩
    intro a ha b hb
    rw [List.mem_singleton.mp hb]
    rintro rfl
    exact hnew ha
  · intro a ha
    rcases List.mem_append.mp ha with ha | ha
    · exact h.ne_empty a ha
    · rwa [List.mem_singleton.mp ha]
  · intro a ha
    rcases List.mem_append.mp ha with ha | ha
    · exact h.nul_notMem a ha
    · rwa [List.mem_singleton.mp ha]

/-- Names that are well listed are passed over. -/
theorem readFrom_closed (earlier : List String) {names : List String}
    (h : Listable (earlier.reverse ++ names)) (rest : Bytes) :
    readFrom earlier (closed names ++ rest) = readFrom (names.reverse ++ earlier) rest := by
  induction names generalizing earlier with
  | nil => rfl
  | cons name names ih =>
    have hmem : name ∈ earlier.reverse ++ name :: names :=
      List.mem_append_right _ List.mem_cons_self
    have hnew : earlier.contains name = false := by
      rw [Bool.eq_false_iff, ne_eq, List.contains_iff_mem]
      intro hold
      have hdisjoint := (List.nodup_append.mp h.nodup).2.2
      exact hdisjoint name (List.mem_reverse.mpr hold) name List.mem_cons_self rfl
    have hrest : Listable ((name :: earlier).reverse ++ names) := by
      rwa [List.reverse_cons, List.append_assoc, List.singleton_append]
    rw [closed_cons, readFrom_entry (Bytes.cutAtNul?_append (h.zero_notMem hmem) _)
      (Bytes.ofString_ne_nil (h.ne_empty name hmem)) (Utf8.decode?_ofString name) hnew, ih _ hrest,
      List.reverse_cons, List.append_assoc, List.singleton_append]

theorem readFrom_unterminated {names : List String} {table : Bytes} (h : 0 ∉ table) :
    readFrom names table = .error .unterminatedLocaleTable := by
  have hcut := Bytes.cutAtNul?_eq_none h
  rw [readFrom]
  split
  next => rfl
  next hc => rw [hcut] at hc; cases hc
  next hc => rw [hcut] at hc; cases hc

/-- An entry that is not empty is decoded, and refused if it is no text or not new. -/
theorem readFrom_refused {names : List String} {entry rest : Bytes} (hne : entry ≠ [])
    (h0 : 0 ∉ entry) :
    (Utf8.decode? entry = none →
      readFrom names (entry ++ 0 :: rest) = .error (.invalidLocaleName names.length)) ∧
    ∀ name ∈ names, Utf8.decode? entry = some name →
      readFrom names (entry ++ 0 :: rest) = .error (.duplicateLocale name) := by
  have hcut := Bytes.cutAtNul?_append h0 rest
  constructor
  · intro hd
    rw [readFrom]
    split
    next hc => rw [hcut] at hc; cases hc
    next hc => rw [hcut] at hc; cases hc; exact absurd rfl hne
    next hc =>
      rw [hcut] at hc
      cases hc
      rw [hd]
  · intro name hmem hd
    rw [readFrom]
    split
    next hc => rw [hcut] at hc; cases hc
    next hc => rw [hcut] at hc; cases hc; exact absurd rfl hne
    next hc =>
      rw [hcut] at hc
      cases hc
      simp only [hd, List.contains_iff_mem.mpr hmem, if_true]

theorem readFrom_of_fault {earlier : List String} (hl : Listable earlier.reverse) {table : Bytes}
    {e : Catalog.Error} (h : EntryFault earlier.reverse table e) :
    readFrom earlier table = .error e := by
  cases h with
  | unterminated h => exact readFrom_unterminated h
  | @invalid entry rest hne h0 h =>
    have hd : Utf8.decode? entry = none := by
      cases hd : Utf8.decode? entry with
      | none => rfl
      | some s => exact absurd (Utf8.isText_iff_decode?.mpr ⟨s, hd⟩) h
    rw [(readFrom_refused hne h0).1 hd, List.length_reverse]
  | duplicate h =>
    exact (readFrom_refused (Bytes.ofString_ne_nil (hl.ne_empty _ h)) (hl.zero_notMem h)).2 _
      (List.mem_reverse.mp h) (Utf8.decode?_ofString _)

theorem ofTable_of_lists {table : Bytes} {names : List String} (h : Lists table names) :
    ofTable table = .ok ⟨names⟩ := by
  obtain ⟨hl, rest, rfl⟩ := h
  have hend : Bytes.cutAtNul? (0 :: rest) = some ([], rest) :=
    Bytes.cutAtNul?_append (x := []) nofun rest
  rw [ofTable, readFrom_closed [] hl, readFrom_end hend]
  simp

theorem ofTable_of_fault {table : Bytes} {e : Catalog.Error} (h : TableFault table e) :
    ofTable table = .error e := by
  obtain ⟨names, rest, hl, rfl, he⟩ := h
  rw [ofTable, readFrom_closed [] hl]
  apply readFrom_of_fault
  · simpa using hl
  · simpa using he

/-- Every table goes on from well-listed names in one of the two ways. -/
theorem lists_or_fault_from (names : List String) (hl : Listable names) (rest : Bytes) :
    (∃ more, Lists (closed names ++ rest) (names ++ more)) ∨
    ∃ e, TableFault (closed names ++ rest) e := by
  cases hcut : rest.cutAtNul? with
  | none =>
    exact .inr ⟨_, names, rest, hl, rfl, .unterminated (Bytes.cutAtNul?_eq_none_iff.mp hcut)⟩
  | some cut =>
    obtain ⟨entry, tail⟩ := cut
    have hshorter := Bytes.length_lt_of_cutAtNul? hcut
    obtain ⟨rfl, h0⟩ := Bytes.cutAtNul?_eq_some_iff.mp hcut
    by_cases hne : entry = []
    · subst hne
      refine .inl ⟨[], ?_⟩
      rw [List.append_nil]
      exact ⟨hl, tail, rfl⟩
    · by_cases ht : Utf8.IsText entry
      · obtain ⟨name, rfl⟩ := ht
        by_cases hmem : name ∈ names
        · exact .inr ⟨_, names, _, hl, rfl, .duplicate hmem⟩
        · -- one more name is well listed, and less of the table is left
          have hname : name ≠ "" := by
            rintro rfl
            exact hne rfl
          have hlonger := hl.concat hmem hname (Bytes.nul_notMem_of_ofString h0)
          have htable : closed names ++ (Bytes.ofString name ++ 0 :: tail) =
              closed (names ++ [name]) ++ tail := by
            simp [closed]
          rw [htable]
          rcases lists_or_fault_from _ hlonger tail with ⟨more, h⟩ | h
          · rw [List.append_assoc, List.singleton_append] at h
            exact .inl ⟨name :: more, h⟩
          · exact .inr h
      · exact .inr ⟨_, names, _, hl, rfl, .invalid hne h0 ht⟩
termination_by rest.length

theorem lists_or_fault (table : Bytes) : (∃ names, Lists table names) ∨ ∃ e, TableFault table e :=
  lists_or_fault_from [] ⟨List.nodup_nil, nofun, nofun⟩ table

end Locale.Directory

namespace Catalog

/-! ## Texts in the pool -/

/-- A text can be read at an offset: a character begins there, and a NUL follows. -/
structure Readable (pool : Bytes) (offset : Nat) : Prop where
  lt_length : offset < pool.length
  isBoundary : Utf8.IsBoundary pool offset
  zero_mem : 0 ∈ pool.drop offset

/-- Why no text can be read at an offset. -/
inductive TextFault (pool : Bytes) (message offset : Nat) : Error → Prop
  | outOfRange (h : ¬ (offset < pool.length ∧ Utf8.IsBoundary pool offset)) :
      TextFault pool message offset (.offsetOutOfRange message offset)
  | unterminated (hlt : offset < pool.length) (hb : Utf8.IsBoundary pool offset)
      (h : 0 ∉ pool.drop offset) :
      TextFault pool message offset (.unterminatedString message offset)

section
variable {pool : Bytes} (message : Nat) {offset : Nat}

theorem readable_or_fault (pool : Bytes) (message offset : Nat) :
    Readable pool offset ∨ ∃ e, TextFault pool message offset e := by
  by_cases h : offset < pool.length ∧ Utf8.IsBoundary pool offset
  · by_cases h0 : 0 ∈ pool.drop offset
    · exact .inl ⟨h.1, h.2, h0⟩
    · exact .inr ⟨_, .unterminated h.1 h.2 h0⟩
  · exact .inr ⟨_, .outOfRange h⟩

/-- Where a text can be read, one stands. -/
theorem exists_holds (hpos : 0 < offset) (h : Readable pool offset) :
    ∃ text, Holds pool offset text := by
  obtain ⟨x, y, hdrop, hx⟩ := List.eq_append_cons_of_mem h.zero_mem
  have htext := h.isBoundary.isText_drop
  rw [hdrop] at htext
  obtain ⟨text, rfl⟩ := htext.of_append_zero hx
  exact ⟨text, hpos, Bytes.nul_notMem_of_ofString hx, y, hdrop⟩

theorem textAt_of_fault (hp : Utf8.IsText pool) {e : Error}
    (h : TextFault pool message offset e) : textAt pool message offset = .error e := by
  unfold textAt
  cases hd : pool.drop offset with
  | nil =>
    cases h with
    | outOfRange => rfl
    | unterminated hlt =>
      have hle := List.drop_eq_nil_iff.mp hd
      omega
  | cons b rest =>
    have hlt : offset < pool.length := by
      apply Nat.lt_of_not_le
      intro hle
      rw [List.drop_eq_nil_of_le hle] at hd
      cases hd
    have hb := Utf8.isBoundary_iff hp hd
    cases h with
    | outOfRange h =>
      have htrail : Utf8.isTrailing b = true := by
        cases ht : Utf8.isTrailing b with
        | true => rfl
        | false => exact absurd ⟨hlt, hb.mpr ht⟩ h
      simp only [htrail, if_true]
    | unterminated _ hbound h =>
      rw [hd] at h
      simp only [hb.mp hbound, Bool.false_eq_true, if_false, Bytes.cutAtNul?_eq_none h]

theorem judges_textAt (hp : Utf8.IsText pool) (hpos : 0 < offset) :
    Judges (textAt pool message offset) (Readable pool offset) (TextFault pool message offset) := by
  refine judges_of_total ?_ (fun _ => textAt_of_fault message hp) (readable_or_fault pool message offset)
  intro h
  obtain ⟨text, ht⟩ := exists_holds hpos h
  exact ⟨text, textAt_of_holds ht message⟩

theorem holds_of_textAt (hp : Utf8.IsText pool) (hpos : 0 < offset) {text : String}
    (h : textAt pool message offset = .ok text) : Holds pool offset text := by
  obtain ⟨text', ht⟩ := exists_holds hpos ((judges_textAt message hp hpos).1.mp ⟨text, h⟩)
  rw [textAt_of_holds ht] at h
  cases h
  exact ht

/-! ## Slots -/

/-- What the slot of a locale may hold: no text, or one that can be read. -/
def SlotOk (pool : Bytes) (offset : Nat) : Prop :=
  offset = 0 ∨ Readable pool offset

/-- What the default slot must hold: a text that can be read and is not empty. -/
structure DefaultOk (pool : Bytes) (offset : Nat) : Prop where
  ne_zero : offset ≠ 0
  readable : Readable pool offset
  ne_empty : pool[offset]? ≠ some 0

/-- Why the slot of a locale is refused. -/
def SlotFault (pool : Bytes) (message offset : Nat) (e : Error) : Prop :=
  offset ≠ 0 ∧ TextFault pool message offset e

/-- Why the default slot is refused. -/
inductive DefaultFault (pool : Bytes) (message offset : Nat) : Error → Prop
  | missing (h : offset = 0) : DefaultFault pool message offset (.missingDefault message)
  | text {e : Error} (hne : offset ≠ 0) (h : TextFault pool message offset e) :
      DefaultFault pool message offset e
  | empty (hne : offset ≠ 0) (hr : Readable pool offset) (h : pool[offset]? = some 0) :
      DefaultFault pool message offset (.emptyDefault message)

theorem judges_slotText (hp : Utf8.IsText pool) :
    Judges (slotText pool message offset) (SlotOk pool offset) (SlotFault pool message offset) := by
  unfold slotText
  by_cases h0 : offset = 0
  · rw [if_pos h0]
    exact judges_of_total (fun _ => ⟨none, rfl⟩) (fun e he => absurd h0 he.1) (.inl (.inl h0))
  · rw [if_neg h0]
    have ht := (judges_textAt message hp (Nat.pos_of_ne_zero h0)).map some
    refine judges_of_total ?_ ?_ ?_
    · rintro (h | h)
      · exact absurd h h0
      · exact ht.1.mpr h
    · rintro e ⟨-, he⟩
      exact (ht.2 e).mpr he
    · rcases readable_or_fault pool message offset with h | ⟨e, he⟩
      · exact .inl (.inr h)
      · exact .inr ⟨e, h0, he⟩

/-- A text is empty when it stands at its own NUL. -/
theorem Holds.eq_empty_iff {text : String} (h : Holds pool offset text) :
    text = "" ↔ pool[offset]? = some 0 := by
  obtain ⟨-, hnul, back, hback⟩ := h
  have hhead : pool[offset]? = (Bytes.ofString text ++ 0 :: back).head? := by
    rw [← hback, List.head?_drop]
  rw [hhead]
  constructor
  · rintro rfl
    rfl
  · intro h0
    apply Classical.byContradiction
    intro hne
    obtain ⟨b, t, hbt⟩ := List.exists_cons_of_ne_nil (Bytes.ofString_ne_nil hne)
    rw [hbt, List.cons_append, List.head?_cons, Option.some.injEq] at h0
    apply Bytes.zero_notMem_ofString hnul
    rw [hbt, h0]
    exact List.mem_cons_self

theorem judges_defaultText (hp : Utf8.IsText pool) :
    Judges (defaultText pool message offset) (DefaultOk pool offset)
      (DefaultFault pool message offset) := by
  unfold defaultText
  by_cases h0 : offset = 0
  · rw [if_pos h0]
    refine judges_of_total (fun h => absurd h0 h.ne_zero) ?_ (.inr ⟨_, .missing h0⟩)
    intro e he
    cases he with
    | missing => rfl
    | text hne => exact absurd h0 hne
    | empty hne => exact absurd h0 hne
  · rw [if_neg h0]
    have htext := judges_textAt message hp (Nat.pos_of_ne_zero h0)
    -- the text was read: what is left to check is that it is not empty
    have hcheck : ∀ text, textAt pool message offset = .ok text →
        Judges (if text = "" then .error (Error.emptyDefault message) else .ok text)
          (pool[offset]? ≠ some 0) fun e => pool[offset]? = some 0 ∧ e = .emptyDefault message := by
      intro text ht
      have hempty := (holds_of_textAt message hp (Nat.pos_of_ne_zero h0) ht).eq_empty_iff
      refine judges_of_total ?_ ?_ ?_
      · intro h
        exact ⟨text, if_neg fun he => h (hempty.mp he)⟩
      · rintro e ⟨h, rfl⟩
        exact if_pos (hempty.mpr h)
      · by_cases h : pool[offset]? = some 0
        · exact .inr ⟨_, h, rfl⟩
        · exact .inl h
    refine (htext.andThen hcheck (fun e he => ?_) fun text ht => ?_).congr ?_ fun e => ?_
    · rw [he]
    · rw [ht]
    · exact ⟨fun h => ⟨h.readable, h.ne_empty⟩, fun h => ⟨h0, h.1, h.2⟩⟩
    · constructor
      · intro he
        cases he with
        | missing h => exact absurd h h0
        | text _ h => exact .inl h
        | empty _ hr h => exact .inr ⟨hr, h, rfl⟩
      · rintro (h | ⟨hr, h, rfl⟩)
        · exact .text h0 h
        · exact .empty h0 hr h

end

/-! ## Rows -/

/-- What the offsets of a row must be. -/
structure RowOk (pool : Bytes) (width : Nat) (row : Nat → Nat) : Prop where
  defaultOk : DefaultOk pool (row width)
  slotOk : ∀ l, l < width → SlotOk pool (row l)

/-- The first thing that is wrong with a row; the default slot is looked at before the others. -/
inductive RowFault (pool : Bytes) (width message : Nat) (row : Nat → Nat) : Error → Prop
  | default {e : Error} (h : DefaultFault pool message (row width) e) :
      RowFault pool width message row e
  | slot {l : Nat} {e : Error} (hd : DefaultOk pool (row width)) (hl : l < width)
      (hbefore : ∀ k, k < l → SlotOk pool (row k)) (h : SlotFault pool message (row l) e) :
      RowFault pool width message row e

theorem judges_readEntry {pool : Bytes} (hp : Utf8.IsText pool) (width message : Nat)
    (row : Nat → Nat) :
    Judges (readEntry pool message ((List.range (width + 1)).map row)) (RowOk pool width row)
      (RowFault pool width message row) := by
  have hrow : (List.range (width + 1)).map row = (List.range width).map row ++ [row width] := by
    rw [List.range_succ, List.map_append]
    rfl
  have hdefault : Judges (defaultText pool message (row width)) _ _ :=
    judges_defaultText message hp
  have hslots : Judges (((List.range width).map row).mapM (slotText pool message))
      (∀ l, l < width → SlotOk pool (row l)) fun e => ∃ l, l < width ∧
        (∀ k, k < l → SlotOk pool (row k)) ∧ SlotFault pool message (row l) e := by
    rw [List.mapM_map]
    exact Judges.mapM_range fun l _ => judges_slotText message hp
  refine (hdefault.andThen (fun text _ => hslots.map (Entry.mk text)) (fun e he => ?_)
    fun text ht => ?_).congr ?_ fun e => ?_
  · simp only [readEntry, hrow, List.getLast?_concat, he]
  · simp only [readEntry, hrow, List.getLast?_concat, List.dropLast_concat, ht]
    cases ((List.range width).map row).mapM (slotText pool message) <;> rfl
  · exact ⟨fun h => ⟨h.defaultOk, h.slotOk⟩, fun h => ⟨h.1, h.2⟩⟩
  · constructor
    · intro he
      cases he with
      | default h => exact .inl h
      | slot hd hl hbefore h => exact .inr ⟨hd, _, hl, hbefore, h⟩
    · rintro (h | ⟨hd, l, hl, hbefore, h⟩)
      · exact .default h
      · exact .slot hd hl hbefore h

/-- Rows are read one after the other, up to the first that is refused. -/
theorem readEntries_eq (pool : Bytes) (stride count : Nat) (mapping : List Nat)
    (entries : Array Entry) :
    readEntries pool stride count mapping entries =
      ((List.range count).mapM fun k =>
        readEntry pool (entries.size + k) ((mapping.drop (k * stride)).take stride)).map
          fun new => entries ++ new.toArray := by
  induction count generalizing mapping entries with
  | zero => simp [readEntries, Except.map, pure, Except.pure]
  | succ count ih =>
    rw [readEntries, List.range_succ_eq_map, List.mapM_cons, Nat.add_zero, Nat.zero_mul,
      List.drop_zero, List.mapM_map]
    cases readEntry pool entries.size (mapping.take stride) with
    | error e => rfl
    | ok entry =>
      -- the rows after the first are those of the mapping without its first row
      have hrest : (fun k => readEntry pool ((entries.push entry).size + k)
          (((mapping.drop stride).drop (k * stride)).take stride)) =
          (fun k => readEntry pool (entries.size + k) ((mapping.drop (k * stride)).take stride)) ∘
            Nat.succ := by
        funext k
        simp only [Function.comp, Array.size_push, List.drop_drop]
        congr 1
        · omega
        · rw [Nat.succ_mul, Nat.add_comm]
      simp only [ih, hrest]
      generalize (fun k => readEntry pool (entries.size + k)
        ((mapping.drop (k * stride)).take stride)) ∘ Nat.succ = read
      cases (List.range count).mapM read with
      | error e => rfl
      | ok new =>
        show Except.ok _ = Except.ok _
        congr 1
        simp

/-- The offset in slot `l` of message `m`, where there are `width` locales; the
default slot is the last of a row. -/
def Packed.offset (p : Packed) (width m l : Nat) : Nat :=
  p.mapping.getD (m * (width + 1) + l) 0

theorem Packed.row_eq {p : Packed} {width m : Nat} (h : (m + 1) * (width + 1) ≤ p.mapping.length) :
    (p.mapping.drop (m * (width + 1))).take (width + 1) =
      (List.range (width + 1)).map (p.offset width m) := by
  rw [Nat.succ_mul] at h
  apply List.ext_getElem
  · simp only [List.length_take, List.length_drop, List.length_map, List.length_range]
    omega
  · intro l h₁ h₂
    rw [List.length_map, List.length_range] at h₂
    have hlt : m * (width + 1) + l < p.mapping.length := by omega
    simp [Packed.offset, hlt]

theorem judges_readEntries {p : Packed} (hp : Utf8.IsText p.pool) {width count : Nat}
    (h : p.mapping.length = count * (width + 1)) :
    Judges (readEntries p.pool (width + 1) count p.mapping #[])
      (∀ m, m < count → RowOk p.pool width (p.offset width m))
      fun e => ∃ m, m < count ∧ (∀ k, k < m → RowOk p.pool width (p.offset width k)) ∧
        RowFault p.pool width m (p.offset width m) e := by
  rw [readEntries_eq]
  refine (Judges.mapM_range fun m hm => ?_).map _
  have hle : (m + 1) * (width + 1) ≤ p.mapping.length := by
    rw [h]
    exact Nat.mul_le_mul_right (width + 1) hm
  rw [Packed.row_eq hle, Array.size_empty, Nat.zero_add]
  exact judges_readEntry hp width m (p.offset width m)

/-! ## The pool -/

/-- What the pool as a whole must be. -/
structure PoolOk (pool : Bytes) : Prop where
  reserved : pool.head? = some 0
  length_le : pool.length ≤ maxOffset
  isText : Utf8.IsText pool

/-- The first thing that is wrong with the pool as a whole. -/
inductive PoolFault (pool : Bytes) : Error → Prop
  | reserved (h : pool.head? ≠ some 0) : PoolFault pool .missingReservedOffset
  | tooLarge (hr : pool.head? = some 0) (h : maxOffset < pool.length) :
      PoolFault pool (.poolTooLarge pool.length)
  | illFormed {n : Nat} (hr : pool.head? = some 0) (hle : pool.length ≤ maxOffset)
      (h : Utf8.LongestText pool n) : PoolFault pool (.invalidUtf8 n)

theorem judges_checkPool (pool : Bytes) : Judges (checkPool pool) (PoolOk pool) (PoolFault pool) := by
  unfold checkPool
  by_cases hr : pool.head? = some 0
  · rw [if_neg (not_not_intro hr)]
    by_cases hle : pool.length ≤ maxOffset
    · rw [if_neg (Nat.not_lt.mpr hle)]
      cases hi : Utf8.illFormedAt? pool with
      | none =>
        have ht := Utf8.illFormedAt?_eq_none_iff.mp hi
        refine judges_of_total (fun _ => ⟨(), rfl⟩) ?_ (.inl ⟨hr, hle, ht⟩)
        intro e he
        cases he with
        | reserved h => exact absurd hr h
        | tooLarge _ h => omega
        | illFormed _ _ h => exact absurd ht h.not_isText
      | some n =>
        have hn := Utf8.illFormedAt?_eq_some_iff.mp hi
        refine judges_of_total (fun h => absurd h.isText hn.not_isText) ?_
          (.inr ⟨_, .illFormed hr hle hn⟩)
        intro e he
        cases he with
        | reserved h => exact absurd hr h
        | tooLarge _ h => omega
        | illFormed _ _ h => rw [hn.unique h]
    · have hlt := Nat.lt_of_not_le hle
      rw [if_pos hlt]
      refine judges_of_total (fun h => absurd h.length_le hle) ?_ (.inr ⟨_, .tooLarge hr hlt⟩)
      intro e he
      cases he with
      | reserved h => exact absurd hr h
      | tooLarge => rfl
      | illFormed _ h => exact absurd h hle
  · rw [if_pos hr]
    refine judges_of_total (fun h => absurd h.reserved hr) ?_ (.inr ⟨_, .reserved hr⟩)
    intro e he
    cases he with
    | reserved => rfl
    | tooLarge h => exact absurd h hr
    | illFormed h => exact absurd h hr

/-! ## Packed catalogs -/

namespace Packed

/-- The locale table lists `names`, and the mapping has `count` rows, of one slot for
each name and the default slot. -/
structure Shaped (p : Packed) (names : List String) (count : Nat) : Prop where
  lists : Locale.Directory.Lists p.localeTable names
  length_eq : p.mapping.length = count * (names.length + 1)

/-- What a packed catalog must be. -/
def WellFormed (p : Packed) : Prop :=
  ∃ names count, p.Shaped names count ∧ count ≤ maxMessages ∧ PoolOk p.pool ∧
    ∀ m, m < count → RowOk p.pool names.length (p.offset names.length m)

/-- The first thing that is wrong with a packed catalog: each fault comes with all
that was found right before it. -/
inductive FirstFault (p : Packed) : Error → Prop
  | localeTable {e : Error} (h : Locale.Directory.TableFault p.localeTable e) : FirstFault p e
  | misaligned {names : List String} (hl : Locale.Directory.Lists p.localeTable names)
      (h : ¬ names.length + 1 ∣ p.mapping.length) :
      FirstFault p (.misalignedMapping p.mapping.length (names.length + 1))
  | tooMany {names : List String} {count : Nat} (hs : p.Shaped names count)
      (h : maxMessages < count) : FirstFault p (.tooManyMessages count)
  | pool {names : List String} {count : Nat} {e : Error} (hs : p.Shaped names count)
      (hc : count ≤ maxMessages) (h : PoolFault p.pool e) : FirstFault p e
  | row {names : List String} {count m : Nat} {e : Error} (hs : p.Shaped names count)
      (hc : count ≤ maxMessages) (hp : PoolOk p.pool) (hm : m < count)
      (hbefore : ∀ k, k < m → RowOk p.pool names.length (p.offset names.length k))
      (h : RowFault p.pool names.length m (p.offset names.length m) e) : FirstFault p e

theorem readTexts_of_shaped {p : Packed} {names : List String} {count : Nat} (h : p.Shaped names count) :
    p.readTexts = if maxMessages < count then .error (.tooManyMessages count)
      else match checkPool p.pool with
        | .error e => .error e
        | .ok () => (readEntries p.pool (names.length + 1) count p.mapping #[]).map
            fun entries => ⟨⟨names⟩, entries⟩ := by
  have hmod : p.mapping.length % (names.length + 1) = 0 := by
    rw [h.length_eq, Nat.mul_mod_left]
  have hcount : count = p.mapping.length / (names.length + 1) := by
    rw [h.length_eq, Nat.mul_div_cancel _ (Nat.succ_pos names.length)]
  unfold readTexts
  rw [Locale.Directory.ofTable_of_lists h.lists, hcount]
  exact if_neg (not_not_intro hmod)

theorem readTexts_of_misaligned {p : Packed} {names : List String}
    (hl : Locale.Directory.Lists p.localeTable names)
    (h : ¬ names.length + 1 ∣ p.mapping.length) :
    p.readTexts = .error (.misalignedMapping p.mapping.length (names.length + 1)) := by
  have hmod : p.mapping.length % (names.length + 1) ≠ 0 := fun h0 =>
    h (Nat.dvd_of_mod_eq_zero h0)
  unfold readTexts
  simp only [Locale.Directory.ofTable_of_lists hl]
  exact if_pos hmod

theorem readTexts_of_fault {p : Packed} {e : Error} (h : p.FirstFault e) : p.readTexts = .error e := by
  cases h with
  | localeTable h =>
    unfold readTexts
    simp only [Locale.Directory.ofTable_of_fault h]
  | misaligned hl h => exact readTexts_of_misaligned hl h
  | tooMany hs h => rw [readTexts_of_shaped hs, if_pos h]
  | pool hs hc h =>
    rw [readTexts_of_shaped hs, if_neg (Nat.not_lt.mpr hc), ((judges_checkPool p.pool).2 e).mpr h]
  | row hs hc hp hm hbefore h =>
    obtain ⟨u, hu⟩ := (judges_checkPool p.pool).1.mpr hp
    have hrows := ((judges_readEntries hp.isText hs.length_eq).2 e).mpr ⟨_, hm, hbefore, h⟩
    rw [readTexts_of_shaped hs, if_neg (Nat.not_lt.mpr hc), hu, hrows]
    rfl

theorem readTexts_of_wellFormed {p : Packed} (h : p.WellFormed) : ∃ r, p.readTexts = .ok r := by
  obtain ⟨names, count, hs, hc, hp, hrows⟩ := h
  obtain ⟨u, hu⟩ := (judges_checkPool p.pool).1.mpr hp
  obtain ⟨entries, hentries⟩ := (judges_readEntries hp.isText hs.length_eq).1.mpr hrows
  refine ⟨⟨⟨names⟩, entries⟩, ?_⟩
  rw [readTexts_of_shaped hs, if_neg (Nat.not_lt.mpr hc), hu, hentries]
  rfl

/-- A packed catalog is either well-formed or has a first fault. -/
theorem wellFormed_or_fault (p : Packed) : p.WellFormed ∨ ∃ e, p.FirstFault e := by
  rcases Locale.Directory.lists_or_fault p.localeTable with ⟨names, hl⟩ | ⟨e, he⟩
  · by_cases hdvd : names.length + 1 ∣ p.mapping.length
    · obtain ⟨count, hcount⟩ := hdvd
      have hs : p.Shaped names count := ⟨hl, by rw [hcount, Nat.mul_comm]⟩
      by_cases hc : count ≤ maxMessages
      · rcases (judges_checkPool p.pool).good_or_fault with hp | ⟨e, he⟩
        · rcases (judges_readEntries hp.isText hs.length_eq).good_or_fault with
            hrows | ⟨e, m, hm, hbefore, he⟩
          · exact .inl ⟨names, count, hs, hc, hp, hrows⟩
          · exact .inr ⟨e, .row hs hc hp hm hbefore he⟩
        · exact .inr ⟨e, .pool hs hc he⟩
      · exact .inr ⟨_, .tooMany hs (Nat.lt_of_not_le hc)⟩
    · exact .inr ⟨_, .misaligned hl hdvd⟩
  · exact .inr ⟨e, .localeTable he⟩

theorem judges_readTexts (p : Packed) : Judges p.readTexts p.WellFormed p.FirstFault :=
  judges_of_total readTexts_of_wellFormed (fun _ => readTexts_of_fault) p.wellFormed_or_fault

/-! ## Top theorems -/

/-- A packed catalog loads exactly when it is well-formed, and the error is that
of the first fault otherwise. -/
theorem load_verdict (p : Packed) :
    ((∃ c, p.load = .ok c) ↔ p.WellFormed) ∧ ∀ e, p.load = .error e ↔ p.FirstFault e :=
  Judges.of_map (map_rows_load p ▸ judges_readTexts p)

end Packed

end Catalog

end ScriptLint
