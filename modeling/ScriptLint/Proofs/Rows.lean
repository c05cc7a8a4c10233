import ScriptLint.Catalog.Source
import ScriptLint.Proofs.Texts

/-! Catalogs as rows of texts.

A catalog keeps the places of its texts in two arrays.  Read as a table (`Catalog.rows`), it has
a row of texts for each message, and loading reads these texts row by row:

    c.rows.lookup? m l = c.lookup? m l                       (lookup?_rows)
    p.load.map Catalog.rows = p.readTexts                    (map_rows_load)

So the flat index of a slot never leaves the row of its message, and what is known of the rows
holds of the catalog.  The check of a text's length, which loading makes for every slot, never
fails (`resolveSlot_ne_poolTooLarge`). -/

namespace ScriptLint.Catalog

/-! ## Rows -/

/-- A table of texts, with one row for each message. -/
structure Rows where
  locales : Locale.Directory
  entries : Array Entry
  deriving DecidableEq

namespace Rows

def messageCount (r : Rows) : Nat :=
  r.entries.size

/-- The translation of a message into a locale, if there is one. -/
def translation? (r : Rows) (id locale : Nat) : Option String :=
  (r.entries[id]?).bind fun entry => (entry.translations[locale]?).join

/-- The text of a message in a locale, or its default text; `none` for an unknown message. -/
def lookup? (r : Rows) (id locale : Nat) : Option String :=
  (r.entries[id]?).map fun entry => ((entry.translations[locale]?).join).getD entry.default

end Rows

/-! ## Reading texts -/

/-- The text at an offset of the pool. -/
def textAt (pool : Bytes) (message offset : Nat) : Except Error String :=
  match pool.drop offset with
  | [] => .error (.offsetOutOfRange message offset)
  | b :: rest =>
    if Utf8.isTrailing b then .error (.offsetOutOfRange message offset)
    else
      match Bytes.cutAtNul? (b :: rest) with
      | none => .error (.unterminatedString message offset)
      | some (text, _) => .ok (Utf8.decodeLossy text)

/-- The text of a locale's slot; offset zero leaves it to the default text. -/
def slotText (pool : Bytes) (message offset : Nat) : Except Error (Option String) :=
  if offset = 0 then .ok none else (textAt pool message offset).map some

/-- The text of the default slot, which must be there and must not be empty. -/
def defaultText (pool : Bytes) (message offset : Nat) : Except Error String :=
  if offset = 0 then .error (.missingDefault message)
  else
    match textAt pool message offset with
    | .error e => .error e
    | .ok text => if text = "" then .error (.emptyDefault message) else .ok text

/-- Reads a row of offsets as texts. -/
def readEntry (pool : Bytes) (message : Nat) (row : List Nat) : Except Error Entry :=
  match row.getLast? with
  | none => .error (.missingDefault message)
  | some last =>
    match defaultText pool message last with
    | .error e => .error e
    | .ok text =>
      match row.dropLast.mapM (slotText pool message) with
      | .error e => .error e
      | .ok translations => .ok ⟨text, translations⟩

/-- Reads `count` rows of `stride` offsets each, after those already in `entries`. -/
def readEntries (pool : Bytes) (stride : Nat) :
    Nat → List Nat → Array Entry → Except Error (Array Entry)
  | 0, _, entries => .ok entries
  | count + 1, mapping, entries =>
    match readEntry pool entries.size (mapping.take stride) with
    | .error e => .error e
    | .ok entry => readEntries pool stride count (mapping.drop stride) (entries.push entry)

/-- Reads all texts of a packed catalog. -/
def Packed.readTexts (p : Packed) : Except Error Rows :=
  match Locale.Directory.ofTable p.localeTable with
  | .error e => .error e
  | .ok locales =>
    let stride := locales.size + 1
    let count := p.mapping.length / stride
    if p.mapping.length % stride ≠ 0 then .error (.misalignedMapping p.mapping.length stride)
    else if maxMessages < count then .error (.tooManyMessages count)
    else
      match checkPool p.pool with
      | .error e => .error e
      | .ok () => (readEntries p.pool stride count p.mapping #[]).map fun entries => ⟨locales, entries⟩

/-! ## Places and their texts -/

/-- The text that lies in a span of the pool. -/
def TextSpan.text (span : TextSpan) (pool : Bytes) : String :=
  Utf8.decodeLossy ((pool.drop span.start).take span.length)

def Slot.text? (slot : Slot) (pool : Bytes) : Option String :=
  match slot with
  | .translated span => some (span.text pool)
  | .useDefault => none

/-- Two computations that give the same in the end fail alike or both succeed. -/
theorem error_or_ok_of_map_eq {ε α β γ : Type} {x : Except ε α} {y : Except ε β} {f : α → γ}
    {g : β → γ} (h : x.map f = y.map g) :
    (∃ e, x = .error e ∧ y = .error e) ∨ ∃ a b, x = .ok a ∧ y = .ok b ∧ f a = g b := by
  cases x with
  | error e =>
    cases y with
    | error e' =>
      cases h
      exact .inl ⟨e, rfl, rfl⟩
    | ok b => cases h
  | ok a =>
    cases y with
    | error e => cases h
    | ok b => exact .inr ⟨a, b, rfl, rfl, Except.ok.inj h⟩

section
variable {pool : Bytes} {message offset : Nat}

theorem cutAtNul?_of_findIdx? {bs : Bytes} {length : Nat} (h : bs.findIdx? (· == 0) = some length) :
    Bytes.cutAtNul? bs = some (bs.take length, bs.drop (length + 1)) := by
  obtain ⟨hlt, hnul, hbefore⟩ := List.findIdx?_eq_some_iff_getElem.mp h
  have hdrop := List.drop_eq_getElem_cons hlt
  rw [beq_iff_eq.mp hnul] at hdrop
  rw [Bytes.cutAtNul?_eq_some_iff]
  constructor
  · rw [← hdrop, List.take_append_drop]
  · intro hmem
    obtain ⟨i, hi, hzero⟩ := List.getElem_of_mem hmem
    rw [List.length_take] at hi
    rw [List.getElem_take] at hzero
    exact hbefore i (by omega) (beq_iff_eq.mpr hzero)

theorem cutAtNul?_of_findIdx?_eq_none {bs : Bytes} (h : bs.findIdx? (· == 0) = none) :
    Bytes.cutAtNul? bs = none := by
  refine Bytes.cutAtNul?_eq_none fun hmem => ?_
  have hzero := List.findIdx?_eq_none_iff.mp h 0 hmem
  cases hzero

/-- An offset is out of range when no text can be cut off there. -/
theorem textAt_of_outOfRange (h0 : offset ≠ 0)
    (h : Utf8.canCut pool offset = false ∨ pool.length ≤ offset) :
    textAt pool message offset = .error (.offsetOutOfRange message offset) := by
  unfold textAt
  split
  next => rfl
  next b rest hdrop =>
    have hlt : offset < pool.length := by
      apply Nat.lt_of_not_le
      intro hle
      rw [List.drop_eq_nil_of_le hle] at hdrop
      cases hdrop
    have hb : pool[offset]? = some b := by
      rw [← List.head?_drop, hdrop]
      rfl
    refine if_pos ?_
    rcases h with hcut | hle
    · simpa [Utf8.canCut, hb, h0, Nat.ne_of_lt hlt] using hcut
    · omega

theorem textAt_of_canCut (hcut : Utf8.canCut pool offset = true) (hlt : offset < pool.length)
    (h0 : offset ≠ 0) :
    textAt pool message offset =
      match Bytes.cutAtNul? (pool.drop offset) with
      | none => .error (.unterminatedString message offset)
      | some (text, _) => .ok (Utf8.decodeLossy text) := by
  have hdrop := List.drop_eq_getElem_cons hlt
  have htrailing : Utf8.isTrailing pool[offset] = false := by
    simpa [Utf8.canCut, h0, Nat.ne_of_lt hlt, List.getElem?_eq_getElem hlt] using hcut
  unfold textAt
  rw [hdrop]
  simp only [htrailing, Bool.false_eq_true, if_false]

/-- The text at an offset lies in the pool, so it is no longer than that. -/
theorem length_le_of_findIdx? {length : Nat}
    (h : (pool.drop offset).findIdx? (· == 0) = some length) : length ≤ pool.length := by
  have hlt := (List.findIdx?_eq_some_iff_getElem.mp h).1
  rw [List.length_drop] at hlt
  omega

/-- A pool in reach of offsets has no text that is too long for them. -/
theorem resolveSlot_ne_poolTooLarge (hpool : pool.length ≤ maxOffset) (size : Nat) :
    resolveSlot pool message offset ≠ .error (.poolTooLarge size) := by
  intro h
  unfold resolveSlot at h
  split at h
  next => cases h
  next =>
  split at h
  next => cases h
  next =>
  split at h
  next => cases h
  next length hlength =>
  split at h
  next hlt =>
    have hle := length_le_of_findIdx? hlength
    omega
  next => cases h

/-- Finding the place of a text and reading it there is reading the text. -/
theorem map_resolveSlot (hpool : pool.length ≤ maxOffset) :
    (resolveSlot pool message offset).map (·.text? pool) = slotText pool message offset := by
  unfold resolveSlot slotText
  by_cases h0 : offset = 0
  · rw [if_pos h0, if_pos h0]
    rfl
  rw [if_neg h0, if_neg h0]
  by_cases hrange : Utf8.canCut pool offset = false ∨ pool.length ≤ offset
  · rw [if_pos hrange, textAt_of_outOfRange h0 hrange]
    rfl
  rw [if_neg hrange]
  obtain ⟨hcut, hlt⟩ := not_or.mp hrange
  rw [textAt_of_canCut (Bool.of_not_eq_false hcut) (Nat.lt_of_not_le hlt) h0]
  cases hlength : (pool.drop offset).findIdx? (· == 0) with
  | none =>
    rw [cutAtNul?_of_findIdx?_eq_none hlength]
    rfl
  | some length =>
    have hle := length_le_of_findIdx? hlength
    have hfits : ¬ maxOffset < length := by omega
    rw [cutAtNul?_of_findIdx? hlength]
    simp only [if_neg hfits]
    rfl

theorem TextSpan.Inside.isEmpty_iff {span : TextSpan} (h : span.Inside pool) :
    span.isEmpty = true ↔ span.text pool = "" := by
  have hle : span.start + span.length ≤ pool.length := h.stop_le
  rw [isEmpty, text, Utf8.decodeLossy_eq_empty_iff, ← List.length_eq_zero_iff, List.length_take,
    List.length_drop, beq_iff_eq]
  omega

/-- A default text is looked for as every other one, and must be there and not be empty. -/
theorem map_resolveDefault (hpool : pool.length ≤ maxOffset) :
    (resolveDefault pool message offset).map (·.text pool) = defaultText pool message offset := by
  unfold resolveDefault defaultText
  by_cases h0 : offset = 0
  · rw [if_pos h0, resolveSlot, if_pos h0]
    rfl
  rw [if_neg h0]
  have htext : (resolveSlot pool message offset).map (·.text? pool) = _ := map_resolveSlot hpool
  rw [slotText, if_neg h0] at htext
  rcases error_or_ok_of_map_eq htext with ⟨e, hslot, hat⟩ | ⟨slot, text, hslot, hat, htext⟩
  · rw [hslot, hat]
    rfl
  rw [hslot, hat]
  cases slot with
  | useDefault => cases htext
  | translated span =>
    have hspan : span.text pool = text := Option.some.inj htext
    have hempty := TextSpan.Inside.isEmpty_iff (inside_of_resolveSlot hslot)
    rw [hspan] at hempty
    by_cases h : text = ""
    · simp only [if_pos (hempty.mpr h), if_pos h]
      rfl
    · simp only [if_neg fun he => h (hempty.mp he), if_neg h]
      exact congrArg Except.ok hspan

theorem map_mapM_resolveSlot (hpool : pool.length ≤ maxOffset) (offsets : List Nat) :
    (offsets.mapM (resolveSlot pool message)).map (·.map (·.text? pool)) =
      offsets.mapM (slotText pool message) := by
  induction offsets with
  | nil => rfl
  | cons offset offsets ih =>
    rw [List.mapM_cons, List.mapM_cons, ← ih, ← map_resolveSlot hpool]
    cases resolveSlot pool message offset with
    | error e => rfl
    | ok slot => cases offsets.mapM (resolveSlot pool message) <;> rfl

/-! ## Rows of slots -/

/-- The slots of message `m`, where there are `width` locales. -/
def Slots.row (slots : Slots) (width m : Nat) : List Slot :=
  (slots.translations.toList.drop (m * width)).take width

/-- The texts of some messages, for `width` locales. -/
def Slots.entries (slots : Slots) (pool : Bytes) (width : Nat) : Array Entry :=
  Array.ofFn fun m : Fin slots.defaults.size =>
    ⟨slots.defaults[m].text pool, (slots.row width m).map (·.text? pool)⟩

variable {width : Nat} {slots : Slots}

theorem Slots.size_entries : (slots.entries pool width).size = slots.defaults.size :=
  Array.size_ofFn

/-- A new row stands behind all others and leaves them as they are. -/
theorem Slots.row_push (hs : slots.translations.size = slots.defaults.size * width)
    {translated : List Slot} (hwidth : translated.length = width) (span : TextSpan) {m : Nat}
    (hm : m ≤ slots.defaults.size) :
    Slots.row ⟨slots.defaults.push span, slots.translations ++ translated.toArray⟩ width m =
      if m < slots.defaults.size then slots.row width m else translated := by
  have hlength : slots.translations.toList.length = slots.defaults.size * width := hs
  have hle := Nat.mul_le_mul_right width hm
  unfold row
  rw [Array.toList_append, List.drop_append_of_le_length (hlength ▸ hle)]
  split
  next hlt =>
    have hrow := Nat.mul_le_mul_right width (Nat.succ_le_of_lt hlt)
    rw [Nat.succ_mul] at hrow
    apply List.take_append_of_le_length
    rw [List.length_drop]
    omega
  next hge =>
    have hm : m * width = slots.translations.toList.length := by
      rw [hlength, Nat.le_antisymm hm (Nat.le_of_not_lt hge)]
    rw [hm, List.drop_length, List.nil_append, ← hwidth, List.take_length]

/-- One more row of slots is one more row of texts. -/
theorem Slots.entries_push (hs : slots.translations.size = slots.defaults.size * width)
    {translated : List Slot} (hwidth : translated.length = width) (span : TextSpan) :
    Slots.entries ⟨slots.defaults.push span, slots.translations ++ translated.toArray⟩ pool width =
      (slots.entries pool width).push ⟨span.text pool, translated.map (·.text? pool)⟩ := by
  apply Array.ext
  · simp [entries]
  · intro m hm hm'
    rw [Array.size_push, size_entries] at hm'
    have hrow := row_push hs hwidth span (Nat.le_of_lt_succ hm')
    simp only [entries, Array.getElem_ofFn, Array.getElem_push, Array.size_ofFn, hrow,
      Fin.getElem_fin]
    split <;> rfl

/-- Reading a row of offsets adds its texts. -/
theorem map_readRow (hpool : pool.length ≤ maxOffset)
    (hs : slots.translations.size = slots.defaults.size * width) {row : List Nat}
    (hrow : row.length = width + 1) :
    (readRow pool slots row).map (·.entries pool width) =
      (readEntry pool slots.defaults.size row).map (slots.entries pool width).push := by
  unfold readRow readEntry
  cases row.getLast? with
  | none => rfl
  | some last =>
    dsimp only
    rw [← map_resolveDefault hpool, ← map_mapM_resolveSlot hpool]
    cases resolveDefault pool slots.defaults.size last with
    | error e => rfl
    | ok span =>
      cases htranslated : row.dropLast.mapM (resolveSlot pool slots.defaults.size) with
      | error e => rfl
      | ok translated =>
        have hlength := (inside_of_mapM htranslated).1
        rw [List.length_dropLast, hrow, Nat.add_sub_cancel] at hlength
        exact congrArg Except.ok (Slots.entries_push hs hlength span)

theorem map_readRows (hpool : pool.length ≤ maxOffset) {count : Nat} {mapping : List Nat}
    (hmapping : mapping.length = count * (width + 1))
    (hs : LaidOut pool width slots.defaults slots.translations) :
    (readRows pool (width + 1) count mapping slots).map (·.entries pool width) =
      readEntries pool (width + 1) count mapping (slots.entries pool width) := by
  induction count generalizing mapping slots with
  | zero => rfl
  | succ count ih =>
    rw [Nat.succ_mul] at hmapping
    have hfirst : (mapping.take (width + 1)).length = width + 1 := by
      rw [List.length_take]
      omega
    have hrest : (mapping.drop (width + 1)).length = count * (width + 1) := by
      rw [List.length_drop]
      omega
    have hrow := map_readRow hpool hs.size_eq hfirst
    rw [readRows, readEntries, Slots.size_entries]
    rcases error_or_ok_of_map_eq hrow with ⟨e, hnext, hentry⟩ | ⟨next, entry, hnext, hentry, heq⟩
    · rw [hnext, hentry]
      rfl
    · rw [hnext, hentry]
      dsimp only
      rw [ih hrest (laidOut_of_readRow hfirst hs hnext), heq]

end

/-! ## Catalogs -/

/-- A catalog read as a table. -/
def rows (c : Catalog) : Rows :=
  ⟨c.locales, Slots.entries ⟨c.defaults, c.translations⟩ c.pool c.localeCount⟩

theorem locales_rows (c : Catalog) : c.rows.locales = c.locales :=
  rfl

theorem messageCount_rows (c : Catalog) : c.rows.messageCount = c.messageCount :=
  Slots.size_entries

/-- The row of a message holds its slots, and the guarded flat index finds them there. -/
theorem getElem?_row (c : Catalog) (m l : Nat) :
    (Slots.row ⟨c.defaults, c.translations⟩ c.localeCount m)[l]? = c.slot? m l := by
  unfold Slots.row slot?
  by_cases hl : c.localeCount ≤ l
  · rw [if_pos hl, List.getElem?_eq_none_iff, List.length_take]
    omega
  · rw [if_neg hl, List.getElem?_take_of_lt (Nat.lt_of_not_le hl), List.getElem?_drop,
      Array.getElem?_toList]

theorem entries_rows (c : Catalog) {m : Nat} (hm : m < c.defaults.size) :
    c.rows.entries[m]? = some ⟨c.defaults[m].text c.pool,
      (Slots.row ⟨c.defaults, c.translations⟩ c.localeCount m).map (·.text? c.pool)⟩ := by
  rw [rows, Slots.entries, Array.getElem?_ofFn, dif_pos hm]
  rfl

theorem entries_rows_of_le (c : Catalog) {m : Nat} (hm : c.messageCount ≤ m) :
    c.rows.entries[m]? = none := by
  rw [Array.getElem?_eq_none_iff]
  exact Nat.le_trans (Nat.le_of_eq c.messageCount_rows) hm

/-- The row of a message says of each locale what its slot says. -/
theorem translation?_rows (c : Catalog) (m l : Nat) :
    c.rows.translation? m l = (c.slot? m l).bind (·.text? c.pool) := by
  unfold Rows.translation?
  by_cases hm : m < c.messageCount
  · rw [c.entries_rows hm]
    show (List.map _ _)[l]?.join = _
    rw [List.getElem?_map, c.getElem?_row m l]
    cases c.slot? m l <;> rfl
  · rw [c.entries_rows_of_le (Nat.le_of_not_lt hm), c.slot?_eq_none_of_le (Nat.le_of_not_lt hm)]
    rfl

theorem isSome_translation?_rows (c : Catalog) (m l : Nat) :
    (c.rows.translation? m l).isSome = c.hasTranslation m l := by
  rw [translation?_rows, hasTranslation]
  rcases c.slot? m l with _ | _ | _ <;> rfl

theorem TextSpan.Inside.text?_eq {span : TextSpan} {pool : Bytes} (h : span.Inside pool) :
    span.text? pool = some (span.text pool) :=
  if_pos h

/-- A lookup by places gives what the table has. -/
theorem lookup?_rows (c : Catalog) (m l : Nat) : c.rows.lookup? m l = c.lookup? m l := by
  by_cases hm : m < c.defaults.size
  · have hdefault : (c.defaults[m]?).bind (·.text? c.pool) = some (c.defaults[m].text c.pool) := by
      rw [Array.getElem?_eq_getElem hm]
      exact (c.laidOut.defaults_inside _ (Array.getElem_mem hm)).text?_eq
    unfold Rows.lookup? lookup? slotText?
    rw [c.entries_rows hm, Option.map_some, List.getElem?_map, c.getElem?_row m l, hdefault]
    match hslot : c.slot? m l with
    | none => rfl
    | some .useDefault => rfl
    | some (.translated span) =>
      have hinside := c.laidOut.translations_inside _ (mem_of_slot? hslot)
      exact (TextSpan.Inside.text?_eq hinside).symm
  · rw [(c.lookup?_eq_none_iff m l).mpr (Nat.le_of_not_lt hm), Rows.lookup?,
      c.entries_rows_of_le (Nat.le_of_not_lt hm)]
    rfl

theorem length_le_of_checkPool {pool : Bytes} (h : checkPool pool = .ok ()) :
    pool.length ≤ maxOffset := by
  unfold checkPool at h
  split at h
  next => cases h
  next =>
  split at h
  next => cases h
  next hlt => exact Nat.le_of_not_lt hlt

/-- Loading a catalog reads its texts, and fails as reading them does. -/
theorem map_rows_load (p : Packed) : p.load.map rows = p.readTexts := by
  unfold Packed.load Packed.readTexts
  cases Locale.Directory.ofTable p.localeTable with
  | error e => rfl
  | ok locales =>
    dsimp only
    by_cases haligned : p.mapping.length % (locales.size + 1) ≠ 0
    · rw [dif_pos haligned, if_pos haligned]
      rfl
    rw [dif_neg haligned, if_neg haligned]
    split
    next => rfl
    next =>
    cases hpool : checkPool p.pool with
    | error e => rfl
    | ok u =>
      have hdvd := Nat.dvd_of_mod_eq_zero (Decidable.not_not.mp haligned)
      have hempty : LaidOut p.pool locales.size (Slots.mk #[] #[]).defaults #[] := laidOut_empty ..
      have hrows := map_readRows (length_le_of_checkPool hpool) (Nat.div_mul_cancel hdvd).symm
        hempty
      have hnone : Slots.entries ⟨#[], #[]⟩ p.pool locales.size = #[] := rfl
      rw [hnone] at hrows
      dsimp only
      split
      next h =>
        rw [h] at hrows
        rw [← hrows]
        rfl
      next h =>
        rw [h] at hrows
        rw [← hrows]
        rfl

end ScriptLint.Catalog
