import Mathlib.Data.List.Induction
import ScriptLint.Proofs.Lookup

/-! How a packed catalog is laid out.

* `s.slots`: the texts of all slots, row by row; an empty text stands for a missing one.
* `s.texts`: the texts that occur there, each once, in order of first use, without the
  empty one.
* `layout texts`: the pool of these texts, and `slotOffset texts text` where a text stands in it.

Both segments are functions of the slots alone:

    s.pack = .ok p → p.pool = layout s.texts ∧ p.mapping = s.slots.map (slotOffset s.texts)

(`segments_of_pack`).  While rows are packed, the pool is the layout of the slots so
far: `Pool.ofTexts (distinct used)` is the invariant, `place_eq` is its step, and
`placeAll_spec` and `packRows_layout` are its runs. -/

namespace ScriptLint.Catalog

/-! ## Slots and texts -/

/-- The texts of a row's slots: its translations in order, and last its default text. -/
def Entry.slots (row : Entry) : List String :=
  row.translations.map (·.getD "") ++ [row.default]

/-- The texts of all slots, row by row. -/
def Source.slots (s : Source) : List String :=
  s.rows.flatMap Entry.slots

/-- The texts that slots use, each once, in order of first use. -/
def distinct (slots : List String) : List String :=
  (slots.filter (· ≠ "")).eraseDups

/-- The texts of a catalog. -/
def Source.texts (s : Source) : List String :=
  distinct s.slots

theorem mem_distinct {slots : List String} {text : String} :
    text ∈ distinct slots ↔ text ≠ "" ∧ text ∈ slots := by
  simp [distinct, and_comm]

theorem distinct_append (used more : List String) :
    distinct used <+: distinct (used ++ more) := by
  rw [distinct, distinct, List.filter_append, List.eraseDups_append]
  exact List.prefix_append _ _

theorem distinct_concat_of_mem {used : List String} {text : String} (h : text ∈ "" :: used) :
    distinct (used ++ [text]) = distinct used := by
  rw [distinct, distinct, List.filter_append, List.eraseDups_append]
  by_cases hempty : text = ""
  · simp [hempty]
  · have hused : text ∈ used := by simpa [hempty] using h
    simp [List.removeAll, hempty, hused]

theorem distinct_concat_of_new {used : List String} {text : String} (h : text ∉ "" :: used) :
    distinct (used ++ [text]) = distinct used ++ [text] := by
  obtain ⟨hempty, hused⟩ : text ≠ "" ∧ text ∉ used := by simpa using h
  rw [distinct, distinct, List.filter_append, List.eraseDups_append]
  simp [List.removeAll, hempty, hused, List.eraseDups_cons]

/-- A text comes before another one when it is used first. -/
theorem distinct_inOrder (slots : List String) :
    (distinct slots).Pairwise fun a b => slots.idxOf a < slots.idxOf b := by
  induction slots using List.reverseRecOn with
  | nil => exact List.Pairwise.nil
  | append_singleton used text ih =>
    have hold : ∀ {a}, a ∈ distinct used → (used ++ [text]).idxOf a = used.idxOf a := fun ha =>
      List.idxOf_append_of_mem (mem_distinct.mp ha).2
    have hkept : (distinct used).Pairwise
        fun a b => (used ++ [text]).idxOf a < (used ++ [text]).idxOf b := by
      refine ih.imp_of_mem fun ha hb hlt => ?_
      rwa [hold ha, hold hb]
    by_cases hmem : text ∈ "" :: used
    · rwa [distinct_concat_of_mem hmem]
    · have hnew : text ∉ used := fun h => hmem (List.mem_cons_of_mem _ h)
      rw [distinct_concat_of_new hmem, List.pairwise_append]
      refine ⟨hkept, List.pairwise_singleton _ _, fun a ha b hb => ?_⟩
      rw [List.mem_singleton.mp hb, hold ha, List.idxOf_append_of_notMem hnew]
      have hlt := List.idxOf_lt_length_of_mem (mem_distinct.mp ha).2
      omega

theorem nodup_distinct (slots : List String) : (distinct slots).Nodup := by
  refine (distinct_inOrder slots).imp fun hlt => ?_
  rintro rfl
  exact Nat.lt_irrefl _ hlt

/-! ## Layout -/

/-- Texts laid out behind the reserved byte, each closed by a NUL. -/
def layout (texts : List String) : Bytes :=
  0 :: texts.flatMap fun text => Bytes.ofString text ++ [0]

/-- Where a text stands: behind all texts before it. -/
def offsetIn (texts : List String) (text : String) : Nat :=
  (layout (texts.takeWhile (· ≠ text))).length

/-- What the mapping holds for a slot: zero for an empty text. -/
def slotOffset (texts : List String) (text : String) : Nat :=
  if text = "" then 0 else offsetIn texts text

theorem layout_append (texts more : List String) :
    layout (texts ++ more) =
      layout texts ++ more.flatMap fun text => Bytes.ofString text ++ [0] := by
  simp [layout]

theorem length_layout_concat (texts : List String) (text : String) :
    (layout (texts ++ [text])).length =
      (layout texts).length + (Bytes.ofString text).length + 1 := by
  simp [layout_append, Nat.add_assoc]

theorem offsetIn_eq {before : List String} {text : String} (h : text ∉ before)
    (after : List String) : offsetIn (before ++ text :: after) text = (layout before).length := by
  have hbefore : ∀ t ∈ before, decide (t ≠ text) = true := by
    intro t ht
    rw [decide_eq_true_iff]
    rintro rfl
    exact h ht
  rw [offsetIn, List.takeWhile_append_of_pos hbefore]
  simp

/-- A text stays where it is when others are laid out behind it. -/
theorem offsetIn_mono {texts texts' : List String} (hp : texts <+: texts') {text : String}
    (h : text ∈ texts) : offsetIn texts' text = offsetIn texts text := by
  obtain ⟨more, rfl⟩ := hp
  obtain ⟨before, after, rfl, hbefore⟩ := List.eq_append_cons_of_mem h
  rw [List.append_assoc, List.cons_append, offsetIn_eq hbefore, offsetIn_eq hbefore]

theorem slotOffset_mono {used : List String} {text : String} (h : text ∈ used)
    (more : List String) :
    slotOffset (distinct (used ++ more)) text = slotOffset (distinct used) text := by
  unfold slotOffset
  split
  next => rfl
  next hne => exact offsetIn_mono (distinct_append used more) (mem_distinct.mpr ⟨hne, h⟩)

theorem holds_layout {before after : List String} {text : String} (h : '\x00' ∉ text.toList) :
    Holds (layout (before ++ text :: after)) (layout before).length text := by
  refine ⟨Nat.succ_pos _, h, after.flatMap (fun text => Bytes.ofString text ++ [0]), ?_⟩
  rw [layout_append, List.drop_left, List.flatMap_cons, List.append_assoc, List.singleton_append]

/-! ## The pool -/

/-- The pool after texts are laid out. -/
def Pool.ofTexts (texts : List String) : Pool where
  texts := (texts.map fun text => (text, offsetIn texts text)).reverse
  size := (layout texts).length

namespace Pool

theorem toBytes_ofTexts (texts : List String) : (ofTexts texts).toBytes = layout texts := by
  simp [toBytes, ofTexts, layout, List.flatMap_map]

theorem ofTexts_concat {texts : List String} {text : String} (h : text ∉ texts) :
    ofTexts (texts ++ [text]) =
      ⟨(text, (layout texts).length) :: (ofTexts texts).texts,
        (layout texts).length + (Bytes.ofString text).length + 1⟩ := by
  have hold : (texts.map fun t => (t, offsetIn (texts ++ [text]) t)) =
      texts.map fun t => (t, offsetIn texts t) := by
    apply List.map_congr_left
    intro t ht
    rw [offsetIn_mono (List.prefix_append texts [text]) ht]
  simp only [ofTexts, List.map_append, hold, List.map_singleton, offsetIn_eq h, List.reverse_append,
    List.reverse_singleton, List.singleton_append, length_layout_concat]

theorem offset?_of_mem {texts : List String} {text : String} (h : text ∈ texts) :
    (ofTexts texts).offset? text = some (offsetIn texts text) := by
  cases hfound : (ofTexts texts).offset? text with
  | none =>
    have hnone := List.lookup_eq_none_iff.mp hfound (text, offsetIn texts text)
      (by simpa [ofTexts] using h)
    simp at hnone
  | some offset =>
    obtain ⟨l₁, l₂, hl, -⟩ := List.lookup_eq_some_iff.mp hfound
    have hmem : (text, offset) ∈ (ofTexts texts).texts := by
      rw [hl]
      exact List.mem_append_right l₁ List.mem_cons_self
    obtain ⟨-, ht⟩ : text ∈ texts ∧ offsetIn texts text = offset := by simpa [ofTexts] using hmem
    rw [ht]

theorem offset?_of_notMem {texts : List String} {text : String} (h : text ∉ texts) :
    (ofTexts texts).offset? text = none := by
  rw [offset?, List.lookup_eq_none_iff]
  rintro ⟨t, offset⟩ hmem
  obtain ⟨ht, -⟩ : t ∈ texts ∧ offsetIn texts t = offset := by simpa [ofTexts] using hmem
  rw [bne_iff_ne]
  rintro rfl
  exact h ht

/-- Lays out the text of one slot. -/
def place (message : Nat) (p : Pool) (text : String) : Except Error (Nat × Pool) :=
  if text = "" then .ok (0, p) else p.intern message text

/-- Lays out the texts of a row's slots. -/
def placeAll (message : Nat) : Pool → List String → Except Error (List Nat × Pool)
  | p, [] => .ok ([], p)
  | p, text :: rest =>
    match p.place message text with
    | .error e => .error e
    | .ok (offset, p) =>
      match placeAll message p rest with
      | .error e => .error e
      | .ok (offsets, p) => .ok (offset :: offsets, p)

theorem internAll_eq (message : Nat) (p : Pool) (translations : List (Option String)) :
    p.internAll message translations = p.placeAll message (translations.map (·.getD "")) := by
  induction translations generalizing p with
  | nil => rfl
  | cons translation rest ih =>
    rw [internAll, List.map_cons, placeAll]
    simp only [ih]
    rfl

theorem placeAll_concat (message : Nat) (p : Pool) (slots : List String) (text : String) :
    p.placeAll message (slots ++ [text]) =
      match p.placeAll message slots with
      | .error e => .error e
      | .ok (offsets, p) =>
        match p.place message text with
        | .error e => .error e
        | .ok (offset, p) => .ok (offsets ++ [offset], p) := by
  induction slots generalizing p with
  | nil =>
    simp only [List.nil_append, placeAll]
  | cons slot slots ih =>
    simp only [List.cons_append, placeAll, ih]
    cases p.place message slot with
    | error e => rfl
    | ok placed =>
      cases hall : placeAll message placed.2 slots with
      | error e => simp only [hall]
      | ok all =>
        simp only [hall]
        cases place message all.2 text <;> rfl

/-- What happens to a slot when the slots before it are laid out and none of them has
a NUL: a NUL is found even if the text is not new, because no text that is there has one. -/
theorem place_eq {used : List String} (hused : ∀ t ∈ used, '\x00' ∉ t.toList) (message : Nat)
    (text : String) :
    (ofTexts (distinct used)).place message text =
      if '\x00' ∈ text.toList then .error (.interiorNul message)
      else if text ∉ "" :: used ∧ maxOffset < (layout (distinct used)).length then
        .error (.poolTooLarge (layout (distinct used)).length)
      else .ok (slotOffset (distinct (used ++ [text])) text,
        ofTexts (distinct (used ++ [text]))) := by
  by_cases hmem : text ∈ "" :: used
  · have hnul : '\x00' ∉ text.toList := by
      rcases List.mem_cons.mp hmem with rfl | h
      · decide
      · exact hused text h
    rw [if_neg hnul, if_neg (fun h => h.1 hmem), distinct_concat_of_mem hmem, place, slotOffset]
    split
    next => rfl
    next hne =>
      have hused : text ∈ used := by simpa [hne] using hmem
      rw [intern, offset?_of_mem (mem_distinct.mpr ⟨hne, hused⟩)]
  · have hne : text ≠ "" := by
      rintro rfl
      exact hmem List.mem_cons_self
    have hnew : text ∉ distinct used := fun h =>
      hmem (List.mem_cons_of_mem _ (mem_distinct.mp h).2)
    rw [place, if_neg hne, intern, offset?_of_notMem hnew, slotOffset, if_neg hne,
      distinct_concat_of_new hmem, offsetIn_eq hnew, ofTexts_concat hnew]
    simp only [List.contains_iff_mem, hmem, not_false_eq_true, true_and]
    rfl

theorem place_spec {used : List String} (hused : ∀ t ∈ used, '\x00' ∉ t.toList)
    {message offset : Nat} {text : String} {p : Pool}
    (h : (ofTexts (distinct used)).place message text = .ok (offset, p)) :
    (∀ t ∈ used ++ [text], '\x00' ∉ t.toList) ∧ p = ofTexts (distinct (used ++ [text])) ∧
      offset = slotOffset (distinct (used ++ [text])) text := by
  rw [place_eq hused] at h
  split at h
  next => cases h
  next hnul =>
  split at h
  next => cases h
  next =>
  cases h
  exact ⟨List.forall_mem_append.mpr ⟨hused, List.forall_mem_singleton.mpr hnul⟩, rfl, rfl⟩

/-- The slots of a row: each gets the offset of its own text, in the pool that
is reached in the end. -/
theorem placeAll_spec {used slots : List String} (hused : ∀ t ∈ used, '\x00' ∉ t.toList)
    {message : Nat} {offsets : List Nat} {p : Pool}
    (h : (ofTexts (distinct used)).placeAll message slots = .ok (offsets, p)) :
    (∀ t ∈ used ++ slots, '\x00' ∉ t.toList) ∧ p = ofTexts (distinct (used ++ slots)) ∧
      offsets = slots.map (slotOffset (distinct (used ++ slots))) := by
  induction slots generalizing used offsets with
  | nil =>
    cases h
    rw [List.append_nil]
    exact ⟨hused, rfl, rfl⟩
  | cons text rest ih =>
    rw [placeAll] at h
    split at h
    next => cases h
    next offset q hplace =>
    split at h
    next => cases h
    next offsets q' hrest =>
    cases h
    obtain ⟨hused', rfl, rfl⟩ := place_spec hused hplace
    have hmem : text ∈ used ++ [text] := by simp
    have hfirst := slotOffset_mono hmem rest
    obtain ⟨hslots, hp, hoffsets⟩ := ih hused' hrest
    rw [List.append_assoc, List.singleton_append] at hslots hp hoffsets hfirst
    exact ⟨hslots, hp, by rw [List.map_cons, hfirst, hoffsets]⟩

end Pool

/-! ## Rows -/

theorem packRow_eq (width message : Nat) (p : Pool) (row : Entry) :
    packRow width message p row =
      if row.translations.length ≠ width then
        .error (.translationCount message width row.translations.length)
      else if row.default = "" then .error (.emptyDefault message)
      else p.placeAll message row.slots := by
  unfold packRow
  split
  next => rfl
  next =>
  split
  next => rfl
  next hdefault =>
    have hslots := p.placeAll_concat message (row.translations.map (·.getD "")) row.default
    simp only [← Pool.internAll_eq, Pool.place, if_neg hdefault] at hslots
    exact hslots.symm

theorem packRow_layout {used : List String} (hused : ∀ t ∈ used, '\x00' ∉ t.toList)
    {width message : Nat} {row : Entry} {offsets : List Nat} {p : Pool}
    (h : packRow width message (.ofTexts (distinct used)) row = .ok (offsets, p)) :
    (∀ t ∈ used ++ row.slots, '\x00' ∉ t.toList) ∧
      p = .ofTexts (distinct (used ++ row.slots)) ∧
      offsets = row.slots.map (slotOffset (distinct (used ++ row.slots))) := by
  rw [packRow_eq] at h
  split at h
  next => cases h
  next =>
  split at h
  next => cases h
  next => exact Pool.placeAll_spec hused h

/-- Rows that are packed: the offsets of a row stay right while later rows are packed. -/
theorem packRows_layout {used : List String} (hused : ∀ t ∈ used, '\x00' ∉ t.toList)
    {width message : Nat} {rows : List Entry} {before after : List (List Nat)} {p : Pool}
    (h : packRows width message (.ofTexts (distinct used)) before rows = .ok (after, p)) :
    (∀ t ∈ used ++ rows.flatMap Entry.slots, '\x00' ∉ t.toList) ∧
      p = .ofTexts (distinct (used ++ rows.flatMap Entry.slots)) ∧
      after = before.reverse ++ rows.map fun row =>
        row.slots.map (slotOffset (distinct (used ++ rows.flatMap Entry.slots))) := by
  induction rows generalizing used message before with
  | nil =>
    cases h
    simpa using hused
  | cons row rows ih =>
    rw [packRows] at h
    split at h
    next => cases h
    next offsets q hrow =>
    obtain ⟨hused', rfl, rfl⟩ := packRow_layout hused hrow
    obtain ⟨hslots, hp, hafter⟩ := ih hused' h
    have hfirst : row.slots.map (slotOffset (distinct (used ++ row.slots))) =
        row.slots.map (slotOffset
          (distinct (used ++ row.slots ++ rows.flatMap Entry.slots))) := by
      apply List.map_congr_left
      intro text htext
      rw [slotOffset_mono (List.mem_append_right used htext)]
    rw [hfirst] at hafter
    rw [List.append_assoc, ← List.flatMap_cons] at hslots hp hafter
    exact ⟨hslots, hp, by rw [hafter]; simp⟩

/-- What packing writes, as functions of the slots. -/
theorem segments_of_pack {s : Source} {p : Packed} (h : s.pack = .ok p) :
    p.pool = layout s.texts ∧ p.mapping = s.slots.map (slotOffset s.texts) ∧
      ∀ t ∈ s.slots, '\x00' ∉ t.toList := by
  obtain ⟨-, -, rows, pool, hrows, rfl⟩ := s.pack_cases h
  have hempty : Pool.empty = .ofTexts (distinct []) := rfl
  have hnone : ∀ t ∈ ([] : List String), '\x00' ∉ t.toList := nofun
  rw [hempty] at hrows
  obtain ⟨hslots, rfl, rfl⟩ := packRows_layout hnone hrows
  refine ⟨Pool.toBytes_ofTexts _, ?_, hslots⟩
  rw [Source.slots, List.map_flatMap, List.flatMap_def]
  rfl

/-! ## Slots by message and locale -/

theorem getElem?_flatMap_of_length {α β : Type} {f : α → List β} {width : Nat} {xs : List α}
    (h : ∀ x ∈ xs, (f x).length = width) {m : Nat} {x : α} (hm : xs[m]? = some x) {l : Nat}
    (hl : l < width) : (xs.flatMap f)[m * width + l]? = (f x)[l]? := by
  induction xs generalizing m with
  | nil => cases hm
  | cons y ys ih =>
    obtain ⟨hy, hys⟩ := List.forall_mem_cons.mp h
    rw [List.flatMap_cons]
    cases m with
    | zero =>
      cases hm
      rw [Nat.zero_mul, Nat.zero_add, List.getElem?_append_left (by omega)]
    | succ m =>
      rw [Nat.succ_mul, List.getElem?_append_right (by omega), ← ih hys hm]
      congr 1
      omega

/-- Slot `l` of message `m` has a text: a translation that is there and not empty, or
the default text. -/
def Source.Uses (s : Source) (m l : Nat) (text : String) : Prop :=
  ∃ row, s.rows[m]? = some row ∧
    (s.Translates row l text ∨ l = s.locales.length ∧ text = row.default)

/-- A text has its own place in the pool: `offset` is the number of bytes before it. -/
def StandsAt (texts : List String) (text : String) (offset : Nat) : Prop :=
  ∃ before after, texts = before ++ text :: after ∧ offset = (layout before).length

theorem standsAt_offsetIn {texts : List String} {text : String} (h : text ∈ texts) :
    StandsAt texts text (offsetIn texts text) := by
  obtain ⟨before, after, rfl, hbefore⟩ := List.eq_append_cons_of_mem h
  exact ⟨before, after, rfl, offsetIn_eq hbefore after⟩

theorem StandsAt.holds {texts : List String} {text : String} {offset : Nat}
    (h : StandsAt texts text offset) (hnul : '\x00' ∉ text.toList) :
    Holds (layout texts) offset text := by
  obtain ⟨before, after, rfl, rfl⟩ := h
  exact holds_layout hnul

section
variable {s : Source} {p : Packed} {m l : Nat} {row : Entry} {text : String}

theorem row_of_pack (h : s.pack = .ok p) (hm : s.rows[m]? = some row) :
    row.translations.length = s.locales.length ∧ row.default ≠ "" := by
  obtain ⟨-, -, rows, pool, hrows, -⟩ := s.pack_cases h
  exact row_of_packRows hrows row (List.mem_of_getElem? hm)

theorem length_slots_of_pack (h : s.pack = .ok p) :
    ∀ row ∈ s.rows, row.slots.length = s.locales.length + 1 := by
  intro row hrow
  obtain ⟨m, hm⟩ := List.mem_iff_getElem?.mp hrow
  simp [Entry.slots, (row_of_pack h hm).1]

theorem offset_of_slot (h : s.pack = .ok p) (hm : s.rows[m]? = some row)
    (hl : l ≤ s.locales.length) (htext : row.slots[l]? = some text) :
    p.offset s.locales.length m l = slotOffset s.texts text := by
  have hslot := getElem?_flatMap_of_length (length_slots_of_pack h) hm (Nat.lt_succ_of_le hl)
  rw [Packed.offset, (segments_of_pack h).2.1, List.getD_eq_getElem?_getD, List.getElem?_map,
    Source.slots, hslot, htext]
  rfl

theorem getElem?_slots (h : l < row.translations.length) :
    row.slots[l]? = row.translations[l]?.map (·.getD "") := by
  rw [Entry.slots, List.getElem?_append_left (by simpa using h), List.getElem?_map]

/-- The slot of a translation that is missing or empty. -/
theorem offset_of_missing (h : s.pack = .ok p) (hm : s.rows[m]? = some row)
    (hl : l < s.locales.length) (hnone : ∀ text, ¬ s.Translates row l text) :
    p.offset s.locales.length m l = 0 := by
  have hlt : l < row.translations.length := (row_of_pack h hm).1 ▸ hl
  have hempty : row.translations[l].getD "" = "" := by
    cases ht : row.translations[l] with
    | none => rfl
    | some text =>
      apply Classical.byContradiction
      intro hne
      exact hnone text ⟨hl, List.getElem?_eq_some_iff.mpr ⟨hlt, ht⟩, hne⟩
  have hslot : row.slots[l]? = some "" := by
    rw [getElem?_slots hlt, List.getElem?_eq_getElem hlt, Option.map_some, hempty]
  rw [offset_of_slot h hm (Nat.le_of_lt hl) hslot]
  rfl

/-- A slot that has a text points to it. -/
theorem offset_of_uses (h : s.pack = .ok p) (hu : s.Uses m l text) :
    text ∈ s.texts ∧ '\x00' ∉ text.toList ∧
      p.offset s.locales.length m l = offsetIn s.texts text := by
  obtain ⟨row, hm, hslot⟩ := hu
  obtain ⟨hwidth, hdefault⟩ := row_of_pack h hm
  obtain ⟨hl, hne, htext⟩ : l ≤ s.locales.length ∧ text ≠ "" ∧ row.slots[l]? = some text := by
    rcases hslot with ⟨hl, ht, hne⟩ | ⟨rfl, rfl⟩
    · refine ⟨Nat.le_of_lt hl, hne, ?_⟩
      rw [getElem?_slots (hwidth ▸ hl), ht]
      rfl
    · refine ⟨Nat.le_refl _, hdefault, ?_⟩
      rw [Entry.slots, ← hwidth]
      simp
  have hmem : text ∈ s.slots :=
    List.mem_flatMap.mpr ⟨row, List.mem_of_getElem? hm, List.mem_of_getElem? htext⟩
  refine ⟨mem_distinct.mpr ⟨hne, hmem⟩, (segments_of_pack h).2.2 text hmem, ?_⟩
  rw [offset_of_slot h hm hl htext, slotOffset, if_neg hne]

theorem uses_of_not_missing (hm : s.rows[m]? = some row) (hl : l ≤ s.locales.length)
    (h : ¬ (l < s.locales.length ∧ ∀ text, ¬ s.Translates row l text)) :
    ∃ text, s.Uses m l text := by
  by_cases hlast : l = s.locales.length
  · exact ⟨row.default, row, hm, .inr ⟨hlast, rfl⟩⟩
  · obtain ⟨text, ht⟩ : ∃ text, s.Translates row l text := by
      apply Classical.byContradiction
      intro hnone
      exact h ⟨by omega, fun text ht => hnone ⟨text, ht⟩⟩
    exact ⟨text, row, hm, .inl ht⟩

theorem offset_eq_zero_iff (h : s.pack = .ok p) (hm : s.rows[m]? = some row)
    (hl : l ≤ s.locales.length) : p.offset s.locales.length m l = 0 ↔
      l < s.locales.length ∧ ∀ text, ¬ s.Translates row l text := by
  constructor
  · intro hzero
    apply Classical.byContradiction
    intro hsome
    obtain ⟨text, hu⟩ := uses_of_not_missing hm hl hsome
    rw [(offset_of_uses h hu).2.2] at hzero
    cases hzero
  · rintro ⟨hlt, hnone⟩
    exact offset_of_missing h hm hlt hnone

end

/-! ## Top theorems -/

/-- How a packed catalog is laid out. -/
structure Source.LaidOut (s : Source) (p : Packed) : Prop where
  pool_eq : p.pool = 0 :: s.texts.flatMap fun text => Bytes.ofString text ++ [0]
  mem_texts_iff : ∀ text, text ∈ s.texts ↔ text ≠ "" ∧ text ∈ s.slots
  nodup : s.texts.Nodup
  inOrder : s.texts.Pairwise fun a b => s.slots.idxOf a < s.slots.idxOf b
  length_eq : p.mapping.length = s.rows.length * (s.locales.length + 1)
  zero_iff : ∀ m row l, s.rows[m]? = some row → l ≤ s.locales.length →
    (p.offset s.locales.length m l = 0 ↔
      l < s.locales.length ∧ ∀ text, ¬ s.Translates row l text)
  standsAt : ∀ m row l, s.rows[m]? = some row → l ≤ s.locales.length →
    p.offset s.locales.length m l ≠ 0 →
      ∃ text, s.Uses m l text ∧ StandsAt s.texts text (p.offset s.locales.length m l)
  eq_iff : ∀ m l text m' l' text', s.Uses m l text → s.Uses m' l' text' →
    (p.offset s.locales.length m l = p.offset s.locales.length m' l' ↔ text = text')

/-- A catalog that packs is laid out in one way: each text once, in order of first use;
a zero for a translation that is missing or empty, and the place of its own text
for every other slot; so two slots share an offset when they share a text. -/
theorem pack_laidOut {s : Source} {p : Packed} (h : s.pack = .ok p) : s.LaidOut p := by
  obtain ⟨hpool, hmapping, -⟩ := segments_of_pack h
  refine ⟨hpool, fun _ => mem_distinct, nodup_distinct _, distinct_inOrder _, ?_,
    fun _ _ _ => offset_eq_zero_iff h, ?_, ?_⟩
  · rw [hmapping, List.length_map, Source.slots, List.length_flatMap,
      List.map_congr_left (length_slots_of_pack h)]
    simp
  · intro m row l hm hl hne
    obtain ⟨text, hu⟩ := uses_of_not_missing hm hl (mt (offset_eq_zero_iff h hm hl).mpr hne)
    obtain ⟨hmem, -, hoffset⟩ := offset_of_uses h hu
    rw [hoffset]
    exact ⟨text, hu, standsAt_offsetIn hmem⟩
  · intro m l text m' l' text' hu hu'
    obtain ⟨hmem, hnul, hoffset⟩ := offset_of_uses h hu
    obtain ⟨hmem', hnul', hoffset'⟩ := offset_of_uses h hu'
    rw [hoffset, hoffset']
    constructor
    · -- one offset holds one text
      intro heq
      have hholds := (standsAt_offsetIn hmem).holds hnul
      rw [heq] at hholds
      exact hholds.unique ((standsAt_offsetIn hmem').holds hnul')
    · rintro rfl
      rfl

/-- Four of the six slots have a text, and there are two texts. -/
theorem coffee_laidOut :
    coffee.texts = ["café", "coffee"] ∧ packedCoffee.pool = layout ["café", "coffee"] ∧
    packedCoffee.offset 2 0 0 = 0 ∧
    (packedCoffee.offset 2 0 1 = packedCoffee.offset 2 1 2 ↔ "café" = "café") ∧
    (packedCoffee.offset 2 0 2 = packedCoffee.offset 2 1 2 ↔ "coffee" = "café") := by
  have hpack : coffee.pack = .ok packedCoffee := rfl
  have hlaid := pack_laidOut hpack
  have htexts : coffee.texts = ["café", "coffee"] := by decide
  refine ⟨htexts, htexts ▸ hlaid.pool_eq, ?_, ?_, ?_⟩
  · refine (hlaid.zero_iff 0 _ 0 rfl (by decide)).mpr ⟨by decide, ?_⟩
    rintro text ⟨-, htext, hne⟩
    cases htext
    exact hne rfl
  · exact hlaid.eq_iff 0 1 "café" 1 2 "café" ⟨_, rfl, .inl ⟨by decide, rfl, by decide⟩⟩
      ⟨_, rfl, .inr ⟨rfl, rfl⟩⟩
  · exact hlaid.eq_iff 0 2 "coffee" 1 2 "café" ⟨_, rfl, .inr ⟨rfl, rfl⟩⟩ ⟨_, rfl, .inr ⟨rfl, rfl⟩⟩

end ScriptLint.Catalog
