import ScriptLint.Proofs.Interning

/-! Which catalogs can be packed, and which fault is named when one cannot.

    s.Fits → ((∃ p, s.pack = .ok p)  ↔  s.Packable)
    s.Fits → (s.pack = .error e      ↔  s.FirstFault e)        (pack_verdict)

`s.Fits` says that every text of the catalog begins at a 32-bit offset.  Faults are
looked for in order: the names of the locales, the number of messages, and then the
messages one after the other.  A NUL is looked for only in a text that is new to the
pool, but no text with a NUL gets into it (`Pool.place_eq`), so none is passed over. -/

namespace ScriptLint.Catalog

open Locale.Directory (Listable)

/-! ## Names -/

/-- What is wrong with a locale name, after names that can be listed. -/
inductive NameFault (earlier : List String) (name : String) : Error → Prop
  | empty (h : name = "") : NameFault earlier name (.emptyLocaleName earlier.length)
  | nul (hne : name ≠ "") (h : '\x00' ∈ name.toList) :
      NameFault earlier name (.invalidLocaleName earlier.length)
  | duplicate (hne : name ≠ "") (hnul : '\x00' ∉ name.toList) (h : name ∈ earlier) :
      NameFault earlier name (.duplicateLocale name)

/-- The first thing that is wrong with the names of the locales. -/
def NamesFault (names : List String) (e : Error) : Prop :=
  ∃ before name after, names = before ++ name :: after ∧ Listable before ∧ NameFault before name e

theorem listable_concat_or_fault {names : List String} (h : Listable names) (name : String) :
    Listable (names ++ [name]) ∨ ∃ e, NameFault names name e := by
  by_cases hne : name = ""
  · exact .inr ⟨_, .empty hne⟩
  by_cases hnul : '\x00' ∈ name.toList
  · exact .inr ⟨_, .nul hne hnul⟩
  by_cases hmem : name ∈ names
  · exact .inr ⟨_, .duplicate hne hnul hmem⟩
  · exact .inl (h.concat hmem hne hnul)

theorem listable_or_fault (names : List String) : Listable names ∨ ∃ e, NamesFault names e := by
  induction names using List.reverseRecOn with
  | nil => exact .inl ⟨List.nodup_nil, nofun, nofun⟩
  | append_singleton names name ih =>
    rcases ih with hl | ⟨e, before, bad, after, rfl, hl, he⟩
    · rcases listable_concat_or_fault hl name with h | ⟨e, he⟩
      · exact .inl h
      · exact .inr ⟨e, names, name, [], rfl, hl, he⟩
    · exact .inr ⟨e, before, bad, after ++ [name], by simp, hl, he⟩

/-- Names that can be listed are passed over. -/
theorem checkLocales_append (earlier : List String) {names : List String}
    (h : Listable (earlier.reverse ++ names)) (rest : List String) :
    checkLocales earlier (names ++ rest) = checkLocales (names.reverse ++ earlier) rest := by
  induction names generalizing earlier with
  | nil => rfl
  | cons name names ih =>
    have hmem : name ∈ earlier.reverse ++ name :: names :=
      List.mem_append_right _ List.mem_cons_self
    have hnul : name.toList.contains '\x00' = false := by
      simpa using h.nul_notMem name hmem
    have hnew : earlier.contains name = false := by
      rw [Bool.eq_false_iff, ne_eq, List.contains_iff_mem]
      intro hold
      exact (List.nodup_append.mp h.nodup).2.2 name (List.mem_reverse.mpr hold) name
        List.mem_cons_self rfl
    have hrest : Listable ((name :: earlier).reverse ++ names) := by
      rwa [List.reverse_cons, List.append_assoc, List.singleton_append]
    rw [List.cons_append, checkLocales, if_neg (h.ne_empty name hmem), hnul, hnew, ih _ hrest]
    simp

theorem checkLocales_of_nameFault {earlier : List String} {name : String} {e : Error}
    (h : NameFault earlier.reverse name e) (rest : List String) :
    checkLocales earlier (name :: rest) = .error e := by
  rw [checkLocales]
  cases h with
  | empty h => rw [if_pos h, List.length_reverse]
  | nul hne h => rw [if_neg hne, if_pos (List.contains_iff_mem.mpr h), List.length_reverse]
  | duplicate hne hnul h =>
    have hold : earlier.contains name = true := List.contains_iff_mem.mpr (List.mem_reverse.mp h)
    rw [if_neg hne, if_neg (fun hc => hnul (List.contains_iff_mem.mp hc)), if_pos hold]

theorem judges_checkLocales (names : List String) :
    Judges (checkLocales [] names) (Listable names) (NamesFault names) := by
  refine judges_of_total ?_ ?_ (listable_or_fault names)
  · intro h
    have hpassed := checkLocales_append [] h []
    rw [List.append_nil] at hpassed
    exact ⟨(), hpassed⟩
  · rintro e ⟨before, name, after, rfl, hl, he⟩
    rw [checkLocales_append [] hl]
    apply checkLocales_of_nameFault
    simpa using he

/-! ## Slots -/

/-- The texts of these slots fit a pool: each begins at a 32-bit offset. -/
def Fits (slots : List String) : Prop :=
  ∀ text ∈ distinct slots, offsetIn (distinct slots) text ≤ maxOffset

theorem Fits.of_append {used more : List String} (h : Fits (used ++ more)) : Fits used := by
  intro text htext
  have hfront := distinct_append used more
  rw [← offsetIn_mono hfront htext]
  exact h text (hfront.subset htext)

theorem Pool.judges_place {used : List String} (hused : ∀ t ∈ used, '\x00' ∉ t.toList)
    {text : String} (hfits : Fits (used ++ [text])) (message : Nat) :
    Judges ((ofTexts (distinct used)).place message text) ('\x00' ∉ text.toList)
      fun e => '\x00' ∈ text.toList ∧ e = .interiorNul message := by
  rw [place_eq hused]
  by_cases hnul : '\x00' ∈ text.toList
  · rw [if_pos hnul]
    refine judges_of_total (absurd hnul) ?_ (.inr ⟨_, hnul, rfl⟩)
    rintro e ⟨-, rfl⟩
    rfl
  · have hroom : ¬ (text ∉ "" :: used ∧ maxOffset < (layout (distinct used)).length) := by
      rintro ⟨hnew, hfull⟩
      have hnotMem : text ∉ distinct used := fun h =>
        hnew (List.mem_cons_of_mem _ (mem_distinct.mp h).2)
      have hle := hfits text
      rw [distinct_concat_of_new hnew, offsetIn_eq hnotMem] at hle
      have := hle (List.mem_append_right _ (List.mem_singleton.mpr rfl))
      omega
    rw [if_neg hnul, if_neg hroom]
    exact judges_of_total (fun _ => ⟨_, rfl⟩) (fun e he => absurd he.1 hnul) (.inl hnul)

/-- A row's slots are laid out unless one of them has a NUL. -/
theorem Pool.judges_placeAll {used slots : List String} (hused : ∀ t ∈ used, '\x00' ∉ t.toList)
    (hfits : Fits (used ++ slots)) (message : Nat) :
    Judges ((ofTexts (distinct used)).placeAll message slots) (∀ t ∈ slots, '\x00' ∉ t.toList)
      fun e => (∃ t ∈ slots, '\x00' ∈ t.toList) ∧ e = .interiorNul message := by
  induction slots generalizing used with
  | nil =>
    refine judges_of_total (fun _ => ⟨_, rfl⟩) ?_ (.inl nofun)
    rintro e ⟨⟨t, ht, -⟩, -⟩
    cases ht
  | cons text rest ih =>
    rw [← List.singleton_append, ← List.append_assoc] at hfits
    have hrest : ∀ placed, (ofTexts (distinct used)).place message text = .ok placed →
        Judges ((placed.2.placeAll message rest).map fun r => (placed.1 :: r.1, r.2))
          (∀ t ∈ rest, '\x00' ∉ t.toList)
          fun e => (∃ t ∈ rest, '\x00' ∈ t.toList) ∧ e = .interiorNul message := by
      rintro ⟨offset, p⟩ hplaced
      obtain ⟨hused', rfl, -⟩ := place_spec hused hplaced
      exact (ih hused' hfits).map _
    refine ((judges_place hused hfits.of_append message).andThen hrest (fun e he => ?_)
      fun placed hplaced => ?_).congr ?_ fun e => ?_
    · rw [placeAll, he]
    · obtain ⟨offset, p⟩ := placed
      rw [placeAll, hplaced]
      dsimp only
      cases p.placeAll message rest <;> rfl
    · exact List.forall_mem_cons
    · by_cases hnul : '\x00' ∈ text.toList
      · simp [hnul]
      · simp [hnul]

/-! ## Rows -/

/-- What a row must be to be packed for `width` locales. -/
structure Entry.Packable (width : Nat) (row : Entry) : Prop where
  length_eq : row.translations.length = width
  default_ne : row.default ≠ ""
  nul_default : '\x00' ∉ row.default.toList
  nul_translation : ∀ text, some text ∈ row.translations → '\x00' ∉ text.toList

/-- The first thing that is wrong with a row. -/
inductive Entry.Fault (width message : Nat) (row : Entry) : Error → Prop
  | count (h : row.translations.length ≠ width) :
      Fault width message row (.translationCount message width row.translations.length)
  | empty (hc : row.translations.length = width) (h : row.default = "") :
      Fault width message row (.emptyDefault message)
  | nul (hc : row.translations.length = width) (hd : row.default ≠ "")
      (h : '\x00' ∈ row.default.toList ∨
        ∃ text, some text ∈ row.translations ∧ '\x00' ∈ text.toList) :
      Fault width message row (.interiorNul message)

/-- A missing translation has no NUL. -/
theorem Entry.exists_nul_iff {row : Entry} : (∃ t ∈ row.slots, '\x00' ∈ t.toList) ↔
    '\x00' ∈ row.default.toList ∨ ∃ text, some text ∈ row.translations ∧ '\x00' ∈ text.toList := by
  constructor
  · rintro ⟨t, ht, hnul⟩
    rcases List.mem_append.mp ht with ht | ht
    · obtain ⟨translation, hmem, rfl⟩ := List.mem_map.mp ht
      cases translation with
      | none => exact absurd hnul (by decide)
      | some text => exact .inr ⟨text, hmem, hnul⟩
    · exact .inl (List.mem_singleton.mp ht ▸ hnul)
  · rintro (hnul | ⟨text, hmem, hnul⟩)
    · exact ⟨row.default, List.mem_append_right _ (List.mem_singleton.mpr rfl), hnul⟩
    · exact ⟨text, List.mem_append_left _ (List.mem_map.mpr ⟨some text, hmem, rfl⟩), hnul⟩

theorem Entry.forall_nul_iff {row : Entry} : (∀ t ∈ row.slots, '\x00' ∉ t.toList) ↔
    '\x00' ∉ row.default.toList ∧ ∀ text, some text ∈ row.translations → '\x00' ∉ text.toList := by
  have h := not_congr row.exists_nul_iff
  simpa using h

theorem judges_packRow {used : List String} (hused : ∀ t ∈ used, '\x00' ∉ t.toList) {row : Entry}
    (hfits : Fits (used ++ row.slots)) (width message : Nat) :
    Judges (packRow width message (.ofTexts (distinct used)) row) (row.Packable width)
      (row.Fault width message) := by
  rw [packRow_eq]
  by_cases hc : row.translations.length = width
  · rw [if_neg (not_not_intro hc)]
    by_cases hd : row.default = ""
    · rw [if_pos hd]
      refine judges_of_total (fun h => absurd hd h.default_ne) ?_ (.inr ⟨_, .empty hc hd⟩)
      intro e he
      cases he with
      | count h => exact absurd hc h
      | empty => rfl
      | nul _ h => exact absurd hd h
    · rw [if_neg hd]
      refine (Pool.judges_placeAll hused hfits message).congr ?_ fun e => ?_
      · rw [row.forall_nul_iff]
        exact ⟨fun h => ⟨h.nul_default, h.nul_translation⟩, fun h => ⟨hc, hd, h.1, h.2⟩⟩
      · rw [row.exists_nul_iff]
        constructor
        · intro he
          cases he with
          | count h => exact absurd hc h
          | empty _ h => exact absurd h hd
          | nul _ _ h => exact ⟨h, rfl⟩
        · rintro ⟨h, rfl⟩
          exact .nul hc hd h
  · rw [if_pos hc]
    refine judges_of_total (fun h => absurd h.length_eq hc) ?_ (.inr ⟨_, .count hc⟩)
    intro e he
    cases he with
    | count => rfl
    | empty h => exact absurd h hc
    | nul h => exact absurd h hc

/-- The first thing that is wrong with rows, which are numbered from `message` on. -/
def RowsFault (width message : Nat) (rows : List Entry) (e : Error) : Prop :=
  ∃ before row after, rows = before ++ row :: after ∧ (∀ r ∈ before, r.Packable width) ∧
    row.Fault width (message + before.length) e

theorem rowsFault_cons_iff {width message : Nat} {row : Entry} {rows : List Entry} {e : Error} :
    RowsFault width message (row :: rows) e ↔
      row.Fault width message e ∨ row.Packable width ∧ RowsFault width (message + 1) rows e := by
  constructor
  · rintro ⟨before, bad, after, hrows, hbefore, he⟩
    cases before with
    | nil =>
      cases hrows
      exact .inl he
    | cons first before =>
      cases hrows
      obtain ⟨hfirst, hbefore⟩ := List.forall_mem_cons.mp hbefore
      refine .inr ⟨hfirst, before, bad, after, rfl, hbefore, ?_⟩
      rwa [List.length_cons, Nat.add_comm before.length, ← Nat.add_assoc] at he
  · rintro (he | ⟨hrow, before, bad, after, rfl, hbefore, he⟩)
    · exact ⟨[], row, rows, rfl, nofun, he⟩
    · refine ⟨row :: before, bad, after, rfl, List.forall_mem_cons.mpr ⟨hrow, hbefore⟩, ?_⟩
      rwa [List.length_cons, Nat.add_comm before.length, ← Nat.add_assoc]

/-- Rows are packed one after the other, up to the first that is refused. -/
theorem judges_packRows {used : List String} (hused : ∀ t ∈ used, '\x00' ∉ t.toList)
    {rows : List Entry} (hfits : Fits (used ++ rows.flatMap Entry.slots)) (width message : Nat)
    (before : List (List Nat)) :
    Judges (packRows width message (.ofTexts (distinct used)) before rows)
      (∀ row ∈ rows, row.Packable width) (RowsFault width message rows) := by
  induction rows generalizing used message before with
  | nil =>
    refine judges_of_total (fun _ => ⟨_, rfl⟩) ?_ (.inl nofun)
    rintro e ⟨front, row, back, hrows, -⟩
    exact absurd hrows (by simp)
  | cons row rows ih =>
    rw [List.flatMap_cons, ← List.append_assoc] at hfits
    have hrest : ∀ packed, packRow width message (.ofTexts (distinct used)) row = .ok packed →
        Judges (packRows width (message + 1) packed.2 (packed.1 :: before) rows)
          (∀ row ∈ rows, row.Packable width) (RowsFault width (message + 1) rows) := by
      rintro ⟨offsets, p⟩ hpacked
      obtain ⟨hused', rfl, -⟩ := packRow_layout hused hpacked
      exact ih hused' hfits (message + 1) (offsets :: before)
    refine ((judges_packRow hused hfits.of_append width message).andThen hrest (fun e he => ?_)
      fun packed hpacked => ?_).congr List.forall_mem_cons fun e => rowsFault_cons_iff
    · rw [packRows, he]
    · rw [packRows, hpacked]

/-! ## Catalogs -/

namespace Source

/-- Every text of a catalog begins at a 32-bit offset of the pool. -/
def Fits (s : Source) : Prop :=
  Catalog.Fits s.slots

/-- What a catalog must be to be packed. -/
structure Packable (s : Source) : Prop where
  listable : Listable s.locales
  count_le : s.rows.length ≤ maxMessages
  packable : ∀ row ∈ s.rows, row.Packable s.locales.length

/-- The first thing that is wrong with a catalog: each fault comes with all that was
found right before it. -/
inductive FirstFault (s : Source) : Error → Prop
  | locale {before after : List String} {name : String} {e : Error}
      (hsplit : s.locales = before ++ name :: after) (hbefore : Listable before)
      (h : NameFault before name e) : FirstFault s e
  | tooMany (hl : Listable s.locales) (h : maxMessages < s.rows.length) :
      FirstFault s (.tooManyMessages s.rows.length)
  | row {before after : List Entry} {row : Entry} {e : Error} (hl : Listable s.locales)
      (hc : s.rows.length ≤ maxMessages) (hsplit : s.rows = before ++ row :: after)
      (hbefore : ∀ r ∈ before, r.Packable s.locales.length)
      (h : row.Fault s.locales.length before.length e) : FirstFault s e

end Source

/-- A pool that is small enough as a whole has room for every text. -/
theorem fits_of_length_le {s : Source} (h : (layout s.texts).length ≤ maxOffset) : s.Fits := by
  intro text htext
  obtain ⟨before, after, hsplit, hoffset⟩ := standsAt_offsetIn htext
  rw [hoffset]
  rw [Source.texts, hsplit, layout_append, List.length_append] at h
  omega

/-- The messages of a catalog: first their number, and then each of them. -/
theorem judges_messages {s : Source} (h : s.Fits) {α : Type} (f : List (List Nat) × Pool → α) :
    Judges (if maxMessages < s.rows.length then .error (.tooManyMessages s.rows.length)
        else (packRows s.locales.length 0 .empty [] s.rows).map f)
      (s.rows.length ≤ maxMessages ∧ ∀ row ∈ s.rows, row.Packable s.locales.length)
      fun e => (maxMessages < s.rows.length ∧ e = .tooManyMessages s.rows.length) ∨
        s.rows.length ≤ maxMessages ∧ RowsFault s.locales.length 0 s.rows e := by
  by_cases hc : maxMessages < s.rows.length
  · rw [if_pos hc]
    refine judges_of_total (fun hgood => absurd hgood.1 (Nat.not_le.mpr hc)) ?_
      (.inr ⟨_, .inl ⟨hc, rfl⟩⟩)
    rintro e (⟨-, rfl⟩ | ⟨hle, -⟩)
    · rfl
    · exact absurd hle (Nat.not_le.mpr hc)
  · have hle := Nat.not_lt.mp hc
    have hnone : ∀ t ∈ ([] : List String), '\x00' ∉ t.toList := nofun
    have hrows := judges_packRows hnone h s.locales.length 0 []
    rw [if_neg hc]
    refine (hrows.map f).congr ?_ fun e => ?_
    · exact ⟨fun hgood => hgood.2, fun hgood => ⟨hle, hgood⟩⟩
    · constructor
      · rintro (⟨hlt, -⟩ | ⟨-, he⟩)
        · exact absurd hlt hc
        · exact he
      · exact fun he => .inr ⟨hle, he⟩

/-! ## Top theorems -/

/-- A catalog whose texts fit the pool is packed exactly when its names, its number of
messages and all its rows are right, and the error is that of the first fault
otherwise. -/
theorem pack_verdict {s : Source} (h : s.Fits) :
    ((∃ p, s.pack = .ok p) ↔ s.Packable) ∧ ∀ e, s.pack = .error e ↔ s.FirstFault e := by
  have hmessages := judges_messages h fun r =>
    (⟨(⟨s.locales⟩ : Locale.Directory).toTable, r.1.flatten, r.2.toBytes⟩ : Packed)
  refine ((judges_checkLocales s.locales).andThen (fun _ _ => hmessages) (fun e he => ?_)
    fun _ hok => ?_).congr ?_ fun e => ?_
  · rw [Source.pack, he]
  · rw [Source.pack, hok]
  · exact ⟨fun hp => ⟨hp.listable, hp.count_le, hp.packable⟩, fun hp => ⟨hp.1, hp.2.1, hp.2.2⟩⟩
  · constructor
    · intro he
      cases he with
      | locale hsplit hbefore he => exact .inl ⟨_, _, _, hsplit, hbefore, he⟩
      | tooMany hl hc => exact .inr ⟨hl, .inl ⟨hc, rfl⟩⟩
      | row hl hc hsplit hbefore he =>
        exact .inr ⟨hl, .inr ⟨hc, _, _, _, hsplit, hbefore, (Nat.zero_add _).symm ▸ he⟩⟩
    · rintro (⟨before, name, after, hsplit, hbefore, he⟩ | ⟨hl, ⟨hc, rfl⟩ | ⟨hc, hrows⟩⟩)
      · exact .locale hsplit hbefore he
      · exact .tooMany hl hc
      · obtain ⟨before, row, after, hsplit, hbefore, he⟩ := hrows
        rw [Nat.zero_add] at he
        exact .row hl hc hsplit hbefore he

/-- A text with a NUL in two rows, the second of which has another fault, too. -/
def nulTwice : Source where
  locales := ["de"]
  rows := [
    { default := "tea", translations := [some "Tee"] },
    { default := "t\x00a", translations := [none] },
    { default := "", translations := [some "t\x00a"] }]

theorem pack_nulTwice : (∃ p, coffee.pack = .ok p) ∧ nulTwice.pack = .error (.interiorNul 1) := by
  have hcoffee : coffee.Fits := fits_of_length_le (by decide)
  have hnulTwice : nulTwice.Fits := fits_of_length_le (by decide)
  constructor
  · refine (pack_verdict hcoffee).1.mpr ⟨⟨by decide, by decide, by decide⟩, by decide, ?_⟩
    intro row hrow
    rcases List.mem_pair.mp hrow with rfl | rfl
    · exact ⟨rfl, by decide, by decide, by simp⟩
    · exact ⟨rfl, by decide, by decide, by simp⟩
  · have hsplit : nulTwice.rows = [⟨"tea", [some "Tee"]⟩] ++
        ⟨"t\x00a", [none]⟩ :: [⟨"", [some "t\x00a"]⟩] := rfl
    refine ((pack_verdict hnulTwice).2 _).mpr
      (.row ⟨by decide, by decide, by decide⟩ (by decide) hsplit ?_ ?_)
    · intro row hrow
      rw [List.mem_singleton.mp hrow]
      exact ⟨rfl, by decide, by decide, by simp⟩
    · exact .nul rfl (by decide) (.inl (by decide))

end ScriptLint.Catalog
