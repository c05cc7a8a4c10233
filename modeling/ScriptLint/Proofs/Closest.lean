import ScriptLint.Proofs.LocaleTables
import ScriptLint.Proofs.SubNames

/-! Which locale stands in for a name.

`Tries name tried` says what is looked for: the candidates of the name, and behind them,
if it is a language tag with a hyphen, those of its spelling.  The first of these that a
directory lists is chosen, so the choice depends on the set of its names only:

    d.chosen? name = (requests name).find? d.names.contains             (chosen?_eq_find?)

A name is its own first candidate unless one of its separators introduces an empty part.
So what was chosen stands in for itself, and a listed name with an empty part is
never chosen for itself (`closest?_eq_find?_iff`). -/

namespace ScriptLint.Locale.Directory

/-! ## Names that are tried -/

/-- The names that are looked for in place of `name`, in order. -/
inductive Tries (name : String) : List String → Prop
  | own (h : '-' ∈ name.toList → Tag.ofChars? name.toList = none) : Tries name (candidates name)
  | tag {t : Tag} (hyphen : '-' ∈ name.toList) (h : Tag.ofChars? name.toList = some t) :
      Tries name (candidates name ++ candidates (String.ofList t.spelling))

/-- The name of the locale that stands in for `name`. -/
def chosen? (d : Directory) (name : String) : Option String :=
  (d.closest? name).bind d.name?

theorem requests_of_tries {name : String} {tried : List String} (h : Tries name tried) :
    requests name = tried := by
  unfold requests tagSpelling?
  cases h with
  | own h =>
    split
    next hyphen => simp [h (by simpa using hyphen)]
    next => simp
  | tag hyphen h => simp [hyphen, h]

theorem tries_requests (name : String) : Tries name (requests name) := by
  have htries : ∃ tried, Tries name tried := by
    by_cases hyphen : '-' ∈ name.toList
    · cases htag : Tag.ofChars? name.toList with
      | none => exact ⟨_, .own fun _ => htag⟩
      | some t => exact ⟨_, .tag hyphen htag⟩
    · exact ⟨_, .own fun h => absurd h hyphen⟩
  obtain ⟨tried, h⟩ := htries
  rwa [requests_of_tries h]

/-- Nothing is tried in which a separator introduces an empty part. -/
theorem full_of_mem_requests {s : Split} {name : String} (h : s.text ∈ requests name) :
    s.Full := by
  have htries := tries_requests name
  generalize requests name = tried at h htries
  cases htries with
  | own _ => exact full_of_mem_candidates h
  | tag _ _ =>
    rcases List.mem_append.mp h with h | h
    · exact full_of_mem_candidates h
    · exact full_of_mem_candidates h

/-! ## First listed names -/

section
variable {d : Directory} {names : List String} {name : String} {index : Nat}

theorem firstListed?_eq_some_iff : d.firstListed? names = some index ↔
    ∃ before locale after, names = before ++ locale :: after ∧ (∀ n ∈ before, n ∉ d.names) ∧
      d.find? locale = some index := by
  unfold firstListed?
  rw [List.findSome?_eq_some_iff]
  simp only [find?_eq_none_iff]
  constructor
  · rintro ⟨before, locale, after, hsplit, hfind, hbefore⟩
    exact ⟨before, locale, after, hsplit, hbefore, hfind⟩
  · rintro ⟨before, locale, after, hsplit, hbefore, hfind⟩
    exact ⟨before, locale, after, hsplit, hfind, hbefore⟩

theorem firstListed?_eq_none_iff : d.firstListed? names = none ↔ ∀ n ∈ names, n ∉ d.names := by
  unfold firstListed?
  simp only [List.findSome?_eq_none_iff, find?_eq_none_iff]

theorem chosen?_eq_find? (d : Directory) (name : String) :
    d.chosen? name = (requests name).find? d.names.contains := by
  unfold chosen? closest?
  cases hclosest : d.firstListed? (requests name) with
  | none =>
    have hnone := firstListed?_eq_none_iff.mp hclosest
    exact (List.find?_eq_none.mpr fun n hn => by simpa using hnone n hn).symm
  | some index =>
    obtain ⟨before, locale, after, hsplit, hbefore, hfind⟩ := firstListed?_eq_some_iff.mp hclosest
    have hlocale := name?_of_find? hfind
    have hlisted : locale ∈ d.names := List.mem_of_getElem? hlocale
    rw [Option.bind_some, hlocale, eq_comm, List.find?_eq_some_iff_append]
    exact ⟨by simpa using hlisted, before, after, hsplit, by simpa using hbefore⟩

end

/-! ## The set of names decides -/

section
variable {d d' : Directory}

theorem chosen?_congr (h : ∀ n, n ∈ d'.names ↔ n ∈ d.names) (name : String) :
    d'.chosen? name = d.chosen? name := by
  have hsame : d'.names.contains = d.names.contains := by
    funext n
    rw [Bool.eq_iff_iff, List.contains_iff_mem, List.contains_iff_mem, h]
  rw [chosen?_eq_find?, chosen?_eq_find?, hsame]

/-- One more name is found first, or makes no difference. -/
theorem find?_listed_insert {added : String} (h : ∀ n, n ∈ d'.names ↔ n = added ∨ n ∈ d.names)
    (names : List String) :
    names.find? d'.names.contains = names.find? d.names.contains ∨
    names.find? d'.names.contains = some added := by
  induction names with
  | nil => exact .inl rfl
  | cons n rest ih =>
    by_cases hold : d.names.contains n = true
    · have hnew : d'.names.contains n = true :=
        List.contains_iff_mem.mpr ((h n).mpr (.inr (List.contains_iff_mem.mp hold)))
      left
      rw [List.find?_cons_of_pos hnew, List.find?_cons_of_pos hold]
    · by_cases hadded : n = added
      · have hnew : d'.names.contains n = true := List.contains_iff_mem.mpr ((h n).mpr (.inl hadded))
        right
        rw [List.find?_cons_of_pos hnew, hadded]
      · have hnew : ¬ d'.names.contains n = true := by
          rw [List.contains_iff_mem] at hold ⊢
          exact fun hn => ((h n).mp hn).elim hadded hold
        rwa [List.find?_cons_of_neg hnew, List.find?_cons_of_neg hold]

theorem chosen?_insert {added : String} (h : ∀ n, n ∈ d'.names ↔ n = added ∨ n ∈ d.names)
    (name : String) :
    d'.chosen? name = d.chosen? name ∨ d'.chosen? name = some added := by
  rw [chosen?_eq_find?, chosen?_eq_find?]
  exact find?_listed_insert h (requests name)

/-- Of the sub-names that are listed, the one of highest rank is chosen. -/
theorem chosen?_of_listed {s : Split} {S : Finset Part} (hS : S ⊆ s.present)
    (hlisted : (s.keep S).text ∈ d.names) :
    ∃ S' ⊆ s.present, Part.rank S ≤ Part.rank S' ∧ d.chosen? s.text = some (s.keep S').text := by
  let listed (S : Finset Part) : Bool := d.names.contains (s.keep S).text
  have hsome : ((Part.subsets s.present).find? listed).isSome = true :=
    List.find?_isSome.mpr ⟨S, Part.mem_subsets.mpr hS, List.contains_iff_mem.mpr hlisted⟩
  obtain ⟨S', hfind⟩ := Option.isSome_iff_exists.mp hsome
  refine ⟨S', Part.mem_subsets.mp (List.mem_of_find?_eq_some hfind),
    Part.rank_le_of_find? hfind S hS (List.contains_iff_mem.mpr hlisted), ?_⟩
  have hcandidates : (candidates s.text).find? d.names.contains = some (s.keep S').text := by
    rw [candidates_text, List.find?_map]
    exact congrArg (Option.map _) hfind
  rw [chosen?_eq_find?]
  unfold requests
  rw [List.find?_append, hcandidates]
  rfl

end

/-! ## Names that stand in for themselves -/

section
variable {d : Directory} {s : Split} {name : String} {index : Nat}

/-- A listed name without an empty part is the first that is tried for it. -/
theorem closest?_of_full (hfull : s.Full) (hfind : d.find? s.text = some index) :
    d.closest? s.text = some index := by
  have hhead := (head?_candidates_eq_self_iff s).mpr hfull
  obtain ⟨rest, hrest⟩ := List.head?_eq_some_iff.mp hhead
  unfold closest? firstListed? requests
  rw [hrest, List.cons_append, List.findSome?_cons, hfind]

theorem exists_request_of_closest? (h : d.closest? name = some index) :
    ∃ locale ∈ requests name, d.find? locale = some index := by
  obtain ⟨before, locale, after, hsplit, -, hfind⟩ := firstListed?_eq_some_iff.mp h
  exact ⟨locale, hsplit ▸ List.mem_append_right _ List.mem_cons_self, hfind⟩

/-- What was chosen stands in for itself. -/
theorem closest?_of_closest? (h : d.closest? name = some index) :
    ∃ locale, d.name? index = some locale ∧ d.closest? locale = some index := by
  obtain ⟨locale, hmem, hfind⟩ := exists_request_of_closest? h
  obtain ⟨s, rfl⟩ := Split.exists_text locale
  exact ⟨s.text, name?_of_find? hfind, closest?_of_full (full_of_mem_requests hmem) hfind⟩

/-- Exactly the names with an empty part are listed and not chosen for themselves. -/
theorem closest?_eq_find?_iff (hfind : d.find? s.text = some index) :
    d.closest? s.text = some index ↔ s.Full := by
  refine ⟨fun h => ?_, fun hfull => closest?_of_full hfull hfind⟩
  obtain ⟨locale, hmem, hlocale⟩ := exists_request_of_closest? h
  -- the index has one name, so the request that was found is the name itself
  have hname := name?_of_find? hlocale
  rw [name?_of_find? hfind] at hname
  rw [← Option.some.inj hname] at hmem
  exact full_of_mem_requests hmem

end

/-! ## Top theorems -/

/-- A candidate comes first among its own candidates, which are all candidates of the name
that it stands in for, in the same order; and the locale that is chosen for
a name is chosen for its own name too. -/
theorem closest?_stable :
    (∀ name candidate, candidate ∈ candidates name →
      (candidates candidate).head? = some candidate ∧
      (candidates candidate).Sublist (candidates name)) ∧
    ∀ (d : Directory) (name : String) (index : Nat), d.closest? name = some index →
      ∃ locale, d.name? index = some locale ∧ d.closest? locale = some index :=
  ⟨fun _ _ h => ⟨head?_candidates_of_mem h, candidates_sublist_of_mem h⟩,
    fun _ _ _ => closest?_of_closest?⟩

/-- Locales with and without a modifier. -/
def modified : Directory :=
  ⟨["de", "en_US@snarky", "pt_BR"]⟩

theorem stable_modified :
    "en.utf_8@a.b" ∈ candidates "en_U_S.utf_8@a.b" ∧
    (candidates "en.utf_8@a.b").head? = some "en.utf_8@a.b" ∧
    (candidates "en.utf_8@a.b").Sublist (candidates "en_U_S.utf_8@a.b") ∧
    modified.closest? "en_US.UTF-8@snarky" = some 1 ∧
    modified.closest? "en_US@snarky" = some 1 ∧
    modified.closest? "pt-Latn-BR" = some 2 ∧
    modified.closest? "pt_BR" = some 2 := by
  obtain ⟨hcandidates, hclosest⟩ := closest?_stable
  have hmem : "en.utf_8@a.b" ∈ candidates "en_U_S.utf_8@a.b" := by decide +kernel
  have hsnarky : modified.closest? "en_US.UTF-8@snarky" = some 1 := by decide +kernel
  have hbrazil : modified.closest? "pt-Latn-BR" = some 2 := by decide +kernel
  obtain ⟨hhead, hsublist⟩ := hcandidates _ _ hmem
  obtain ⟨_, ⟨⟩, hsnarky'⟩ := hclosest _ _ _ hsnarky
  obtain ⟨_, ⟨⟩, hbrazil'⟩ := hclosest _ _ _ hbrazil
  exact ⟨hmem, hhead, hsublist, hsnarky, hsnarky', hbrazil, hbrazil'⟩

/-- Of the names that are tried the first that the directory lists is chosen, and none
exactly if it lists none of them; a listed sub-name is only passed over for one of higher
rank.  The order of the directory makes no difference to the name chosen, and one
more name is either chosen itself or makes no difference. -/
theorem closest?_first_listed {table : Bytes} {d : Directory} (h : ofTable table = .ok d)
    (name : String) :
    ∃ tried, Tries name tried ∧ (∀ tried', Tries name tried' → tried' = tried) ∧
      (∀ index, d.closest? name = some index ↔
        ∃ before locale after, tried = before ++ locale :: after ∧
          (∀ n ∈ before, n ∉ d.names) ∧ d.name? index = some locale) ∧
      (d.closest? name = none ↔ ∀ n ∈ tried, n ∉ d.names) ∧
      (∀ (s : Split) (S : Finset Part), s.text = name → S ⊆ s.present →
        (s.keep S).text ∈ d.names →
        ∃ S' ⊆ s.present, Part.rank S ≤ Part.rank S' ∧ d.chosen? name = some (s.keep S').text) ∧
      (∀ d' : Directory, (∀ n, n ∈ d'.names ↔ n ∈ d.names) → d'.chosen? name = d.chosen? name) ∧
      ∀ (d' : Directory) (added : String), (∀ n, n ∈ d'.names ↔ n = added ∨ n ∈ d.names) →
        (d'.chosen? name = d.chosen? name ∨ d'.chosen? name = some added) ∧
        (d'.chosen? name = none → d.chosen? name = none) := by
  have hnodup : d.names.Nodup := (lists_of_ofTable h).1.nodup
  refine ⟨requests name, tries_requests name, fun tried' h' => (requests_of_tries h').symm, ?_,
    firstListed?_eq_none_iff, ?_, fun d' hsame => chosen?_congr hsame name, ?_⟩
  · intro index
    simp only [closest?, firstListed?_eq_some_iff, find?_eq_some_iff hnodup]
  · rintro s S rfl hS hlisted
    exact chosen?_of_listed hS hlisted
  · intro d' added hadded
    have hchosen := chosen?_insert hadded name
    refine ⟨hchosen, fun hnone => ?_⟩
    rcases hchosen with hsame | hnew
    · rw [← hsame, hnone]
    · rw [hnone] at hnew
      cases hnew

/-- `pt_BR` and `de`, as a table. -/
def portuguese : Bytes :=
  toTable ⟨["pt_BR", "de"]⟩

theorem first_listed_portuguese :
    ofTable portuguese = .ok ⟨["pt_BR", "de"]⟩ ∧
    (⟨["pt_BR", "de"]⟩ : Directory).closest? "pt-BR" = some 0 ∧
    (⟨["de", "pt_BR"]⟩ : Directory).chosen? "pt-BR" = some "pt_BR" ∧
    (⟨["pt", "pt_BR", "de"]⟩ : Directory).chosen? "pt-BR" = some "pt_BR" ∧
    (⟨["pt-BR", "pt_BR", "de"]⟩ : Directory).chosen? "pt-BR" = some "pt-BR" := by
  have htable : ofTable portuguese = .ok ⟨["pt_BR", "de"]⟩ := by decide +kernel
  obtain ⟨tried, htries, -, hindex, -, -, hsame, hadded⟩ := closest?_first_listed htable "pt-BR"
  have htried : tried = ["pt-BR"] ++ "pt_BR" :: ["pt"] := by
    rw [← requests_of_tries htries]
    decide +kernel
  have hclosest := (hindex 0).mpr ⟨["pt-BR"], "pt_BR", ["pt"], htried, by decide, rfl⟩
  have hchosen : (⟨["pt_BR", "de"]⟩ : Directory).chosen? "pt-BR" = some "pt_BR" := by
    rw [chosen?, hclosest]
    rfl
  refine ⟨htable, hclosest, ?_, ?_, ?_⟩
  · rw [hsame _ (by simp [or_comm]), hchosen]
  · -- the name that is added is not chosen, so it makes no difference
    have hpt := (hadded ⟨["pt", "pt_BR", "de"]⟩ "pt" (by simp)).1
    rw [hchosen] at hpt
    exact hpt.resolve_right (by decide +kernel)
  · have hexact := (hadded ⟨["pt-BR", "pt_BR", "de"]⟩ "pt-BR" (by simp)).1
    exact hexact.resolve_left (by decide +kernel)

/-- A listed name is chosen for itself, and choosing the closest name then does what
choosing the exact name does, unless a separator of it introduces an empty part:
then the name is not even tried. -/
theorem closest?_extends_find? {d : Directory} {name : String} {index : Nat}
    (h : d.find? name = some index) :
    ∃ s : Split, s.text = name ∧ (d.closest? name = some index ↔ s.Full) ∧
      (¬ s.Full → name ∉ requests name) ∧
      ∀ t : Translator, t.catalog.locales = d →
        t.set name = t.activate index (.ok ()) ∧
        (s.Full → t.setClosest name = t.activate index true) := by
  obtain ⟨s, rfl⟩ := Split.exists_text name
  refine ⟨s, rfl, closest?_eq_find?_iff h, fun hempty hmem => hempty (full_of_mem_requests hmem), ?_⟩
  rintro t rfl
  refine ⟨by rw [Translator.set, h], fun hfull => ?_⟩
  rw [Translator.setClosest, closest?_of_full hfull h]

/-- A locale whose name ends in a separator. -/
def trailing : Directory :=
  ⟨["en_", "de_DE"]⟩

theorem extends_trailing :
    trailing.find? "de_DE" = some 1 ∧ trailing.closest? "de_DE" = some 1 ∧
    trailing.find? "en_" = some 0 ∧ trailing.closest? "en_" ≠ some 0 := by
  have hgerman : trailing.find? "de_DE" = some 1 := by decide
  have henglish : trailing.find? "en_" = some 0 := by decide
  obtain ⟨s, hs, hiff, -⟩ := closest?_extends_find? hgerman
  obtain ⟨s', hs', hiff', -⟩ := closest?_extends_find? henglish
  refine ⟨hgerman, hiff.mpr ?_, henglish, fun hclosest => ?_⟩
  · rw [← head?_candidates_eq_self_iff, hs]
    decide +kernel
  · have hfull := hiff'.mp hclosest
    rw [← head?_candidates_eq_self_iff, hs'] at hfull
    exact absurd hfull (by decide +kernel)

/-- A listed name need not be the closest to itself. -/
theorem find?_not_closest? :
    ¬ ∀ (table : Bytes) (d : Directory), ofTable table = .ok d →
      ∀ (name : String) (index : Nat), d.find? name = some index →
        d.closest? name = some index := by
  intro h
  have hclosest := h [0x65, 0x6e, 0x5f, 0, 0] ⟨["en_"]⟩ (by decide +kernel) "en_" 0 (by decide)
  exact absurd hclosest (by decide +kernel)

end ScriptLint.Locale.Directory
