import ScriptLint.Catalog.Packed
import ScriptLint.Proofs.Activation
import ScriptLint.Proofs.Trimming

/-! How the sources of a locale name decide.

`Resolved d explicit configured priority index selection` describes the outcome without
the search: the first of the two single names that some locale can stand in for, else the
first name that the priority list offers, else default text.  There is exactly one
such outcome, and reaching it takes one write of the active locale, whatever
was active before (`Resolved.resolve_eq`):

    resolve t explicit configured priority = (t.activate index selection).after skipped

where `skipped` holds no further activation. -/

namespace ScriptLint

namespace Selection

/-! ## Outcomes -/

/-- A source asks for `name`: it is given, and `name` is left of it after trimming. -/
def Asks (source : Option String) (name : String) : Prop :=
  ∃ raw, source = some raw ∧ Text.Trims raw name

/-- A source asks for nothing that a locale can stand in for. -/
def Unavailable (d : Locale.Directory) (source : Option String) : Prop :=
  ∀ name, Asks source name → d.closest? name = none

/-- What the sources come to: the index of the locale, and the selection that reports it. -/
inductive Resolved (d : Locale.Directory) (explicit configured : Option String)
    (priority : List String) : Nat → Selection → Prop
  | explicit {name : String} {index : Nat} (h : Asks explicit name)
      (hindex : d.closest? name = some index) :
      Resolved d explicit configured priority index ⟨d.name? index, .explicit, some name⟩
  | configuration {name : String} {index : Nat} (he : Unavailable d explicit)
      (h : Asks configured name) (hindex : d.closest? name = some index) :
      Resolved d explicit configured priority index ⟨d.name? index, .configuration, some name⟩
  | priorityList {names before : List String} {name : String} {index : Nat}
      (he : Unavailable d explicit) (hc : Unavailable d configured)
      (hentries : Text.Entries priority names)
      (h : Translator.Offers d names before name) (hbefore : ∀ n ∈ before, n ∉ d.names)
      (hindex : d.find? name = some index) :
      Resolved d explicit configured priority index ⟨some name, .priorityList, some name⟩
  | fallback {names : List String} (he : Unavailable d explicit) (hc : Unavailable d configured)
      (hentries : Text.Entries priority names)
      (h : ∀ before name, ¬ Translator.Offers d names before name) :
      Resolved d explicit configured priority d.size ⟨none, .fallback, none⟩

theorem asks_iff {source : Option String} {name : String} :
    Asks source name ↔ source.bind Text.nonBlank? = some name := by
  rw [Option.bind_eq_some_iff]
  constructor
  · rintro ⟨raw, hraw, htrims⟩
    exact ⟨raw, hraw, Text.nonBlank?_eq_some_iff.mpr htrims⟩
  · rintro ⟨raw, hraw, hname⟩
    exact ⟨raw, hraw, Text.nonBlank?_eq_some_iff.mp hname⟩

/-- A single source decides, or leaves the decision to the next. -/
theorem available_or_not (d : Locale.Directory) (source : Option String) :
    (∃ name index, Asks source name ∧ d.closest? name = some index) ∨ Unavailable d source := by
  apply Classical.or_iff_not_imp_left.mpr
  intro h name hasks
  apply Option.eq_none_iff_forall_ne_some.mpr
  intro index hindex
  exact h ⟨name, index, hasks, hindex⟩

/-- Some outcome fits any sources. -/
theorem exists_resolved (d : Locale.Directory) (explicit configured : Option String)
    (priority : List String) :
    ∃ index selection, Resolved d explicit configured priority index selection := by
  rcases available_or_not d explicit with ⟨name, index, hasks, hindex⟩ | he
  · exact ⟨_, _, .explicit hasks hindex⟩
  rcases available_or_not d configured with ⟨name, index, hasks, hindex⟩ | hc
  · exact ⟨_, _, .configuration he hasks hindex⟩
  have hentries : Text.Entries priority (priority.filterMap Text.nonBlank?) :=
    Text.entries_iff.mpr rfl
  by_cases hoffers : ∃ before name,
      Translator.Offers d (priority.filterMap Text.nonBlank?) before name
  · obtain ⟨_, _, hoffers⟩ := hoffers
    obtain ⟨before, name, hfirst, hbefore⟩ := hoffers.exists_first
    obtain ⟨index, hindex⟩ := Locale.Directory.exists_find? hfirst.listed
    exact ⟨_, _, .priorityList he hc hentries hfirst hbefore hindex⟩
  · exact ⟨_, _, .fallback he hc hentries fun before name h => hoffers ⟨before, name, h⟩⟩

/-- The selection names the locale at its index; only a fallback has none. -/
theorem Resolved.locale_eq {d : Locale.Directory} {explicit configured : Option String}
    {priority : List String} {index : Nat} {selection : Selection}
    (h : Resolved d explicit configured priority index selection) :
    d.name? index = selection.locale ∧
    (selection.locale = none ↔ selection.source = .fallback) := by
  have hclosest : ∀ {name : String} {index : Nat}, d.closest? name = some index →
      ¬ d.name? index = none := by
    intro name index hindex hnone
    obtain ⟨locale, hlocale⟩ := Locale.Directory.name?_of_firstListed? hindex
    rw [hlocale] at hnone
    cases hnone
  cases h with
  | explicit h hindex => exact ⟨rfl, fun hnone => absurd hnone (hclosest hindex), nofun⟩
  | configuration he h hindex => exact ⟨rfl, fun hnone => absurd hnone (hclosest hindex), nofun⟩
  | priorityList he hc hentries h hbefore hindex =>
    exact ⟨Locale.Directory.name?_of_find? hindex, nofun, nofun⟩
  | fallback he hc hentries h =>
    exact ⟨List.getElem?_eq_none (Nat.le_refl _), fun _ => rfl, fun _ => rfl⟩

/-! ## The search -/

section
variable {t : Translator}

theorem tryName_of_asks {source : Option String} {name : String} {index : Nat}
    (h : Asks source name) (hindex : t.catalog.locales.closest? name = some index)
    (origin : Locale.Source) :
    tryName t origin source =
      t.activate index (some ⟨t.catalog.locales.name? index, origin, some name⟩) := by
  have hset : t.setClosest name = t.activate index true := by
    rw [Translator.setClosest, hindex]
  unfold tryName
  rw [asks_iff.mp h]
  dsimp only
  rw [hset]
  rfl

theorem tryName_of_unavailable {source : Option String} (h : Unavailable t.catalog.locales source)
    (origin : Locale.Source) :
    ∃ skipped, Event.Quiet skipped ∧ tryName t origin source = ⟨none, t, skipped⟩ := by
  unfold tryName
  cases hname : source.bind Text.nonBlank? with
  | none => exact ⟨[], Event.quiet_nil, rfl⟩
  | some name =>
    have hset : t.setClosest name = t.keep false := by
      rw [Translator.setClosest, h name (asks_iff.mpr hname)]
    refine ⟨[.candidateSkipped origin name], Event.quiet_singleton rfl, ?_⟩
    dsimp only
    rw [hset]
    rfl

theorem tryList_of_first {priority names before : List String} {name : String} {index : Nat}
    (hentries : Text.Entries priority names)
    (h : Translator.Offers t.catalog.locales names before name)
    (hbefore : ∀ n ∈ before, n ∉ t.catalog.locales.names)
    (hindex : t.catalog.locales.find? name = some index) :
    tryList t priority = t.activate index (some ⟨some name, .priorityList, some name⟩) := by
  have hset := Translator.setBest_of_first h hbefore hindex
  have hlocale : (t.activate index true).state.activeLocale? = some name :=
    Locale.Directory.name?_of_find? hindex
  unfold tryList
  rw [← Text.entries_iff.mp hentries]
  cases names with
  | nil => exact absurd h.stands (by simp)
  | cons first rest =>
    dsimp only
    rw [hset, hlocale]
    rfl

theorem tryList_of_none {priority names : List String} (hentries : Text.Entries priority names)
    (h : ∀ before name, ¬ Translator.Offers t.catalog.locales names before name) :
    ∃ skipped, Event.Quiet skipped ∧ tryList t priority = ⟨none, t, skipped⟩ := by
  unfold tryList
  rw [← Text.entries_iff.mp hentries]
  cases names with
  | nil => exact ⟨[], Event.quiet_nil, rfl⟩
  | cons first rest =>
    obtain ⟨events, hevents, hset⟩ := Translator.setBest_of_none h
    refine ⟨events ++ [.priorityListSkipped (first :: rest)],
      hevents.append (Event.quiet_singleton rfl), ?_⟩
    dsimp only
    rw [hset]
    rfl

/-- What a search comes to: events that are no activation, and then one activation. -/
def EndsWith (t : Translator) (index : Nat) (selection : Selection)
    (step : Step Translator Selection) : Prop :=
  ∃ skipped, Event.Quiet skipped ∧ step = (t.activate index selection).after skipped

theorem endsWith_activate (t : Translator) (index : Nat) (selection : Selection) :
    EndsWith t index selection (t.activate index selection) :=
  ⟨[], Event.quiet_nil, rfl⟩

/-- A source that decides ends the search. -/
theorem endsWith_of_found {index : Nat} {selection : Selection}
    {step : Step Translator (Option Selection)} (h : step = t.activate index (some selection))
    (next : Translator → Step Translator Selection) :
    EndsWith t index selection (orElse step next) := by
  rw [h]
  exact endsWith_activate t index selection

/-- A source that does not decide adds events, and leaves the translator to the next. -/
theorem EndsWith.orElse {index : Nat} {selection : Selection}
    {step : Step Translator (Option Selection)} {next : Translator → Step Translator Selection}
    (h : ∃ skipped, Event.Quiet skipped ∧ step = ⟨none, t, skipped⟩)
    (hnext : EndsWith t index selection (next t)) :
    EndsWith t index selection (Selection.orElse step next) := by
  obtain ⟨earlier, hearlier, rfl⟩ := h
  obtain ⟨skipped, hskipped, hstep⟩ := hnext
  refine ⟨earlier ++ skipped, hearlier.append hskipped, ?_⟩
  show (next t).after earlier = _
  rw [hstep]
  simp only [Step.after, List.append_assoc]

/-- The search comes to the outcome that the sources describe, by one activation. -/
theorem Resolved.resolve_eq {explicit configured : Option String} {priority : List String}
    {index : Nat} {selection : Selection}
    (h : Resolved t.catalog.locales explicit configured priority index selection) :
    EndsWith t index selection (resolve t explicit configured priority) := by
  unfold resolve
  cases h with
  | explicit h hindex => exact endsWith_of_found (tryName_of_asks h hindex .explicit) _
  | configuration he h hindex =>
    refine .orElse (tryName_of_unavailable he .explicit) ?_
    exact endsWith_of_found (tryName_of_asks h hindex .configuration) _
  | priorityList he hc hentries h hbefore hindex =>
    refine .orElse (tryName_of_unavailable he .explicit) ?_
    refine .orElse (tryName_of_unavailable hc .configuration) ?_
    exact endsWith_of_found (tryList_of_first hentries h hbefore hindex) _
  | fallback he hc hentries h =>
    refine .orElse (tryName_of_unavailable he .explicit) ?_
    refine .orElse (tryName_of_unavailable hc .configuration) ?_
    exact .orElse (tryList_of_none hentries h) (endsWith_activate t _ _)

end

theorem EndsWith.result_state {t : Translator} {index : Nat} {selection : Selection}
    {step : Step Translator Selection} (h : EndsWith t index selection step) :
    step.result = selection ∧ step.state = ⟨t.catalog, index⟩ := by
  obtain ⟨skipped, -, rfl⟩ := h
  exact ⟨rfl, rfl⟩

/-- The sources leave no choice. -/
theorem Resolved.unique {d : Locale.Directory} {explicit configured : Option String}
    {priority : List String} {index index' : Nat} {selection selection' : Selection}
    (h : Resolved d explicit configured priority index selection)
    (h' : Resolved d explicit configured priority index' selection') :
    index' = index ∧ selection' = selection := by
  -- both describe the search in a catalog that has these locales and no messages
  let t : Translator := ⟨.ofLocales d, 0⟩
  have hstep := Resolved.resolve_eq (t := t) h
  have hstep' := Resolved.resolve_eq (t := t) h'
  obtain ⟨hresult, hstate⟩ := hstep.result_state
  obtain ⟨hresult', hstate'⟩ := hstep'.result_state
  exact ⟨congrArg Translator.active (hstate'.symm.trans hstate), hresult'.symm.trans hresult⟩

/-! ## Blanks and settings -/

/-- Only what is left after trimming counts. -/
theorem resolve_congr (t : Translator) {explicit explicit' configured configured' : Option String}
    {priority priority' : List String}
    (he : explicit'.bind Text.nonBlank? = explicit.bind Text.nonBlank?)
    (hc : configured'.bind Text.nonBlank? = configured.bind Text.nonBlank?)
    (hp : priority'.filterMap Text.nonBlank? = priority.filterMap Text.nonBlank?) :
    resolve t explicit' configured' priority' = resolve t explicit configured priority := by
  unfold resolve tryName tryList
  rw [he, hc, hp]

theorem bind_nonBlank?_of_padded {source source' : Option String}
    (h : Option.Rel Text.Padded source source') :
    source'.bind Text.nonBlank? = source.bind Text.nonBlank? := by
  cases h with
  | none => rfl
  | some hpadded => exact hpadded.nonBlank?_eq

theorem bind_nonBlank?_bind (source : Option String) :
    (source.bind Text.nonBlank?).bind Text.nonBlank? = source.bind Text.nonBlank? := by
  cases hname : source.bind Text.nonBlank? with
  | none => rfl
  | some name =>
    obtain ⟨raw, -, hraw⟩ := Option.bind_eq_some_iff.mp hname
    exact Text.nonBlank?_of_nonBlank? hraw

/-- Settings decide as their values do when they are given one by one. -/
theorem resolve_config (t : Translator) (settings : Config) (explicit : Option String) :
    (settings.resolve explicit t).result =
      (resolve t explicit settings.locale settings.locales).result ∧
    (settings.resolve explicit t).state =
      (resolve t explicit settings.locale settings.locales).state := by
  have hresolve : resolve t explicit settings.preferred? settings.locales =
      resolve t explicit settings.locale settings.locales :=
    resolve_congr t rfl (bind_nonBlank?_bind settings.locale) rfl
  unfold Config.resolve
  rw [hresolve]
  exact ⟨rfl, rfl⟩

/-! ## Top theorems -/

/-- The sources decide by precedence alone: one outcome fits them, and whatever was active
before, the search comes to it with one write of the active locale; blanks
around names and blank names change nothing, and settings decide as their values do. -/
theorem resolve_precedence (c : Catalog) (explicit configured : Option String)
    (priority : List String) :
    ∃ index selection, Resolved c.locales explicit configured priority index selection ∧
      (∀ index' selection', Resolved c.locales explicit configured priority index' selection' →
        index' = index ∧ selection' = selection) ∧
      c.locales.name? index = selection.locale ∧
      (selection.locale = none ↔ selection.source = .fallback) ∧
      ∀ active,
        (resolve ⟨c, active⟩ explicit configured priority).result = selection ∧
        (resolve ⟨c, active⟩ explicit configured priority).state = ⟨c, index⟩ ∧
        (resolve ⟨c, active⟩ explicit configured priority).state.activeLocale? =
          selection.locale ∧
        EndsWith ⟨c, active⟩ index selection (resolve ⟨c, active⟩ explicit configured priority) ∧
        (∀ explicit' configured' priority', Option.Rel Text.Padded explicit explicit' →
          Option.Rel Text.Padded configured configured' → Text.PaddedList priority priority' →
          resolve ⟨c, active⟩ explicit' configured' priority' =
            resolve ⟨c, active⟩ explicit configured priority) ∧
        (Config.resolve ⟨configured, priority⟩ explicit ⟨c, active⟩).result = selection ∧
        (Config.resolve ⟨configured, priority⟩ explicit ⟨c, active⟩).state = ⟨c, index⟩ := by
  obtain ⟨index, selection, h⟩ := exists_resolved c.locales explicit configured priority
  obtain ⟨hname, hfallback⟩ := h.locale_eq
  refine ⟨index, selection, h, fun _ _ h' => h.unique h', hname, hfallback, fun active => ?_⟩
  have hends : EndsWith ⟨c, active⟩ index selection _ := h.resolve_eq
  obtain ⟨hresult, hstate⟩ := hends.result_state
  obtain ⟨hresult', hstate'⟩ := resolve_config ⟨c, active⟩ ⟨configured, priority⟩ explicit
  refine ⟨hresult, hstate, ?_, hends, ?_, hresult'.trans hresult, hstate'.trans hstate⟩
  · rw [hstate]
    exact hname
  · intro explicit' configured' priority' he hc hp
    exact resolve_congr _ (bind_nonBlank?_of_padded he) (bind_nonBlank?_of_padded hc)
      hp.filterMap_eq

/-- Two locales of two languages. -/
def european : Catalog :=
  .ofLocales ⟨["de", "pt_BR"]⟩

theorem resolve_european :
    (resolve ⟨european, 0⟩ (some "ja") (some "\u00A0pt-BR ") ["", "\tde"]).result =
      ⟨some "pt_BR", .configuration, some "pt-BR"⟩ ∧
    (resolve ⟨european, 0⟩ (some "ja") (some "\u00A0pt-BR ") ["", "\tde"]).state =
      ⟨european, 1⟩ ∧
    ∃ skipped, Event.Quiet skipped ∧
      resolve ⟨european, 0⟩ (some "ja") (some "\u00A0pt-BR ") ["", "\tde"] =
        (Translator.activate ⟨european, 0⟩ 1
          ⟨some "pt_BR", .configuration, some "pt-BR"⟩).after skipped := by
  obtain ⟨index, selection, -, hunique, -, -, h⟩ :=
    resolve_precedence european (some "ja") (some "pt-BR") ["de"]
  have hresolved : Resolved european.locales (some "ja") (some "pt-BR") ["de"] 1
      ⟨some "pt_BR", .configuration, some "pt-BR"⟩ := by
    have hja : (some "ja").bind Text.nonBlank? = some "ja" := by decide +kernel
    refine .configuration ?_ (asks_iff.mpr (by decide +kernel)) (by decide +kernel)
    intro name hname
    rw [asks_iff, hja] at hname
    cases hname
    decide +kernel
  obtain ⟨rfl, rfl⟩ := hunique _ _ hresolved
  obtain ⟨hresult, hstate, -, hends, hpadded, -, -⟩ := h 0
  have hsame := hpadded (some "ja") (some "\u00A0pt-BR ") ["", "\tde"]
    (.some ⟨[], [], nofun, nofun, rfl⟩)
    (.some ⟨['\u00A0'], [' '], by decide, by decide, rfl⟩)
    (.blank nofun (.cons ⟨['\t'], [], by decide, nofun, rfl⟩ .nil))
  rw [hsame]
  exact ⟨hresult, hstate, hends⟩

/-- A catalog whose only locale is called `C`. -/
def plainLocale : Catalog.Packed where
  localeTable := [0x43, 0, 0]
  mapping := []
  pool := [0]

theorem load_plainLocale : plainLocale.load =
    .ok ⟨⟨["C"]⟩, [0], #[], #[], Catalog.laidOut_empty [0] 1⟩ := by
  decide +kernel

/-- The first name of a list that a locale has need not decide, even if no name before
it asks for default text: it may itself do so. -/
theorem first_named_not_selected :
    ¬ ∀ (p : Catalog.Packed) (c : Catalog), p.load = .ok c →
      ∀ (active : Nat) (priority names before : List String) (name : String),
        Text.Entries priority names → before ++ [name] <+: names → name ∈ c.locales.names →
        "C" ∉ before → "POSIX" ∉ before → (∀ n ∈ before, n ∉ c.locales.names) →
        (resolve ⟨c, active⟩ none none priority).result = ⟨some name, .priorityList, some name⟩ := by
  intro h
  have hfirst := h plainLocale _ load_plainLocale 0 ["C"] ["C"] [] "C"
    (Text.entries_iff.mpr (by decide +kernel)) (List.prefix_refl _) (List.mem_singleton.mpr rfl)
    nofun nofun nofun
  exact absurd hfirst (by decide +kernel)

end Selection

end ScriptLint
