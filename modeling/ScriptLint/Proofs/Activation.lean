import Mathlib.Data.List.Induction
import ScriptLint.Proofs.Choosing

/-! Which locale is active after any run of choices.

* `Offers d names before name`: in a priority list, `name` stands after `before` and
  belongs to a locale, and nothing up to it asks for default text.  A list
  is searched for the first name that it offers (`setBest_of_first`), and changes
  nothing when it offers none (`setBest_of_none`).
* `Consistent t`: the active index is that of a locale, or the one past all locales, and
  then default text is in use; every message of the catalog has a text.  A choice keeps
  this (`Consistent.choose`), and so does a run (`consistent_after`).

A run leaves the translator as its latest successful choice left it:

    (ofCatalog c).after choices = (latest? (ofCatalog c) choices).elim (ofCatalog c) (·.state)
-/

namespace ScriptLint

/-! ## Names and indices -/

namespace Locale.Directory

variable {d : Directory} {name : String} {index : Nat}

theorem name?_of_find? (h : d.find? name = some index) : d.name? index = some name := by
  obtain ⟨hlt, hname, -⟩ := List.idxOf?_eq_some_iff.mp h
  rw [name?, List.getElem?_eq_getElem hlt, hname]

theorem find?_eq_none_iff : d.find? name = none ↔ name ∉ d.names :=
  List.idxOf?_eq_none_iff

theorem exists_find? (h : name ∈ d.names) : ∃ index, d.find? name = some index := by
  have hne : d.find? name ≠ none := fun hnone => find?_eq_none_iff.mp hnone h
  exact Option.ne_none_iff_exists'.mp hne

/-- Whatever stands in for a name has a name of its own. -/
theorem name?_of_firstListed? {names : List String} (h : d.firstListed? names = some index) :
    ∃ locale, d.name? index = some locale := by
  obtain ⟨locale, -, hfind⟩ := List.exists_of_findSome?_eq_some h
  exact ⟨locale, name?_of_find? hfind⟩

theorem lt_of_name? (h : d.name? index = some name) : index < d.size := by
  obtain ⟨hlt, -⟩ := List.getElem?_eq_some_iff.mp h
  exact hlt

theorem lt_of_firstListed? {names : List String} (h : d.firstListed? names = some index) :
    index < d.size := by
  obtain ⟨locale, hlocale⟩ := name?_of_firstListed? h
  exact lt_of_name? hlocale

end Locale.Directory

namespace Selection

theorem named?_lt {d : Locale.Directory} {name : Option String} {index : Nat}
    (h : named? d name = some index) : index < d.size := by
  obtain ⟨candidate, -, hclosest⟩ := Option.bind_eq_some_iff.mp h
  exact Locale.Directory.lt_of_firstListed? hclosest

theorem decided_le (d : Locale.Directory) (explicit configured : Option String)
    (priority : List String) : decided d explicit configured priority ≤ d.size := by
  unfold decided
  cases he : named? d explicit with
  | some index => exact Nat.le_of_lt (named?_lt he)
  | none =>
    cases hc : named? d configured with
    | some index => exact Nat.le_of_lt (named?_lt hc)
    | none =>
      cases hp : Translator.best? d (priority.filterMap Text.nonBlank?) with
      | some index => exact Nat.le_of_lt (Locale.Directory.lt_of_firstListed? hp)
      | none => exact Nat.le_refl _

end Selection

namespace Event

/-- The events that tell of a new active locale. -/
def isActivation : Event → Bool
  | .localeActivated _ => true
  | _ => false

/-- None of the events tells of a new active locale. -/
def Quiet (events : List Event) : Prop :=
  ∀ e ∈ events, e.isActivation = false

theorem quiet_nil : Quiet [] :=
  nofun

theorem quiet_singleton {e : Event} (h : e.isActivation = false) : Quiet [e] := by
  intro e' he'
  rwa [List.mem_singleton.mp he']

theorem Quiet.append {earlier later : List Event} (h : Quiet earlier) (h' : Quiet later) :
    Quiet (earlier ++ later) := by
  intro e he
  rcases List.mem_append.mp he with he | he
  · exact h e he
  · exact h' e he

end Event

namespace Translator

/-! ## Priority lists -/

/-- In a priority list, `name` stands after `before` and a locale has it; neither
before it nor in its place is there a name that asks for default text. -/
structure Offers (d : Locale.Directory) (names before : List String) (name : String) : Prop where
  stands : before ++ [name] <+: names
  listed : name ∈ d.names
  not_c : "C" ∉ before ++ [name]
  not_posix : "POSIX" ∉ before ++ [name]

theorem contains_untranslated_iff (name : String) :
    untranslated.contains name = true ↔ name = "C" ∨ name = "POSIX" := by
  simp [untranslated]

section
variable {d : Locale.Directory} {names before : List String} {first name : String}

theorem Offers.head (hlisted : name ∈ d.names) (h : ¬ untranslated.contains name = true) :
    Offers d (name :: names) [] name := by
  rw [contains_untranslated_iff, not_or] at h
  refine ⟨⟨names, rfl⟩, hlisted, ?_, ?_⟩
  · simpa using Ne.symm h.1
  · simpa using Ne.symm h.2

theorem offers_cons_iff : Offers d (first :: names) (first :: before) name ↔
    ¬ untranslated.contains first = true ∧ Offers d names before name := by
  rw [contains_untranslated_iff, not_or]
  constructor
  · rintro ⟨hstands, hlisted, hc, hposix⟩
    rw [List.cons_append, List.mem_cons, not_or] at hc hposix
    rw [List.cons_append, List.cons_prefix_cons] at hstands
    exact ⟨⟨Ne.symm hc.1, Ne.symm hposix.1⟩, hstands.2, hlisted, hc.2, hposix.2⟩
  · rintro ⟨⟨hc, hposix⟩, h⟩
    refine ⟨?_, h.listed, ?_, ?_⟩
    · rw [List.cons_append, List.cons_prefix_cons]
      exact ⟨rfl, h.stands⟩
    · rw [List.cons_append, List.mem_cons, not_or]
      exact ⟨Ne.symm hc, h.not_c⟩
    · rw [List.cons_append, List.mem_cons, not_or]
      exact ⟨Ne.symm hposix, h.not_posix⟩

/-- The head of a list is what it offers, or what it offers stands in its tail. -/
theorem Offers.cases (h : Offers d (first :: names) before name) :
    ¬ untranslated.contains first = true ∧
    (before = [] ∧ name = first ∨ ∃ rest, before = first :: rest ∧ Offers d names rest name) := by
  cases before with
  | nil =>
    have hname : name = first := by
      have hstands := h.stands
      rw [List.nil_append, List.cons_prefix_cons] at hstands
      exact hstands.1
    subst hname
    refine ⟨?_, .inl ⟨rfl, rfl⟩⟩
    rw [contains_untranslated_iff]
    rintro (hc | hposix)
    · exact h.not_c (by simp [hc])
    · exact h.not_posix (by simp [hposix])
  | cons b rest =>
    have hb : b = first := by
      have hstands := h.stands
      rw [List.cons_append, List.cons_prefix_cons] at hstands
      exact hstands.1
    subst hb
    obtain ⟨hfirst, hrest⟩ := offers_cons_iff.mp h
    exact ⟨hfirst, .inr ⟨rest, rfl, hrest⟩⟩

/-- A list that offers a name offers a first one. -/
theorem Offers.exists_first (h : Offers d names before name) :
    ∃ before name, Offers d names before name ∧ ∀ n ∈ before, n ∉ d.names := by
  induction names generalizing before with
  | nil => exact absurd h.stands (by simp)
  | cons first names ih =>
    obtain ⟨hfirst, ⟨rfl, rfl⟩ | ⟨rest, rfl, hrest⟩⟩ := h.cases
    · exact ⟨[], name, h, nofun⟩
    · by_cases hlisted : first ∈ d.names
      · exact ⟨[], first, .head hlisted hfirst, nofun⟩
      · obtain ⟨before, name, hoffers, hbefore⟩ := ih hrest
        refine ⟨first :: before, name, offers_cons_iff.mpr ⟨hfirst, hoffers⟩, ?_⟩
        intro n hn
        rcases List.mem_cons.mp hn with rfl | hn
        · exact hlisted
        · exact hbefore n hn

end

section
variable {t : Translator} {names before : List String} {name : String}

/-- The search ends at the first name that the list offers. -/
theorem setBest_of_first {index : Nat} (h : Offers t.catalog.locales names before name)
    (hbefore : ∀ n ∈ before, n ∉ t.catalog.locales.names)
    (hindex : t.catalog.locales.find? name = some index) :
    t.setBest names = t.activate index true := by
  induction names generalizing before with
  | nil => exact absurd h.stands (by simp)
  | cons first names ih =>
    obtain ⟨hfirst, ⟨rfl, rfl⟩ | ⟨rest, rfl, hrest⟩⟩ := h.cases
    · rw [setBest, if_neg hfirst, hindex]
    · obtain ⟨hunlisted, hbefore⟩ := List.forall_mem_cons.mp hbefore
      have hnone := Locale.Directory.find?_eq_none_iff.mpr hunlisted
      rw [setBest, if_neg hfirst, hnone]
      exact ih hrest hbefore

/-- The search of a list that offers nothing leaves the locale alone, whatever stands
behind a name that asks for default text. -/
theorem setBest_of_none (h : ∀ before name, ¬ Offers t.catalog.locales names before name) :
    ∃ events, Event.Quiet events ∧ t.setBest names = ⟨false, t, events⟩ := by
  induction names with
  | nil => exact ⟨[], Event.quiet_nil, rfl⟩
  | cons first names ih =>
    by_cases hfirst : untranslated.contains first = true
    · exact ⟨[.searchStopped first], Event.quiet_singleton rfl, by rw [setBest, if_pos hfirst]⟩
    · have hunlisted : first ∉ t.catalog.locales.names :=
        fun hlisted => h [] first (.head hlisted hfirst)
      have hnone := Locale.Directory.find?_eq_none_iff.mpr hunlisted
      rw [setBest, if_neg hfirst, hnone]
      exact ih fun before name hoffers =>
        h (first :: before) name (offers_cons_iff.mpr ⟨hfirst, hoffers⟩)

theorem setBest_eq_true_iff :
    (t.setBest names).result = true ↔ ∃ before name, Offers t.catalog.locales names before name := by
  constructor
  · intro h
    apply Classical.byContradiction
    intro hnone
    obtain ⟨events, -, hset⟩ := setBest_of_none fun before name ho => hnone ⟨before, name, ho⟩
    rw [hset] at h
    cases h
  · rintro ⟨before, name, h⟩
    obtain ⟨before, name, hoffers, hbefore⟩ := h.exists_first
    obtain ⟨index, hindex⟩ := Locale.Directory.exists_find? hoffers.listed
    rw [setBest_of_first hoffers hbefore hindex]
    rfl

end

/-! ## One choice -/

open Workspace (Choice Reply)

/-- The index of a locale, or the one that stands for default text. -/
theorem index?_le {d : Locale.Directory} {choice : Choice} {index : Nat}
    (h : choice.index? d = some index) : index ≤ d.size := by
  cases choice with
  | exact name =>
    exact Nat.le_of_lt (Locale.Directory.lt_of_name? (Locale.Directory.name?_of_find? h))
  | closest name => exact Nat.le_of_lt (Locale.Directory.lt_of_firstListed? h)
  | best names => exact Nat.le_of_lt (Locale.Directory.lt_of_firstListed? h)
  | defaultText =>
    cases h
    exact Nat.le_refl _
  | sources explicit configured priority =>
    cases h
    exact Selection.decided_le d explicit configured priority
  | config settings explicit =>
    cases h
    exact Selection.decided_le d explicit settings.preferred? settings.locales

/-- The active index is that of a locale, or default text is in use; every message has a text. -/
structure Consistent (t : Translator) : Prop where
  active_le : t.active ≤ t.catalog.localeCount
  locale_eq_none_iff : t.activeLocale? = none ↔ t.active = t.catalog.localeCount
  usesDefault_iff : t.usesDefault = true ↔ t.active = t.catalog.localeCount
  translates : ∀ id, id < t.catalog.messageCount →
    ∃ text, t.translate? id = some text ∧ t.catalog.lookup? id t.active = some text

theorem consistent_of_active_le {t : Translator} (h : t.active ≤ t.catalog.localeCount) :
    Consistent t := by
  refine ⟨h, ?_, ?_, fun id hid => ?_⟩
  · have hnone : t.activeLocale? = none ↔ t.catalog.localeCount ≤ t.active :=
      List.getElem?_eq_none_iff
    rw [hnone]
    omega
  · rw [usesDefault, decide_eq_true_eq]
    omega
  · have hne : t.catalog.lookup? id t.active ≠ none := by
      rw [Ne, t.catalog.lookup?_eq_none_iff]
      omega
    obtain ⟨text, htext⟩ := Option.ne_none_iff_exists'.mp hne
    exact ⟨text, htext, htext⟩

theorem Consistent.choose {t : Translator} (h : Consistent t) (choice : Choice) :
    Consistent (Workspace.choose t choice).state := by
  rw [Workspace.state_choose]
  apply consistent_of_active_le
  cases hindex : choice.index? t.catalog.locales with
  | none => exact h.active_le
  | some index => exact index?_le hindex

/-- How a translator answers choices: what fails changes nothing, an exact name
becomes the active one, and of a list the first name that it offers does. -/
structure Responds (t : Translator) : Prop where
  failed : ∀ choice, (Workspace.choose t choice).result.isSuccess = false →
    (Workspace.choose t choice).state = t
  exact_iff : ∀ name, (Workspace.choose t (.exact name)).result.isSuccess = true ↔
    name ∈ t.catalog.locales.names
  exact : ∀ name, (Workspace.choose t (.exact name)).result.isSuccess = true →
    (Workspace.choose t (.exact name)).state.activeLocale? = some name
  best_iff : ∀ names, (Workspace.choose t (.best names)).result.isSuccess = true ↔
    ∃ before name, Offers t.catalog.locales names before name
  best : ∀ names before name, Offers t.catalog.locales names before name →
    (∀ n ∈ before, n ∉ t.catalog.locales.names) →
    (Workspace.choose t (.best names)).state.activeLocale? = some name
  defaultText : (Workspace.choose t .defaultText).result.isSuccess = true ∧
    (Workspace.choose t .defaultText).state.activeLocale? = none

theorem responds (t : Translator) : Responds t where
  failed choice h := by
    rw [Workspace.isSuccess_choose, Option.isSome_eq_false_iff, Option.isNone_iff_eq_none] at h
    rw [Workspace.state_choose, h]
    rfl
  exact_iff name := by
    rw [Workspace.isSuccess_choose]
    exact List.isSome_idxOf?
  exact name h := by
    rw [Workspace.isSuccess_choose] at h
    obtain ⟨index, hindex⟩ := Option.isSome_iff_exists.mp h
    rw [Workspace.state_choose, hindex]
    exact Locale.Directory.name?_of_find? hindex
  best_iff names := setBest_eq_true_iff
  best names before name hoffers hbefore := by
    obtain ⟨index, hindex⟩ := Locale.Directory.exists_find? hoffers.listed
    show (t.setBest names).state.activeLocale? = some name
    rw [setBest_of_first hoffers hbefore hindex]
    exact Locale.Directory.name?_of_find? hindex
  defaultText := ⟨rfl, List.getElem?_eq_none (Nat.le_refl _)⟩

/-! ## Runs -/

/-- The translator after some choices. -/
def after (t : Translator) (choices : List Choice) : Translator :=
  choices.foldl (fun t choice => (Workspace.choose t choice).state) t

/-- The latest step of a run that reports a success. -/
def latest? (t : Translator) (choices : List Choice) : Option (Step Translator Reply) :=
  ((Step.trace Workspace.choose t choices).filter (·.result.isSuccess)).getLast?

theorem after_concat (t : Translator) (choices : List Choice) (choice : Choice) :
    t.after (choices ++ [choice]) = (Workspace.choose (t.after choices) choice).state := by
  rw [after, List.foldl_append]
  rfl

theorem trace_concat (t : Translator) (choices : List Choice) (choice : Choice) :
    Step.trace Workspace.choose t (choices ++ [choice]) =
      Step.trace Workspace.choose t choices ++ [Workspace.choose (t.after choices) choice] := by
  induction choices generalizing t with
  | nil => rfl
  | cons first choices ih => exact congrArg (_ :: ·) (ih (Workspace.choose t first).state)

theorem latest?_concat (t : Translator) (choices : List Choice) (choice : Choice) :
    latest? t (choices ++ [choice]) =
      if (Workspace.choose (t.after choices) choice).result.isSuccess then
        some (Workspace.choose (t.after choices) choice)
      else latest? t choices := by
  unfold latest?
  rw [trace_concat, List.filter_append, List.filter_cons, List.filter_nil]
  split
  next => exact List.getLast?_concat
  next => rw [List.append_nil]

theorem catalog_after (t : Translator) (choices : List Choice) :
    (t.after choices).catalog = t.catalog := by
  induction choices using List.reverseRecOn with
  | nil => rfl
  | append_singleton choices choice ih =>
    rw [after_concat, Workspace.state_choose, catalog_moved, ih]

theorem consistent_after (c : Catalog) (choices : List Choice) :
    Consistent ((ofCatalog c).after choices) := by
  induction choices using List.reverseRecOn with
  | nil => exact consistent_of_active_le (Nat.le_refl _)
  | append_singleton choices choice ih =>
    rw [after_concat]
    exact ih.choose choice

theorem after_eq_latest (t : Translator) (choices : List Choice) :
    t.after choices = (latest? t choices).elim t (·.state) := by
  induction choices using List.reverseRecOn with
  | nil => rfl
  | append_singleton choices choice ih =>
    rw [after_concat, latest?_concat]
    split
    next => rfl
    next h =>
      -- a failure adds no step to the successful ones, and moves nothing
      rw [(responds (t.after choices)).failed choice (Bool.eq_false_iff.mpr h)]
      exact ih

/-! ## Top theorem -/

/-- From a new translator on, whatever is chosen: the active index is that of a locale or
stands for default text, and it is the one that the latest successful choice
set; every message has its text there; and the next choice finds what it asks
for, or changes nothing. -/
theorem active_after (c : Catalog) (choices : List Choice) :
    ((ofCatalog c).after choices).catalog = c ∧
    Consistent ((ofCatalog c).after choices) ∧
    Responds ((ofCatalog c).after choices) ∧
    (ofCatalog c).after choices = (latest? (ofCatalog c) choices).elim (ofCatalog c) (·.state) :=
  ⟨catalog_after _ choices, consistent_after c choices, responds _, after_eq_latest _ choices⟩

/-- A catalog with a locale whose name asks for default text. -/
def portable : Catalog where
  locales := ⟨["C", "de"]⟩
  pool := Bytes.ofString "open commentoffener Kommentar"
  defaults := #[⟨0, 12⟩]
  translations := #[.useDefault, .translated ⟨12, 17⟩]
  laidOut := ⟨rfl, by decide +kernel, by decide +kernel⟩

/-- Finds a locale, and then twice none. -/
def searches : List Choice :=
  [.best ["ja", "de", "POSIX"], .best ["C", "de"], .exact "fr"]

theorem active_after_searches :
    ((ofCatalog portable).after searches).activeLocale? = some "de" ∧
    ((ofCatalog portable).after searches).active ≤ 2 ∧
    (∃ text, ((ofCatalog portable).after searches).translate? 0 = some text) ∧
    (Workspace.choose ((ofCatalog portable).after searches) (.best ["C"])).state =
      (ofCatalog portable).after searches ∧
    (Workspace.choose ((ofCatalog portable).after searches) (.exact "C")).state.activeLocale? =
      some "C" := by
  obtain ⟨hcatalog, hconsistent, hresponds, hlatest⟩ := active_after portable searches
  obtain ⟨text, htext, -⟩ := hconsistent.translates 0 (by rw [hcatalog]; decide)
  refine ⟨?_, ?_, ⟨text, htext⟩, hresponds.failed (.best ["C"]) rfl, hresponds.exact "C" rfl⟩
  · rw [hlatest]
    rfl
  · have hle := hconsistent.active_le
    rwa [hcatalog] at hle

end Translator

end ScriptLint
