import ScriptLint.Workspace

/-! What a choice of locale does.

Every way to choose a locale comes down to an index that the catalog's locales
decide, or to none (`Workspace.Choice.index?`).  The choice moves the translator
to that index and leaves all else alone (`state_choose`), and it reports a success
exactly when there is one (`isSuccess_choose`). -/

namespace ScriptLint

/-! ## One name, or several -/

namespace Translator

/-- The translator with another active locale, if one is given. -/
def moved (t : Translator) : Option Nat → Translator
  | some index => { t with active := index }
  | none => t

@[simp]
theorem catalog_moved (t : Translator) (index : Option Nat) :
    (t.moved index).catalog = t.catalog := by
  cases index <;> rfl

/-- The first name of a list that a locale has, before any that asks for default text. -/
def best? (d : Locale.Directory) (names : List String) : Option Nat :=
  d.firstListed? (names.takeWhile fun name => !untranslated.contains name)

theorem set_spec (t : Translator) (name : String) :
    (t.set name).state = t.moved (t.catalog.locales.find? name) ∧
    ((t.set name).result = .ok () ↔ (t.catalog.locales.find? name).isSome = true) := by
  unfold set
  cases t.catalog.locales.find? name with
  | none => exact ⟨rfl, nofun, nofun⟩
  | some index => exact ⟨rfl, fun _ => rfl, fun _ => rfl⟩

theorem setClosest_spec (t : Translator) (name : String) :
    (t.setClosest name).state = t.moved (t.catalog.locales.closest? name) ∧
    (t.setClosest name).result = (t.catalog.locales.closest? name).isSome := by
  unfold setClosest
  cases t.catalog.locales.closest? name with
  | none => exact ⟨rfl, rfl⟩
  | some index => exact ⟨rfl, rfl⟩

theorem setBest_spec (t : Translator) (names : List String) :
    (t.setBest names).state = t.moved (best? t.catalog.locales names) ∧
    (t.setBest names).result = (best? t.catalog.locales names).isSome := by
  induction names with
  | nil => exact ⟨rfl, rfl⟩
  | cons name rest ih =>
    unfold setBest best?
    by_cases hu : untranslated.contains name = true
    · rw [if_pos hu, List.takeWhile_cons_of_neg (by rw [hu]; decide)]
      exact ⟨rfl, rfl⟩
    · rw [if_neg hu, List.takeWhile_cons_of_pos (by simpa using hu)]
      unfold Locale.Directory.firstListed?
      rw [List.findSome?_cons]
      cases t.catalog.locales.find? name with
      | none => exact ih
      | some index => exact ⟨rfl, rfl⟩

end Translator

/-! ## Several sources -/

namespace Selection

/-- The index that a single source decides. -/
def named? (d : Locale.Directory) (name : Option String) : Option Nat :=
  (name.bind Text.nonBlank?).bind d.closest?

/-- The index that the sources decide: the first of them that names a locale, or else default text. -/
def decided (d : Locale.Directory) (explicit configured : Option String)
    (priority : List String) : Nat :=
  (named? d explicit <|> named? d configured <|>
    Translator.best? d (priority.filterMap Text.nonBlank?)).getD d.size

/-- A selection is made exactly when the translator found a locale. -/
theorem found_spec {t : Translator} {step : Step Translator Bool} {index : Option Nat}
    (h : step.state = t.moved index ∧ step.result = index.isSome) (selection : Selection)
    (events : List Event) :
    (if step.result then (⟨some selection, step.state, step.events⟩ : Step _ _)
      else ⟨none, step.state, events⟩).state = t.moved index ∧
    (if step.result then (⟨some selection, step.state, step.events⟩ : Step _ _)
      else ⟨none, step.state, events⟩).result.isSome = index.isSome := by
  obtain ⟨hstate, hresult⟩ := h
  rw [hresult, hstate]
  cases index with
  | none => exact ⟨rfl, rfl⟩
  | some index => exact ⟨rfl, rfl⟩

theorem tryName_spec (t : Translator) (source : Locale.Source) (name : Option String) :
    (tryName t source name).state = t.moved (named? t.catalog.locales name) ∧
    (tryName t source name).result.isSome = (named? t.catalog.locales name).isSome := by
  unfold tryName named?
  cases name.bind Text.nonBlank? with
  | none => exact ⟨rfl, rfl⟩
  | some candidate => exact found_spec (t.setClosest_spec candidate) _ _

theorem tryList_spec (t : Translator) (priority : List String) :
    (tryList t priority).state =
      t.moved (Translator.best? t.catalog.locales (priority.filterMap Text.nonBlank?)) ∧
    (tryList t priority).result.isSome =
      (Translator.best? t.catalog.locales (priority.filterMap Text.nonBlank?)).isSome := by
  unfold tryList
  cases priority.filterMap Text.nonBlank? with
  | nil => exact ⟨rfl, rfl⟩
  | cons name rest => exact found_spec (t.setBest_spec (name :: rest)) _ _

/-- A source that decides ends the search; one that does not leaves the translator to the next. -/
theorem state_orElse {t : Translator} {step : Step Translator (Option Selection)}
    {next : Translator → Step Translator Selection} {first : Option Nat} {second : Nat}
    (h : step.state = t.moved first ∧ step.result.isSome = first.isSome)
    (hnext : (next t).state = t.moved (some second)) :
    (orElse step next).state = t.moved (some (first.getD second)) := by
  obtain ⟨hstate, hresult⟩ := h
  unfold orElse
  cases first with
  | none =>
    rw [Option.isSome_none, Option.isSome_eq_false_iff, Option.isNone_iff_eq_none] at hresult
    rw [hresult, hstate]
    exact hnext
  | some index =>
    obtain ⟨selection, hs⟩ := Option.isSome_iff_exists.mp hresult
    rw [hs]
    exact hstate

theorem state_resolve (t : Translator) (explicit configured : Option String)
    (priority : List String) :
    (resolve t explicit configured priority).state =
      t.moved (some (decided t.catalog.locales explicit configured priority)) := by
  have hdecided : decided t.catalog.locales explicit configured priority =
      (named? t.catalog.locales explicit).getD ((named? t.catalog.locales configured).getD
        ((Translator.best? t.catalog.locales (priority.filterMap Text.nonBlank?)).getD
          t.catalog.locales.size)) := by
    unfold decided
    cases named? t.catalog.locales explicit <;> cases named? t.catalog.locales configured <;> rfl
  rw [hdecided]
  refine state_orElse (tryName_spec t .explicit explicit) ?_
  refine state_orElse (tryName_spec t .configuration configured) ?_
  exact state_orElse (tryList_spec t priority) rfl

end Selection

/-! ## All ways to choose -/

namespace Workspace

/-- The index that a choice decides; `none` when it finds no locale. -/
def Choice.index? (d : Locale.Directory) : Choice → Option Nat
  | .exact name => d.find? name
  | .closest name => d.closest? name
  | .best names => Translator.best? d names
  | .defaultText => some d.size
  | .sources explicit configured priority => some (Selection.decided d explicit configured priority)
  | .config settings explicit =>
    some (Selection.decided d explicit settings.preferred? settings.locales)

/-- Whether a reply reports a success. -/
def Reply.isSuccess : Reply → Bool
  | .found available => available
  | .exact (.error _) => false
  | .linted (.error _) => false
  | .notOpen => false
  | _ => true

theorem state_choose (t : Translator) (choice : Choice) :
    (choose t choice).state = t.moved (choice.index? t.catalog.locales) := by
  cases choice with
  | exact name => exact (t.set_spec name).1
  | closest name =>
    dsimp only [choose, Step.map, Choice.index?]
    exact (t.setClosest_spec name).1
  | best names => exact (t.setBest_spec names).1
  | defaultText => rfl
  | sources explicit configured priority =>
    exact Selection.state_resolve t explicit configured priority
  | config settings explicit =>
    exact Selection.state_resolve t explicit settings.preferred? settings.locales

theorem isSuccess_choose (t : Translator) (choice : Choice) :
    (choose t choice).result.isSuccess = (choice.index? t.catalog.locales).isSome := by
  cases choice with
  | exact name =>
    have h := (t.set_spec name).2
    show Reply.isSuccess (.exact (t.set name).result) = (t.catalog.locales.find? name).isSome
    cases hr : (t.set name).result with
    | ok u => exact (h.mp hr).symm
    | error e =>
      rw [hr] at h
      exact (Bool.eq_false_iff.mpr fun hs => nomatch h.mpr hs).symm
  | closest name => exact (t.setClosest_spec name).2
  | best names => exact (t.setBest_spec names).2
  | defaultText => rfl
  | sources => rfl
  | config => rfl

end Workspace

end ScriptLint
