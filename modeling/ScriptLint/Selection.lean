import ScriptLint.Text.Blank
import ScriptLint.Translator

/-! Choosing a locale from several sources.

An explicit name comes first, then a configured one, both matched closely;
then a priority list, matched exactly; then default text.  Names are trimmed,
and blank names count as absent. -/

namespace ScriptLint

/-- The outcome: the locale now active, the source that decided, and the name it asked for. -/
structure Selection where
  locale : Option String
  source : Locale.Source
  requested : Option String
  deriving DecidableEq

namespace Selection

def usedFallback (s : Selection) : Bool :=
  s.source == .fallback

/-! ## Algorithm -/

/-- Tries a single name; `none` when it is absent, blank or not available. -/
def tryName (t : Translator) (source : Locale.Source) (name : Option String) :
    Step Translator (Option Selection) :=
  match name.bind Text.nonBlank? with
  | none => t.keep none
  | some candidate =>
    let step := t.setClosest candidate
    if step.result then
      { step with result := some ⟨step.state.activeLocale?, source, some candidate⟩ }
    else
      ⟨none, step.state, step.events ++ [.candidateSkipped source candidate]⟩

/-- Tries the names of a priority list. -/
def tryList (t : Translator) (priority : List String) : Step Translator (Option Selection) :=
  match priority.filterMap Text.nonBlank? with
  | [] => t.keep none
  | candidates =>
    let step := t.setBest candidates
    if step.result then
      let locale := step.state.activeLocale?
      { step with result := some ⟨locale, .priorityList, locale⟩ }
    else
      ⟨none, step.state, step.events ++ [.priorityListSkipped candidates]⟩

/-- Goes on with `next` when a source had nothing to offer. -/
def orElse (step : Step Translator (Option Selection))
    (next : Translator → Step Translator Selection) : Step Translator Selection :=
  match step.result with
  | some selection => { step with result := selection }
  | none => (next step.state).after step.events

/-- Chooses a locale and activates it. -/
def resolve (t : Translator) (explicit configured : Option String) (priority : List String) :
    Step Translator Selection :=
  orElse (tryName t .explicit explicit) fun t =>
    orElse (tryName t .configuration configured) fun t =>
      orElse (tryList t priority) fun t =>
        t.useDefault ⟨none, .fallback, none⟩

end Selection

end ScriptLint
