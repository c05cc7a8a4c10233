import ScriptLint.Fault
import ScriptLint.Locale.Source
import ScriptLint.Text.Quoted

/-! What happens along the way, as data.

Every operation that is worth a log line returns the events it caused, in order.
An event knows its level, the topic it is filed under and its wording. -/

namespace ScriptLint

inductive Level where
  | debug
  | warn
  deriving DecidableEq

inductive Event where
  | scanned (bytes findings : Nat)
  | catalogLoaded (messages locales : Nat)
  /-- The active locale was written; `none` stands for default text. -/
  | localeActivated (name : Option String)
  | searchStopped (candidate : String)
  | candidateSkipped (source : Locale.Source) (candidate : String)
  | priorityListSkipped (candidates : List String)
  | configRejected
  | configResolved (source : Locale.Source) (locale : Option String)
  | engineFailed (fault : Fault)
  | linted (bytes : Nat) (locale : Option String) (diagnostics : Nat)
  | nullTextIgnored (length : Nat)
  | lintFailed (fault : Fault)
  | localeUnavailable (name : String)
  | localeNameIllFormed
  /-- A call ended early and gave its fallback. -/
  | callBroken (entry : String)
  deriving DecidableEq

namespace Event

def level : Event → Level
  | candidateSkipped .. => .warn
  | priorityListSkipped .. => .warn
  | engineFailed .. => .warn
  | nullTextIgnored .. => .warn
  | lintFailed .. => .warn
  | callBroken .. => .warn
  | _ => .debug

def topic : Event → String
  | scanned .. => "lintel::lexer"
  | catalogLoaded .. => "i18n::catalog"
  | localeActivated .. => "i18n::translator"
  | searchStopped .. => "i18n::translator"
  | candidateSkipped .. => "i18n::selection"
  | priorityListSkipped .. => "i18n::selection"
  | configRejected => "lintel::config"
  | configResolved .. => "lintel::config"
  | engineFailed .. => "lintel::session"
  | linted .. => "lintel::session"
  | nullTextIgnored .. => "lintel::boundary"
  | lintFailed .. => "lintel::boundary"
  | localeUnavailable .. => "lintel::boundary"
  | localeNameIllFormed => "lintel::boundary"
  | callBroken .. => "lintel::boundary"

/-- How a missing locale is named. -/
def localeText (locale : Option String) : String :=
  locale.getD "<default>"

def text : Event → String
  | scanned bytes findings => s!"scanned {bytes} bytes, {findings} findings"
  | catalogLoaded messages locales =>
    s!"loaded catalog with {messages} messages in {locales} locales"
  | localeActivated name => s!"active locale is now {localeText name}"
  | searchStopped candidate =>
    s!"`{candidate}` requests untranslated text; stopping locale search"
  | candidateSkipped source candidate => s!"skipping unsupported {source.text} `{candidate}`"
  | priorityListSkipped candidates =>
    s!"no entry of the {Locale.Source.priorityList.text} {Text.quoteList candidates} is available"
  | configRejected => "rejected Lintel configuration:"
  | configResolved source locale => s!"resolved {source.text} to `{localeText locale}`"
  | engineFailed fault => s!"lint engine failed: {fault.message}"
  | linted bytes locale diagnostics =>
    s!"linted {bytes} bytes in locale {localeText locale}: {diagnostics} diagnostics"
  | nullTextIgnored length => s!"ignoring null text of length {length}"
  | lintFailed fault => s!"lint failed: {fault.message}"
  | localeUnavailable name => s!"locale `{name}` unavailable; using default text"
  | localeNameIllFormed => "locale name is not UTF-8; using default text"
  | callBroken entry => s!"{entry} panicked; returning the fallback"

end Event

end ScriptLint
