/-! Where the name of a selected locale comes from. -/

namespace ScriptLint.Locale

/-- The sources of a locale name, in order of precedence. -/
inductive Source where
  | explicit
  | configuration
  | priorityList
  | fallback
  deriving DecidableEq

/-- How a source is called in events and answers. -/
def Source.text : Source → String
  | explicit => "explicit locale override"
  | configuration => "configuration locale"
  | priorityList => "locale priority list"
  | fallback => "default text"

end ScriptLint.Locale
