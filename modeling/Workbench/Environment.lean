import Workbench.Path

/-!
The variables of the process environment that the program looks at.
-/

namespace Workbench

/-- Environment variables; one that is not set is missing. -/
structure Environment where
  /-- Where caches live. -/
  cacheDir : Option String := none
  /-- The user's home directory. -/
  home : Option String := none
  /-- The user's home directory on systems that do not set the usual variable. -/
  userProfile : Option String := none
  /-- Log directives that come after the configured log level. -/
  logFilter : Option String := none
  deriving Inhabited

end Workbench
