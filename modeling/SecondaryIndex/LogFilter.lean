import SecondaryIndex.LogFilter.Directive

/-!
# Log filters

Logging is started with a filter: a list of directives between commas. Empty directives are passed
over, and the first directive that is refused decides.
-/

namespace SecondaryIndex

namespace LogFilter

/-- Checks all directives of a filter. -/
def check (filter : String) : Except SettingError Unit :=
  ((filter.toList.splitOn ',').filter fun directive => !directive.isEmpty).forM checkDirective

end LogFilter

/-- Starts logging with a filter. Logging is started once; a later start is refused, but only after
its filter was found to be well formed. -/
def startLogging (alreadyStarted : Bool) (filter : String) : Except IndexError Unit :=
  match LogFilter.check filter with
  | .error cause => .error (.invalidArgument cause)
  | .ok () => if alreadyStarted then .error (.invalidArgument .loggingStarted) else .ok ()

end SecondaryIndex
