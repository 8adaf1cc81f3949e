import Criterion.Settings
import Criterion.Settings.LogFilter

/-! Validation of settings. -/
namespace Criterion.Settings

def limitIssue (s : Settings) : Option Issue :=
  if s.maxInputLength = 0 then
    some {
      field := "limits.max_input_length"
      code := "runner.config.limits.max_input_length"
      message := "limits.max_input_length must be > 0" }
  else none

def logIssue (s : Settings) : Option Issue :=
  if LogFilter.isValid s.logLevel then none
  else some {
    field := "log.level"
    code := "runner.config.log.level"
    message := "invalid log level `" ++ s.logLevel ++ "`"
    worded := true }

def schemaIssue (s : Settings) : Option Issue :=
  if s.schema = supportedSchema then none
  else some {
    field := "schema"
    code := "runner.config.schema"
    message := "unsupported runner config schema `" ++ s.schema ++ "` (expected `" ++ supportedSchema ++ "`)" }

def pathIssue (s : Settings) : Option Issue :=
  if (Text.trim s.storePath.toList).isEmpty then
    some {
      field := "store.path"
      code := "runner.config.store.path"
      message := "store.path must not be empty" }
  else none

/-- Everything that is wrong, in the order of the fields' names. -/
def issues (s : Settings) : List Issue :=
  [s.limitIssue, s.logIssue, s.schemaIssue, s.pathIssue].filterMap id

end Criterion.Settings
