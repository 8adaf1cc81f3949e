import Criterion.Registry
import Criterion.Wording

/-! Settings of a run: where the catalog is kept, how long an expression may be, what is logged. -/
namespace Criterion

def Settings.supportedSchema : String := "expreval-runner/0.0.1"

structure Settings where
  schema : String := Settings.supportedSchema
  storePath : String := "expreval-store.json"
  maxInputLength : Nat := Registry.defaultLimit
  logLevel : String := "warn"
  deriving DecidableEq, Repr

/-- Something that is wrong with settings that could be read. If a library refuses the field, its words follow
the message. -/
structure Issue where
  field : String
  code : String
  message : String
  worded : Bool := false
  deriving DecidableEq, Repr

def Issue.text (i : Issue) (w : Wording := {}) : String :=
  i.field ++ " (" ++ i.code ++ "): " ++ i.message ++ if i.worded then ": " ++ w.filter else ""

end Criterion
