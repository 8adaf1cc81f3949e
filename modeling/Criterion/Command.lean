/-! Commands that can be given to the program. -/
namespace Criterion

inductive Format where
  | text
  | json
  deriving DecidableEq, Repr

/-- Where a document comes from. -/
inductive Source where
  | inline (text : String)
  | file (name : String)
  | standardInput
  deriving DecidableEq, Repr

inductive Command where
  | parse (expression : String)
  | check (expression : String) (document : Source)
  | save (name expression : String)
  | evaluate (id : UInt64) (document : Source)
  | list
  | remove (id : UInt64)
  deriving DecidableEq, Repr

def Command.document? : Command → Option Source
  | .check _ document | .evaluate _ document => some document
  | _ => none

/-- A command with the options that every command has. -/
structure Invocation where
  config : Option String := none
  store : Option String := none
  format : Format := .text
  command : Command
  deriving DecidableEq, Repr

end Criterion
