import Criterion.Json.Read
import Criterion.Json.Record
import Criterion.Settings
import Criterion.Yaml.Record

/-! Settings written in JSON or YAML. Every field and every group of fields may be left out. -/
namespace Criterion.Settings

/-- The fields of one group as a decoder finds them. -/
abbrev Slots (α : Type) := List String → α → Option (List (Option α))

/-- The only field of a group; the default if the group or the field is left out. -/
def single {α β : Type} (slots : Slots α) (name : String) (value : α → Option β) (default : β) :
    Option α → Option β
  | none => some default
  | some group =>
    match slots [name] group with
    | some [some v] => value v
    | some [none] => some default
    | _ => none

def decode {α : Type} (slots : Slots α) (text : α → Option String) (number : α → Option Nat) (v : α) :
    Option Settings :=
  match slots ["schema", "store", "limits", "log"] v with
  | some [schema, store, limits, log] => do
    let schema ← match schema with
      | some v => text v
      | none => some ({} : Settings).schema
    return {
      schema := schema
      storePath := ← single slots "path" text ({} : Settings).storePath store
      maxInputLength := ← single slots "max_input_length" number ({} : Settings).maxInputLength limits
      logLevel := ← single slots "level" text ({} : Settings).logLevel log }
  | _ => none

def ofJson? (text : String) : Option Settings :=
  (Json.read? (some Json.nestingLimit) text).bind
    (decode Json.slots? Json.string? fun v => v.uint64?.map UInt64.toNat)

def ofYaml? (text : String) : Option Settings :=
  (Yaml.Node.read? text).bind (decode Yaml.Node.slots? Yaml.Node.text? Yaml.Node.uint64?)

end Criterion.Settings
