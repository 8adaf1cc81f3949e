import Criterion.Disk
import Criterion.Settings.Decode
import Criterion.Settings.Placeholder
import Criterion.Settings.Validate

/-! Settings files. The notation follows the extension of the file name; without a known one the file is
read as YAML and, if that fails, as JSON. -/
namespace Criterion

/-- The languages that settings are written in. -/
inductive Settings.Language where
  | json
  | yaml
  deriving DecidableEq, Repr

def Settings.Language.name : Language → String
  | json => "json"
  | yaml => "yaml"

/-- A file that cannot be decoded was to be in the language that its name tells, if it tells one. -/
inductive SettingsError where
  | unreadable (path : String)
  | placeholder (e : Settings.PlaceholderError)
  | undecodable {language : Option Settings.Language}
  | invalid (issues : List Issue)
  deriving DecidableEq, Repr

def SettingsError.message (e : SettingsError) (w : Wording := {}) : String :=
  match e with
  | .unreadable path => "read runner config failed `" ++ path ++ "`: " ++ w.file
  | .placeholder e => "runner config parse failed: " ++ e.message
  | @undecodable (some language) => "runner config parse failed: " ++ language.name ++ " decode error: " ++ w.settings
  | @undecodable none => "runner config parse failed: " ++ w.settings
  | .invalid issues => "runner config validation failed: " ++ "; ".intercalate (issues.map fun i => i.text w)

namespace Settings

/-- What follows the last dot of a file name that has something before that dot. -/
def extension? (name : List Char) : Option (List Char) :=
  let last := (name.reverse.takeWhile (· = '/')).length
  let file := ((name.take (name.length - last)).reverse.takeWhile (· ≠ '/')).reverse
  let ending := file.reverse.takeWhile (· ≠ '.')
  if ending.length + 1 < file.length then some ending.reverse else none

def language? (name : String) : Option Language :=
  match (extension? name.toList).map String.ofList with
  | some "json" => some .json
  | some "yaml" | some "yml" => some .yaml
  | _ => none

def decodeNamed (name text : String) : Option Settings :=
  match language? name with
  | some .json => ofJson? text
  | some .yaml => ofYaml? text
  | none => ofYaml? text <|> ofJson? text

def ofText (env : Environment) (name text : String) : Except SettingsError Settings :=
  match expand env text with
  | .error e => .error (.placeholder e)
  | .ok expanded =>
    match decodeNamed name expanded with
    | none => .error (@SettingsError.undecodable (language? name))
    | some s => if s.issues.isEmpty then .ok s else .error (.invalid s.issues)

def load (env : Environment) (disk : Disk) (name : String) : Except SettingsError Settings :=
  match disk.read name with
  | .error _ => .error (.unreadable name)
  | .ok text => ofText env name text

end Settings

end Criterion
