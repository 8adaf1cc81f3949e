/-! Placeholders for environment variables in a settings file. A placeholder is a name between `$` with
an opening brace and the next closing brace. Values are put in as they are and not searched again. -/
namespace Criterion.Settings

abbrev Environment := List (String × String)

inductive PlaceholderError where
  | unterminated
  | unnamed
  | unset (name : String)
  deriving DecidableEq, Repr

def PlaceholderError.message : PlaceholderError → String
  | .unterminated => "unterminated env placeholder `$\x7b...`"
  | .unnamed => "empty env placeholder `$\x7b\x7d`"
  | .unset name => "missing env var for placeholder `$\x7b" ++ name ++ "\x7d`"

/-- The names of the closed placeholders of a text, of which the part `name` of one may have been read. -/
def namesFrom : Option (List Char) → List Char → List String
  | _, [] => []
  | none, '$' :: '{' :: cs => namesFrom (some []) cs
  | none, _ :: cs => namesFrom none cs
  | some name, '}' :: cs => String.ofList name :: namesFrom none cs
  | some name, c :: cs => namesFrom (some (name ++ [c])) cs

/-- What a closed placeholder stands for. -/
def substitute (env : Environment) (name : List Char) : Except PlaceholderError (List Char) :=
  if name.isEmpty then .error .unnamed
  else
    match env.lookup (String.ofList name) with
    | some value => .ok value.toList
    | none => .error (.unset (String.ofList name))

/-- Expands a text, of which the part `name` of a placeholder may have been read. -/
def expandFrom (env : Environment) : Option (List Char) → List Char → Except PlaceholderError (List Char)
  | none, [] => .ok []
  | some _, [] => .error .unterminated
  | none, '$' :: '{' :: cs => expandFrom env (some []) cs
  | none, c :: cs => do
    let rest ← expandFrom env none cs
    return c :: rest
  | some name, '}' :: cs => do
    let value ← substitute env name
    let rest ← expandFrom env none cs
    return value ++ rest
  | some name, c :: cs => expandFrom env (some (name ++ [c])) cs

def expand (env : Environment) (text : String) : Except PlaceholderError String :=
  (expandFrom env none text.toList).map String.ofList

end Criterion.Settings
