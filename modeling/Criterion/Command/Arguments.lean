import Criterion.Command
import Criterion.Decimal
import Criterion.Text

/-! Command lines. Options are long, and their value follows after `=` or as the next argument, which
must not begin with a dash unless it is one. The options for every command may stand before or after its
name; after it they win. A value is looked at only when the next option is reached, so an argument that
is not known is reported before a bad value in front of it. -/
namespace Criterion

inductive UsageError where
  | help
  | helpForNothing
  | missingCommand
  | invalidCommand
  | unknownArgument
  | missingArgument
  | invalidValue
  | invalidNumber
  | conflict
  | surplusValue
  deriving DecidableEq, Repr

def UsageError.message : UsageError → String
  | .help => ""
  | .helpForNothing | .missingCommand => "a command is missing: parse, check, save, evaluate, list or remove"
  | .invalidCommand => "there is no such command"
  | .unknownArgument => "there is an argument that the command does not have"
  | .missingArgument => "an option that the command needs is missing"
  | .invalidValue => "an option has a wrong value or none"
  | .invalidNumber => "an id is no whole number of 64 bits"
  | .conflict => "an option stands twice, or two options name a document"
  | .surplusValue => "an option has a value that takes none"

namespace Command

inductive Verb where
  | parse | check | save | evaluate | list | remove
  deriving DecidableEq, Repr

def Verb.ofName? : String → Option Verb
  | "parse" => some .parse
  | "check" => some .check
  | "save" => some .save
  | "evaluate" => some .evaluate
  | "list" => some .list
  | "remove" => some .remove
  | _ => none

inductive Opt where
  | config | store | format
  | expr | data | json | name | value | id
  deriving DecidableEq, Repr

namespace Opt

def ofName? : String → Option Opt
  | "config" => some .config
  | "store" => some .store
  | "format" => some .format
  | "expr" => some .expr
  | "data" => some .data
  | "json" => some .json
  | "name" => some .name
  | "value" => some .value
  | "id" => some .id
  | _ => none

/-- The options that every command has. -/
def shared : List Opt := [.config, .store, .format]

def ofVerb : Verb → List Opt
  | .parse => [.expr]
  | .check => [.expr, .data, .json]
  | .save => [.name, .value]
  | .evaluate => [.id, .data, .json]
  | .list => []
  | .remove => [.id]

def required : Verb → List Opt
  | .parse | .check => [.expr]
  | .save => [.name, .value]
  | .evaluate | .remove => [.id]
  | .list => []

/-- Does the command work on a document? Then exactly one of two options names it. -/
def needsDocument : Verb → Bool
  | .check | .evaluate => true
  | _ => false

end Opt

def formatOf? : String → Option Format
  | "text" => some .text
  | "json" => some .json
  | _ => none

/-- A number of 64 bits, with an optional plus sign. -/
def idOf? (text : String) : Option UInt64 :=
  match text.toList with
  | '-' :: _ => none
  | cs => (Decimal.integer? cs).bind Decimal.uint64?

/-- Names of files must not be empty; formats and ids must be such. -/
def checkValue (o : Opt) (value : String) : Except UsageError Unit :=
  match o with
  | .config | .store | .data => if value.isEmpty then .error .invalidValue else .ok ()
  | .format => if (formatOf? value).isNone then .error .invalidValue else .ok ()
  | .id => if (idOf? value).isNone then .error .invalidNumber else .ok ()
  | _ => .ok ()

/-- The options read so far, and one that is not settled yet with the value it has, if any. -/
structure Given where
  settled : List (Opt × String) := []
  pending : Option (Opt × Option String) := none
  deriving Repr

namespace Given

def value? (g : Given) (o : Opt) : Option String := g.settled.lookup o

def has (g : Given) (o : Opt) : Bool := (g.value? o).isSome

def accept (g : Given) (o : Opt) (value : String) : Except UsageError Given :=
  if g.has o then .error .conflict
  else do
    checkValue o value
    return { settled := g.settled ++ [(o, value)] }

def settle (g : Given) : Except UsageError Given :=
  match g.pending with
  | none => .ok g
  | some (_, none) => .error .invalidValue
  | some (o, some value) => g.accept o value

/-- Takes a word as the value that an option still lacks. -/
def supply? (g : Given) (word : String) : Option Given :=
  match g.pending with
  | some (o, none) => some { g with pending := some (o, some word) }
  | _ => none

end Given

/-- The forms of an argument. -/
inductive Shape where
  | escape
  | long (name : String) (value : Option String)
  | short (letters : List Char)
  | word
  deriving DecidableEq, Repr

def shape (argument : String) : Shape :=
  match argument.toList with
  | ['-', '-'] => .escape
  | '-' :: '-' :: cs =>
    let name := cs.takeWhile (· ≠ '=')
    if name.length < cs.length then .long (String.ofList name) (some (String.ofList (cs.drop (name.length + 1))))
    else .long (String.ofList cs) none
  | '-' :: c :: cs => .short (c :: cs)
  | _ => .word

/-- An argument of the form `--name` or `--name=value`. -/
def readLong (allowed : List Opt) (g : Given) (name : String) (value : Option String) :
    Except UsageError Given :=
  if name = "help" then
    match value with
    | some _ => .error .surplusValue
    | none => do
      let _ ← g.settle
      .error .help
  else
    match Opt.ofName? name with
    | some o =>
      if allowed.contains o then do
        let g ← g.settle
        match value with
        | some v => g.accept o v
        | none => return { g with pending := some (o, none) }
      else .error .unknownArgument
    | none => .error .unknownArgument

def readShort (g : Given) (letters : List Char) : Except UsageError Given :=
  if letters.head? = some 'h' then do
    let _ ← g.settle
    .error .help
  else .error .unknownArgument

/-- The arguments after a command. -/
def readOptions (allowed : List Opt) (g : Given) : List String → Except UsageError Given
  | [] => g.settle
  | argument :: rest =>
    match shape argument with
    | .escape => if rest.isEmpty then g.settle else .error .unknownArgument
    | .long name value => do readOptions allowed (← readLong allowed g name value) rest
    | .short letters => do readOptions allowed (← readShort g letters) rest
    | .word =>
      match g.supply? argument with
      | some g => readOptions allowed g rest
      | none => .error .unknownArgument

/-- The arguments after the word `help`: at most one, which names a command or is that word again. -/
def readHelp : List String → UsageError
  | [] => .help
  | [word] => if (Verb.ofName? word).isSome || word = "help" then .help else .invalidCommand
  | _ => .invalidCommand

/-- A dash names the standard input, also with empty steps and single dots after it. -/
def namesInput (name : String) : Bool :=
  match Text.split '/' name.toList with
  | ['-'] :: steps => steps.all fun step => step = [] || step = ['.']
  | _ => false

def document (g : Given) : Except UsageError Source :=
  match g.value? .json, g.value? .data with
  | some _, some _ => .error .conflict
  | some text, none => .ok (.inline text)
  | none, some name => .ok (if namesInput name then .standardInput else .file name)
  | none, none => .error .missingArgument

def text (g : Given) (o : Opt) : Except UsageError String :=
  match g.value? o with
  | some value => .ok value
  | none => .error .missingArgument

def id (g : Given) : Except UsageError UInt64 :=
  match (g.value? .id).bind idOf? with
  | some n => .ok n
  | none => .error .missingArgument

/-- The command that a verb and its options make. Two documents are reported before anything missing. -/
def ofOptions (g : Given) (verb : Verb) : Except UsageError Command :=
  if Opt.needsDocument verb && g.has .json && g.has .data then .error .conflict
  else
    match verb with
    | .parse => do return .parse (← text g .expr)
    | .check => do return .check (← text g .expr) (← document g)
    | .save => do return .save (← text g .name) (← text g .value)
    | .evaluate => do return .evaluate (← id g) (← document g)
    | .list => return .list
    | .remove => do return .remove (← id g)

/-- Reads what follows the name of a command, and then settles what stood before it. -/
def readCommand (before : Given) (verb : Verb) (rest : List String) : Except UsageError Invocation := do
  let after ← readOptions (Opt.shared ++ Opt.ofVerb verb) {} rest
  let command ← ofOptions after verb
  let before ← before.settle
  let shared (o : Opt) : Option String := after.value? o <|> before.value? o
  return {
    config := shared .config
    store := shared .store
    format := ((shared .format).bind formatOf?).getD .text
    command := command }

def readArguments (g : Given) : List String → Except UsageError Invocation
  | [] => do
    let g ← g.settle
    .error (if g.settled.isEmpty then .helpForNothing else .missingCommand)
  | argument :: rest =>
    match shape argument with
    | .escape =>
      match rest with
      | [] => do
        let g ← g.settle
        .error (if g.settled.isEmpty then .helpForNothing else .missingCommand)
      | next :: _ => .error (if (Verb.ofName? next).isSome || next = "help" then .unknownArgument else .invalidCommand)
    | .long name value => do readArguments (← readLong Opt.shared g name value) rest
    | .short letters => do readArguments (← readShort g letters) rest
    | .word =>
      match g.supply? argument with
      | some g => readArguments g rest
      | none =>
        match Verb.ofName? argument with
        | some verb => readCommand g verb rest
        | none => .error (if argument = "help" then readHelp rest else .invalidCommand)

end Command

def Invocation.ofArguments (arguments : List String) : Except UsageError Invocation :=
  Command.readArguments {} arguments

end Criterion
