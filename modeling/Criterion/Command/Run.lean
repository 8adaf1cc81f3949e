import Criterion.Command.Arguments
import Criterion.Settings.Load

/-! Running a command on files. A document is read before the catalog is opened, and only saving and
removing write. -/
namespace Criterion

inductive RunError where
  | unreadable (path : String)
  | readStandardInput
  | settings (e : SettingsError)
  | registry (e : RegistryError)
  | catalog (e : CatalogError)
  | encodeOutput
  deriving DecidableEq, Repr

namespace RunError

def message (e : RunError) (w : Wording := {}) : String :=
  match e with
  | .unreadable path => "read file failed `" ++ path ++ "`: " ++ w.file
  | .readStandardInput => "read stdin failed: " ++ w.input
  | .settings e => e.message w
  | .registry e => e.message w
  | .catalog e => e.message w
  | .encodeOutput => "output encode failed: " ++ w.nesting

def position? : RunError → Option Nat
  | .registry e => e.position?
  | _ => none

end RunError

/-- What a program ends with: its log cannot be started, or its command fails. -/
inductive ProgramError where
  | logging (reason : String)
  | run (e : RunError)
  deriving DecidableEq, Repr

namespace ProgramError

def message (e : ProgramError) (w : Wording := {}) : String :=
  match e with
  | .logging reason => "logging init failed: " ++ reason
  | .run e => e.message w

def position? : ProgramError → Option Nat
  | .logging _ => none
  | .run e => e.position?

def toJson (e : ProgramError) (w : Wording := {}) : Json :=
  .object (("message", .string (e.message w)) ::
    match e.position? with
    | some position => [("position", .number (.whole position))]
    | none => [])

def render (format : Format) (e : ProgramError) (w : Wording := {}) : String :=
  match format with
  | .text => e.message w
  | .json => (e.toJson w).compact

end ProgramError

/-- The report of a failed command. -/
def RunError.render (format : Format) (e : RunError) (w : Wording := {}) : String :=
  (ProgramError.run e).render format w

namespace Command.Run

/-- The answer of a command and the disk after it. -/
abbrev Result := Except RunError String × Disk

def read (source : Source) (input : Option String) (disk : Disk) : Except RunError String :=
  match source with
  | .inline text => .ok text
  | .standardInput =>
    match input with
    | some text => .ok text
    | none => .error .readStandardInput
  | .file name =>
    match disk.read name with
    | .ok text => .ok text
    | .error _ => .error (.unreadable name)

def openRegistry (path : String) (limit : Nat) (disk : Disk) : Except RunError Registry :=
  match Shelf.load path disk with
  | .ok shelf => .ok ⟨shelf, limit⟩
  | .error e => .error (.catalog e)

/-- A tree as part of an output. It is read as a document, so its nesting is limited. -/
def parseOutput (format : Format) (c : Compiled) : Except RunError String :=
  match format with
  | .text => .ok c.encoded
  | .json =>
    match Json.document? c.encoded with
    | some tree => .ok (Json.object [("ast", tree), ("expression", .string c.expression)]).pretty
    | none => .error .encodeOutput

def resultOutput (format : Format) (result : Bool) (expression : String) : String :=
  match format with
  | .text => truthText result
  | .json => (Json.object [("expr", .string expression), ("result", .bool result)]).pretty

def saveOutput (format : Format) (r : Record) : String :=
  match format with
  | .text => "saved expression " ++ Decimal.text r.id.toNat ++ ": " ++ r.expression
  | .json => (Json.object [("id", Json.ofUInt64 r.id), ("value", .string r.expression)]).pretty

def removeOutput (format : Format) (id : UInt64) : String :=
  match format with
  | .text => "removed expression " ++ Decimal.text id.toNat
  | .json => (Json.object [("id", Json.ofUInt64 id), ("removed", .bool true)]).pretty

def listLine (r : Record) : String := Decimal.text r.id.toNat ++ "\t" ++ r.name ++ "\t" ++ r.expression

def listOutput (format : Format) (records : List Record) : String :=
  match format with
  | .text => "\n".intercalate (records.map listLine)
  | .json => (Json.array (records.map Record.toJson)).pretty

def parse (format : Format) (limit : Nat) (expression : String) : Except RunError String := do
  let c ← (Registry.compileWithin limit expression).mapError .registry
  parseOutput format c

def check (format : Format) (limit : Nat) (expression document : String) : Except RunError String := do
  let result ← ((⟨.inMemory, limit⟩ : Registry).evaluateText expression document).mapError .registry
  return resultOutput format result expression

def save (format : Format) (r : Registry) (name expression : String) (disk : Disk) : Result :=
  let o := r.save name expression disk
  ((o.answer.map (saveOutput format)).mapError .registry, o.disk)

def evaluate (format : Format) (r : Registry) (id : UInt64) (document : String) : Except RunError String := do
  let e ← (r.evaluate id document).mapError .registry
  return resultOutput format e.result e.expression

def remove (format : Format) (r : Registry) (id : UInt64) (disk : Disk) : Result :=
  let o := r.remove id disk
  ((o.answer.map fun _ => removeOutput format id).mapError .registry, o.disk)

/-- Goes on with a value or answers with the error; the disk stays as it is. -/
def andThen {α : Type} (disk : Disk) (value : Except RunError α) (next : α → Result) : Result :=
  match value with
  | .ok a => next a
  | .error e => (.error e, disk)

end Command.Run

/-- The file of the catalog. -/
def Invocation.storeName (i : Invocation) (s : Settings) : String := i.store.getD s.storePath

open Command.Run in
/-- Runs a command under given settings. The standard input is `none` if it is not text. -/
def Invocation.run (i : Invocation) (s : Settings) (input : Option String) (disk : Disk) : Result :=
  let registry := openRegistry (i.storeName s) s.maxInputLength disk
  match i.command with
  | .parse expression => (parse i.format s.maxInputLength expression, disk)
  | .check expression source =>
    andThen disk (read source input disk) fun document =>
      (check i.format s.maxInputLength expression document, disk)
  | .save name expression => andThen disk registry fun r => save i.format r name expression disk
  | .evaluate id source =>
    andThen disk (read source input disk) fun document =>
      andThen disk registry fun r => (evaluate i.format r id document, disk)
  | .list => andThen disk registry fun r => (.ok (listOutput i.format r.list), disk)
  | .remove id => andThen disk registry fun r => remove i.format r id disk

/-- The settings that the invocation names, or the defaults. -/
def Invocation.settings (i : Invocation) (env : Settings.Environment) (disk : Disk) : Except RunError Settings :=
  match i.config with
  | none => .ok {}
  | some name => (Settings.load env disk name).mapError .settings

def Invocation.perform (i : Invocation) (env : Settings.Environment) (input : Option String) (disk : Disk) :
    Command.Run.Result :=
  Command.Run.andThen disk (i.settings env disk) fun s => i.run s input disk

/-- Starts the log. The environment may bring a filter of its own, in which directives that cannot be read are passed
over; otherwise the filter is the level of the settings. -/
def startLog (env : Settings.Environment) (s : Settings) (w : Wording := {}) : Except ProgramError Unit :=
  if (env.lookup "RUST_LOG").isSome || Settings.LogFilter.isValid s.logLevel then .ok ()
  else .error (.logging ("invalid log level filter `" ++ s.logLevel ++ "`: " ++ w.filter))

/-- The program on a well-formed command line: it reads the settings, starts the log and runs the command. -/
def Invocation.program (i : Invocation) (env : Settings.Environment) (input : Option String) (disk : Disk)
    (w : Wording := {}) : Except ProgramError String × Disk :=
  match i.settings env disk with
  | .error e => (.error (.run e), disk)
  | .ok s =>
    match startLog env s w with
    | .error e => (.error e, disk)
    | .ok () =>
      let (answer, left) := i.run s input disk
      (answer.mapError .run, left)

/-- How the program ends. -/
structure Exit where
  code : Nat
  output : String
  error : String
  disk : Disk

/-- The whole program. A wrong command line ends it with code 2, an error with code 1. -/
def exitOf (arguments : List String) (env : Settings.Environment) (input : Option String) (disk : Disk)
    (w : Wording := {}) : Exit :=
  match Invocation.ofArguments arguments with
  | .error .help => ⟨0, "", "", disk⟩
  | .error e => ⟨2, "", e.message ++ "\n", disk⟩
  | .ok i =>
    match i.program env input disk w with
    | (.ok output, disk) => ⟨0, output ++ "\n", "", disk⟩
    | (.error e, disk) => ⟨1, "", e.render i.format w ++ "\n", disk⟩

end Criterion
