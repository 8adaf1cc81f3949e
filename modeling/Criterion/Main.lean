import Criterion.Command.Run

/-! The program. It puts the files that a command line names on a disk, lets the command answer, and writes
the catalog file back if it changed. -/
namespace Criterion.Main

def entryOf (bytes : ByteArray) : Entry :=
  match String.fromUTF8? bytes with
  | some text => .text text
  | none => .bytes bytes

/-- Adds the file of that name as it is outside. A missing file leaves a directory to write it into; whether
there is one turns out when it is written. -/
def addFile (disk : Disk) (name : String) : IO Disk := do
  let steps := Disk.steps name
  match ← (IO.FS.readBinFile name).toBaseIO with
  | .ok bytes => return disk.install steps (entryOf bytes)
  | .error (.noFileOrDirectory ..) => return disk.install steps.dropLast .directory
  | .error _ => return (disk.install steps.dropLast .directory).refuseReading name

def readInput : Option Source → IO (Option String)
  | some .standardInput => do return String.fromUTF8? (← (← IO.getStdin).readBinToEnd)
  | _ => return none

/-- Those of the variables that are set. -/
def environmentOf (names : List String) : IO Settings.Environment := do
  let values ← names.mapM fun name => do
    return (← IO.getEnv name).map fun value => (name, value)
  return values.filterMap id

/-- Writes the file of that name if the program changed it, and says whether it is now as it should be. -/
def saveFile (before after : Disk) (name : String) : IO Bool := do
  match before.read name, after.read name with
  | _, .error _ => return true
  | .ok old, .ok content => if old = content then return true else write content
  | .error _, .ok content => write content
where
  write (content : String) : IO Bool := do
    match ← (IO.FS.writeFile name content).toBaseIO with
    | .ok _ => return true
    | .error _ => return false

def finish (e : Exit) : IO UInt32 := do
  IO.print e.output
  IO.eprint e.error
  return UInt32.ofNat e.code

/-- Runs a well-formed command line. Whether the catalog file can be written turns out in the end. -/
def runInvocation (arguments : List String) (i : Invocation) : IO UInt32 := do
  let disk ← match i.config with
    | some name => addFile {} name
    | none => pure {}
  let asked := match i.config.map disk.read with
    | some (.ok text) => Settings.namesFrom none text.toList
    | _ => []
  let env ← environmentOf ("RUST_LOG" :: asked)
  match i.settings env disk with
  | .error _ => finish (exitOf arguments env none disk)
  | .ok s =>
    let disk ← addFile disk (i.storeName s)
    let disk ← match i.command.document? with
      | some (.file name) => addFile disk name
      | _ => pure disk
    let input ← readInput i.command.document?
    let e := exitOf arguments env input disk
    if ← saveFile disk e.disk (i.storeName s) then finish e
    else finish (exitOf arguments env input (disk.refuseWriting (i.storeName s)))

end Criterion.Main

open Criterion in
def main (arguments : List String) : IO UInt32 :=
  match Invocation.ofArguments arguments with
  | .error _ => Main.finish (exitOf arguments [] none {})
  | .ok i => Main.runInvocation arguments i
