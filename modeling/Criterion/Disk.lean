import Criterion.Text

/-! Files by name. A name is a list of directory names with a file name at the end, written with slashes.
Reading tells a file that does not exist from one that cannot be read, and writing needs a directory to
write into. Which files refuse to be read, which refuse to be written and where there is little room is up to
the surroundings; a file that is read may well refuse to be written. -/
namespace Criterion

inductive ReadFailure where
  | missing
  | unreadable
  deriving DecidableEq, Repr

/-- A file holds a text, or bytes that are no text in UTF-8. -/
inductive Entry where
  | text (content : String)
  | bytes (content : ByteArray)
  | directory

def Entry.content : Entry → Except ReadFailure String
  | .text content => .ok content
  | .bytes _ | .directory => .error .unreadable

structure Disk where
  entries : List (List String × Entry) := []
  /-- Places that cannot be opened for reading. -/
  unreadable : List (List String) := []
  /-- Places that cannot be opened for writing. -/
  unwritable : List (List String) := []
  /-- Places that hold so many bytes at most. -/
  room : List (List String × Nat) := []

namespace Disk

/-- The steps of a name. Empty steps and single dots stay where they are, and a slash in front begins at
the root. -/
def steps (name : String) : List String :=
  let pieces := (Text.split '/' name.toList).filter fun piece => piece ≠ [] ∧ piece ≠ ['.']
  (if name.toList.head? = some '/' then ["/"] else []) ++ pieces.map String.ofList

/-- Where a step leads. Two dots lead back, also out of the working directory but not out of the root. -/
def enter (place : List String) (step : String) : List String :=
  if step ≠ ".." then place ++ [step]
  else if place = ["/"] then place
  else if place.all (· = "..") then place ++ [step]
  else place.dropLast

def placeOf (steps : List String) : List String := steps.foldl enter []

/-- A name that ends in a slash or in dots alone names a directory. -/
def namesDirectory (name : String) : Bool :=
  match (Text.split '/' name.toList).getLast? with
  | some piece => piece ∈ [[], ['.'], ['.', '.']]
  | none => true

/-- A name has no null character, and fewer than 4096 bytes. -/
def isName (name : String) : Bool := !name.toList.contains '\x00' && name.utf8ByteSize < 4096

/-- No step has more than 255 bytes. -/
def isStep (step : String) : Bool := step.utf8ByteSize ≤ 255

def lookup? (d : Disk) (place : List String) : Option Entry :=
  if place = ["/"] ∨ place.all (· = "..") then some .directory else d.entries.lookup place

/-- The place where the steps lead. Every place on the way must be a directory, and a step is looked at only
when it is reached. -/
def follow (d : Disk) (place : List String) : List String → Except ReadFailure (List String)
  | [] => .ok place
  | step :: rest =>
    match d.lookup? place with
    | none => .error .missing
    | some .directory => if isStep step then d.follow (enter place step) rest else .error .unreadable
    | some _ => .error .unreadable

def locate (d : Disk) (name : String) : Except ReadFailure (List String) :=
  if name.isEmpty then .error .missing
  else if isName name then d.follow [] (steps name)
  else .error .unreadable

/-- The text that a file holds, whether or not it can be read. -/
def content (d : Disk) (name : String) : Except ReadFailure String :=
  match d.locate name with
  | .error e => .error e
  | .ok place =>
    match d.lookup? place with
    | none => .error .missing
    | some e => if namesDirectory name then .error .unreadable else e.content

def hides (d : Disk) (name : String) : Bool := (d.locate name).toOption.any d.unreadable.contains

/-- The text of a file. -/
def read (d : Disk) (name : String) : Except ReadFailure String :=
  if d.hides name then .error .unreadable else d.content name

def set (d : Disk) (place : List String) (e : Entry) : Disk :=
  { d with entries := (place, e) :: d.entries.filter fun entry => entry.1 ≠ place }

/-- The place of a file that can be opened for writing, be it there already or not. A directory is no file. -/
def target? (d : Disk) (name : String) : Option (List String) :=
  match d.locate name with
  | .error _ => none
  | .ok place =>
    if namesDirectory name || d.unwritable.contains place then none
    else
      match d.lookup? place with
      | some .directory => none
      | _ => some place

def hasRoom (d : Disk) (place : List String) (content : String) : Bool :=
  (d.room.lookup place).all (content.utf8ByteSize ≤ ·)

/-- Replaces the whole content of a file. -/
def write? (d : Disk) (name : String) (content : String) : Option Disk :=
  match d.target? name with
  | none => none
  | some place => if d.hasRoom place content then some (d.set place (.text content)) else none

/-- The first bytes of a text, which are no text if they end inside a character. -/
def cutOff (bytes : Nat) (content : String) : Entry :=
  match Text.takeBytes? bytes content.toList with
  | some front => .text (String.ofList front)
  | none => .bytes (content.toUTF8.extract 0 bytes)

/-- The disk after writing has failed. Opening a file for writing empties it, and it then takes what there is
room for; a file that cannot be opened stays as it was. -/
def afterFailure (d : Disk) (name : String) (content : String) : Disk :=
  match d.target? name with
  | none => d
  | some place =>
    match d.room.lookup place with
    | none => d
    | some bytes => d.set place (cutOff bytes content)

/-- Puts an entry where the steps lead, with a directory everywhere on the way. -/
def install (d : Disk) (steps : List String) (e : Entry) : Disk :=
  ((List.range steps.length).foldl (fun d n => d.set (placeOf (steps.take n)) .directory) d).set
    (placeOf steps) e

def refuseReading (d : Disk) (name : String) : Disk := { d with unreadable := placeOf (steps name) :: d.unreadable }

def refuseWriting (d : Disk) (name : String) : Disk := { d with unwritable := placeOf (steps name) :: d.unwritable }

def erase (d : Disk) (place : List String) : Disk :=
  { d with entries := d.entries.filter fun entry => entry.1 ≠ place }

end Disk

end Criterion
