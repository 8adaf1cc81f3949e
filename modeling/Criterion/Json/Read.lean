import Criterion.Json.Lexeme

/-! Reading JSON text in one pass. The state holds the arrays and objects that are still open, so the
nesting of a text is the length of that stack, and a limit on nesting is a limit on the stack. -/
namespace Criterion.Json

/-- An open array with the items before the one that is read, or an open object with the members before
and the key whose value is read; both the latest first. -/
inductive Frame where
  | item (before : List Json)
  | member (before : List (String × Json)) (key : String)
  deriving Repr

/-- What may come next inside the open containers. -/
inductive State where
  | value (frames : List Frame)
  | firstItem (frames : List Frame)
  | firstKey (frames : List Frame)
  | key (before : List (String × Json)) (frames : List Frame)
  | colon (before : List (String × Json)) (key : String) (frames : List Frame)
  | afterItem (items : List Json) (frames : List Frame)
  | afterMember (members : List (String × Json)) (frames : List Frame)
  deriving Repr

inductive Progress where
  | more (state : State)
  | done (v : Json)
  deriving Repr

/-- The value `v` has been read in full. -/
def complete (v : Json) : List Frame → Progress
  | [] => .done v
  | .item before :: rest => .more (.afterItem (v :: before) rest)
  | .member before key :: rest => .more (.afterMember ((key, v) :: before) rest)

/-- May one more container be opened? -/
def withinLimit (limit : Option Nat) (frames : List Frame) : Bool :=
  match limit with
  | none => true
  | some most => frames.length < most

/-- A lexeme that must begin a value. -/
def beginValue (limit : Option Nat) (frames : List Frame) : Lexeme → Option Progress
  | .null => some (complete .null frames)
  | .bool b => some (complete (.bool b) frames)
  | .number n => some (complete (.number n) frames)
  | .string s => some (complete (.string s) frames)
  | .leftBracket => if withinLimit limit frames then some (.more (.firstItem frames)) else none
  | .leftBrace => if withinLimit limit frames then some (.more (.firstKey frames)) else none
  | _ => none

def step (limit : Option Nat) : State → Lexeme → Option Progress
  | .value frames, l => beginValue limit frames l
  | .firstItem frames, .rightBracket => some (complete (.array []) frames)
  | .firstItem frames, l => beginValue limit (.item [] :: frames) l
  | .firstKey frames, .rightBrace => some (complete (.object []) frames)
  | .firstKey frames, .string key => some (.more (.colon [] key frames))
  | .key before frames, .string key => some (.more (.colon before key frames))
  | .colon before key frames, .colon => some (.more (.value (.member before key :: frames)))
  | .afterItem items frames, .comma => some (.more (.value (.item items :: frames)))
  | .afterItem items frames, .rightBracket => some (complete (.array items.reverse) frames)
  | .afterMember members frames, .comma => some (.more (.key members frames))
  | .afterMember members frames, .rightBrace => some (complete (.object members.reverse) frames)
  | _, _ => none

/-- Reads one value and gives it with the text after it. The next `skip` characters belong to the
lexeme before. -/
def readFrom (limit : Option Nat) : State → Nat → List Char → Option (Json × List Char)
  | _, _, [] => none
  | state, skip + 1, _ :: cs => readFrom limit state skip cs
  | state, 0, c :: cs =>
    if isBlank c then readFrom limit state 0 cs
    else
      match scan? (c :: cs) with
      | none => none
      | some (lexeme, length) =>
        match step limit state lexeme with
        | none => none
        | some (.more next) => readFrom limit next (length - 1) cs
        | some (.done v) => some (v, (c :: cs).drop length)

/-- The first value of a text and the characters that follow it. -/
def readFirst (limit : Option Nat) (text : String) : Option (Json × List Char) :=
  readFrom limit (.value []) 0 text.toList

/-- Reads a text that holds one value and blanks. -/
def read? (limit : Option Nat) (text : String) : Option Json :=
  match readFirst limit text with
  | some (v, rest) => if rest.all isBlank then some v else none
  | none => none

/-- How deep documents may nest. -/
def nestingLimit : Nat := 127

/-- A document to look values up in: repeated keys settled and members in order. -/
def document? (text : String) : Option Json := (read? (some nestingLimit) text).map canonical

end Criterion.Json
