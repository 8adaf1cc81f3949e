/-! Places in a YAML text. The text is prepared so that every line ends with one character. -/
namespace Criterion.Yaml

/-- The characters that may occur in a text at all. -/
def isPrintable (c : Char) : Bool :=
  c = '\t' || c = '\n' || c = '\r' || c = '\x85' ||
    (' ' ≤ c && c ≤ '~') || ('\xa0' ≤ c && c ≠ '\ufffe' && c ≠ '\uffff')

/-- Writes every line end as a line feed, two of which are one when the first is a carriage return. -/
def unifyBreaks : List Char → List Char
  | '\r' :: '\n' :: cs => '\n' :: unifyBreaks cs
  | '\r' :: cs => '\n' :: unifyBreaks cs
  | '\x85' :: cs => '\n' :: unifyBreaks cs
  | c :: cs => c :: unifyBreaks cs
  | [] => []

/-- The text with its line ends unified. A text with any other character is none. -/
def prepare (cs : List Char) : Option (List Char) := if cs.all isPrintable then some (unifyBreaks cs) else none

def isBlank (c : Char) : Bool := c = ' ' || c = '\t'

def isByteOrderMark (c : Char) : Bool := c = '\ufeff'

def isBreak (c : Char) : Bool := c = '\n' || c = '\u2028' || c = '\u2029'

structure Cursor where
  rest : List Char
  line : Nat := 0
  column : Nat := 0
  index : Nat := 0
  deriving Repr

namespace Cursor

def next (c : Cursor) : Cursor :=
  match c.rest with
  | [] => c
  | ch :: rest =>
    if isBreak ch then ⟨rest, c.line + 1, 0, c.index + 1⟩ else ⟨rest, c.line, c.column + 1, c.index + 1⟩

/-- Passes `n` characters of the same line. -/
def skip (c : Cursor) (n : Nat) : Cursor := ⟨c.rest.drop n, c.line, c.column + n, c.index + n⟩

/-- Says whether the text goes on with a blank, a line end or not at all after `n` characters. -/
def spaceAt (c : Cursor) (n : Nat) : Bool :=
  match c.rest.drop n with
  | [] => true
  | ch :: _ => isBlank ch || isBreak ch

def startsWith (c : Cursor) (mark : List Char) : Bool := c.rest.take mark.length = mark

/-- Says whether a line here marks the start or the end of a document. -/
def atDocumentMark (c : Cursor) : Bool :=
  c.column = 0 && (c.startsWith ['-', '-', '-'] || c.startsWith ['.', '.', '.']) && c.spaceAt 3

end Cursor

end Criterion.Yaml
