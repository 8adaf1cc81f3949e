import Criterion.Yaml.Scalar

/-! YAML text as tokens that show its layout: where blocks begin and end by indentation, and which
scalars are keys. Whether a scalar is a key is known only at the colon after it, so the tokens for a key
are put in front of it then. Anchors, aliases, tags, block scalars and directives are refused, although YAML
has them. -/
namespace Criterion.Yaml

inductive Token where
  | documentStart | documentEnd
  | blockSequence | blockMapping | blockEnd
  | flowSequence | flowSequenceEnd
  | flowMapping | flowMappingEnd
  | blockEntry | flowEntry
  | key | value
  | scalar (isPlain : Bool) (text : String)
  deriving DecidableEq, Repr

/-- A place where a key may have begun: what precedes it and where it stands. A required key is one that
nothing else could be. -/
structure Candidate where
  before : Nat
  line : Nat
  column : Nat
  index : Nat
  required : Bool
  deriving Repr

/-- `indents` holds the columns of the open blocks, innermost first, and `candidates` one entry for the
block level and each open flow collection. -/
structure Layout where
  cursor : Cursor
  indents : List Nat := []
  candidates : List (Option Candidate) := [none]
  keyAllowed : Bool := true
  latest : List Token := []
  deriving Repr

namespace Layout

def inFlow (s : Layout) : Bool := 1 < s.candidates.length

def emit (s : Layout) (t : Token) : Layout := { s with latest := t :: s.latest }

/-- Puts a token after the first `n` ones. -/
def emitAt (s : Layout) (n : Nat) (t : Token) : Layout :=
  let after := s.latest.length - n
  { s with latest := s.latest.take after ++ t :: s.latest.drop after }

/-- Is the column to the right of the innermost block? -/
def isDeeper (s : Layout) (column : Nat) : Bool :=
  match s.indents with
  | [] => true
  | indent :: _ => indent < column

/-- Begins a block at a column to the right of the innermost one. -/
def openBlock (s : Layout) (column before : Nat) (t : Token) : Layout :=
  if !s.inFlow && s.isDeeper column then { s.emitAt before t with indents := column :: s.indents } else s

/-- Ends the blocks to the right of a column. -/
def closeBlocks (s : Layout) (column : Nat) : Layout :=
  if s.inFlow then s
  else
    let inner := s.indents.takeWhile fun indent => column < indent
    { s with
      indents := s.indents.drop inner.length
      latest := List.replicate inner.length .blockEnd ++ s.latest }

def closeAllBlocks (s : Layout) : Layout :=
  if s.inFlow then s
  else { s with indents := [], latest := List.replicate s.indents.length .blockEnd ++ s.latest }

/-- Gives up the current candidate, which must not have been a required key. -/
def dropCandidate (s : Layout) : Option Layout :=
  match s.candidates with
  | some k :: outer => if k.required then none else some { s with candidates := none :: outer }
  | _ => some s

/-- What begins here may turn out to be a key. -/
def noteCandidate (s : Layout) : Option Layout :=
  if s.keyAllowed then do
    let s ← s.dropCandidate
    let k : Candidate :=
      { before := s.latest.length, line := s.cursor.line, column := s.cursor.column, index := s.cursor.index,
        required := !s.inFlow && s.indents.head? = some s.cursor.column }
    return { s with candidates := some k :: s.candidates.drop 1 }
  else some s

/-- A key ends on the line it began on and is at most 1024 characters long. -/
def isStale (c : Cursor) (k : Candidate) : Bool := k.line < c.line || k.index + 1024 < c.index

def dropStale (s : Layout) : Option Layout :=
  if s.candidates.any fun k => k.any fun k => isStale s.cursor k && k.required then none
  else some { s with candidates := s.candidates.map fun k => k.filter fun k => !isStale s.cursor k }

/-- Passes white space, comments and line ends, and a byte order mark at the start of a line. A line end
outside flow collections lets a key begin, and where a key may begin a tab is not passed. -/
def skipSpace : Nat → Layout → Layout
  | 0, s => s
  | fuel + 1, s =>
    match s.cursor.rest with
    | [] => s
    | c :: cs =>
      if c = ' ' || (c = '\t' && (s.inFlow || !s.keyAllowed)) || (isByteOrderMark c && s.cursor.column = 0) then
        skipSpace fuel { s with cursor := s.cursor.next }
      else if c = '#' then
        skipSpace fuel { s with cursor := s.cursor.skip (cs.takeWhile fun c => !isBreak c).length.succ }
      else if isBreak c then
        skipSpace fuel { s with cursor := s.cursor.next, keyAllowed := s.keyAllowed || !s.inFlow }
      else s

def documentMark (s : Layout) (t : Token) : Option Layout := do
  let s ← s.closeAllBlocks.dropCandidate
  return { s with keyAllowed := false, cursor := s.cursor.skip 3 }.emit t

def openFlow (s : Layout) (t : Token) : Option Layout := do
  let s ← s.noteCandidate
  return { s with candidates := none :: s.candidates, keyAllowed := true, cursor := s.cursor.next }.emit t

def closeFlow (s : Layout) (t : Token) : Option Layout := do
  let s ← s.dropCandidate
  let outer := if s.inFlow then s.candidates.drop 1 else s.candidates
  return { s with candidates := outer, keyAllowed := false, cursor := s.cursor.next }.emit t

def flowEntry (s : Layout) : Option Layout := do
  let s ← s.dropCandidate
  return { s with keyAllowed := true, cursor := s.cursor.next }.emit .flowEntry

/-- Begins a block here if one can begin. -/
def beginHere (s : Layout) (t : Token) : Option Layout :=
  if s.inFlow then some s
  else if s.keyAllowed then some (s.openBlock s.cursor.column s.latest.length t)
  else none

def blockEntry (s : Layout) : Option Layout := do
  let s ← (← s.beginHere .blockSequence).dropCandidate
  return { s with keyAllowed := true, cursor := s.cursor.next }.emit .blockEntry

def explicitKey (s : Layout) : Option Layout := do
  let s ← (← s.beginHere .blockMapping).dropCandidate
  return { s with keyAllowed := !s.inFlow, cursor := s.cursor.next }.emit .key

def value (s : Layout) : Option Layout :=
  match s.candidates with
  | some k :: outer =>
    let s := (s.emitAt k.before .key).openBlock k.column k.before .blockMapping
    some ({ s with candidates := none :: outer, keyAllowed := false, cursor := s.cursor.next }.emit .value)
  | _ => do
    let s ← s.beginHere .blockMapping
    return { s with keyAllowed := !s.inFlow, cursor := s.cursor.next }.emit .value

def quotedScalar (s : Layout) (double : Bool) : Option Layout := do
  let s ← s.noteCandidate
  let (text, cursor) ← quoted double (s.cursor.rest.length + 1) s.cursor.next {} []
  return { s with keyAllowed := false, cursor := cursor }.emit (.scalar false (String.ofList text))

def plainScalar (s : Layout) : Option Layout := do
  let s ← s.noteCandidate
  let indent := match s.indents with
    | [] => 0
    | indent :: _ => indent + 1
  let (text, cursor, folded) ← plain s.inFlow indent (s.cursor.rest.length + 1) s.cursor {} []
  return { s with keyAllowed := folded, cursor := cursor }.emit (.scalar true (String.ofList text))

/-- The characters that begin something other than a plain scalar. -/
def isIndicator (c : Char) : Bool := "-?:,[]\x7b\x7d#&*!|>'\"%@`".toList.contains c

def beginsPlain (s : Layout) (c : Char) (cs : List Char) : Bool :=
  !(isIndicator c || isBlank c) || (c = '-' && !(cs.head?.any isBlank)) ||
    (!s.inFlow && (c = '?' || c = ':') && !s.cursor.spaceAt 1)

/-- The token that begins with `c`. -/
def token (s : Layout) (c : Char) (cs : List Char) : Option Layout :=
  if s.cursor.atDocumentMark then s.documentMark (if c = '-' then .documentStart else .documentEnd)
  else if c = '[' then s.openFlow .flowSequence
  else if c = '{' then s.openFlow .flowMapping
  else if c = ']' then s.closeFlow .flowSequenceEnd
  else if c = '}' then s.closeFlow .flowMappingEnd
  else if c = ',' then s.flowEntry
  else if c = '-' && s.cursor.spaceAt 1 then s.blockEntry
  else if c = '?' && (s.inFlow || s.cursor.spaceAt 1) then s.explicitKey
  else if c = ':' && (s.inFlow || s.cursor.spaceAt 1) then s.value
  else if c = '"' then s.quotedScalar true
  else if c = '\'' then s.quotedScalar false
  else if s.beginsPlain c cs then s.plainScalar
  else none

def run : Nat → Layout → Option (List Token)
  | 0, _ => none
  | fuel + 1, s => do
    let s ← (skipSpace (s.cursor.rest.length + 1) s).dropStale
    match s.cursor.rest with
    | [] =>
      let s ← s.closeAllBlocks.dropCandidate
      return s.latest.reverse
    | c :: cs =>
      let s ← (s.closeBlocks s.cursor.column).token c cs
      run fuel s

end Layout

/-- The tokens of a text. Each takes at least one character. -/
def tokens? (text : String) : Option (List Token) := do
  let cs ← prepare text.toList
  Layout.run (cs.length + 1) { cursor := { rest := cs } }

end Criterion.Yaml
