import Criterion.Text
import Criterion.Yaml.Cursor

/-! Plain and quoted scalars. Line ends inside a scalar fold: one line end is a space, more are the line
ends after the first. -/
namespace Criterion.Yaml

/-- The white space between two words of a scalar. Once a line has ended, blanks do not count. -/
structure Gap where
  blanks : List Char := []
  folded : Bool := false
  first : Option Char := none
  more : List Char := []
  deriving Repr

namespace Gap

def add (g : Gap) (c : Char) : Gap :=
  if isBreak c then
    if g.folded then { g with more := g.more ++ [c] } else { folded := true, first := some c }
  else if g.folded then g
  else { g with blanks := g.blanks ++ [c] }

/-- What a gap contributes to the scalar. -/
def text (g : Gap) : List Char :=
  if !g.folded then g.blanks
  else if g.first = some '\n' then (if g.more.isEmpty then [' '] else g.more)
  else g.first.toList ++ g.more

end Gap

/-- The white space from here on. A tab that stands left of column `indent` on a line of its own is
refused. -/
def gapFrom (indent : Nat) : Nat → Cursor → Gap → Option (Cursor × Gap)
  | 0, c, g => some (c, g)
  | fuel + 1, c, g =>
    match c.rest with
    | ch :: _ =>
      if isBlank ch || isBreak ch then
        if g.folded && ch = '\t' && c.column < indent then none else gapFrom indent fuel c.next (g.add ch)
      else some (c, g)
    | [] => some (c, g)

def isFlowIndicator (c : Char) : Bool := c = ',' || c = '[' || c = ']' || c = '{' || c = '}'

/-- The word of a plain scalar at the front of a text. A colon ends it where white space follows. -/
def plainWord (flow : Bool) : List Char → Option (List Char)
  | [] => some []
  | c :: cs =>
    let next := cs.headD ' '
    if isBlank c || isBreak c then some []
    else if flow && c = ':' && (isFlowIndicator next || next = '?') then none
    else if c = ':' && (isBlank next || isBreak next) then some []
    else if flow && isFlowIndicator c then some []
    else (plainWord flow cs).map (c :: ·)

/-- A plain scalar whose text so far is `done`: its text, where it ends, and whether a line ended there. -/
def plain (flow : Bool) (indent : Nat) : Nat → Cursor → Gap → List Char → Option (List Char × Cursor × Bool)
  | 0, _, _, _ => none
  | fuel + 1, c, gap, done =>
    if c.atDocumentMark || c.startsWith ['#'] then some (done, c, gap.folded)
    else do
      let word ← plainWord flow c.rest
      let after := c.skip word.length
      let done := if word.isEmpty then done else done ++ gap.text ++ word
      let gap := if word.isEmpty then gap else {}
      if after.rest.isEmpty || !after.spaceAt 0 then return (done, after, gap.folded)
      let (after, gap) ← gapFrom indent (after.rest.length + 1) after gap
      if !flow && after.column < indent then return (done, after, gap.folded)
      plain flow indent fuel after gap done

def simpleEscape? : Char → Option Char
  | '0' => some '\x00'
  | 'a' => some '\x07'
  | 'b' => some '\x08'
  | 't' | '\t' => some '\t'
  | 'n' => some '\n'
  | 'v' => some '\x0b'
  | 'f' => some '\x0c'
  | 'r' => some '\r'
  | 'e' => some '\x1b'
  | ' ' => some ' '
  | '"' => some '"'
  | '/' => some '/'
  | '\\' => some '\\'
  | 'N' => some '\x85'
  | '_' => some '\xa0'
  | 'L' => some '\u2028'
  | 'P' => some '\u2029'
  | _ => none

/-- The number written in the digits of a base. -/
def numberIn? (base : Nat) (cs : List Char) : Option Nat :=
  cs.foldlM (fun n c => (Text.hexValue? c).bind fun d => if d < base then some (n * base + d) else none) 0

/-- The character that an escape after a backslash stands for, and the length of the escape. -/
def escape? : List Char → Option (Char × Nat)
  | c :: cs =>
    match Text.hexLength? c with
    | some length => do
      let digits := cs.take length
      let n ← numberIn? 16 digits
      if digits.length = length && n.isValidChar then some (Char.ofNat n, length + 1) else none
    | none => (simpleEscape? c).map fun e => (e, 1)
  | [] => none

/-- The rest of a quoted scalar through its closing quote. A quote between single quotes is doubled;
between double quotes there are escapes, and an escaped line end is no white space. -/
def quoted (double : Bool) : Nat → Cursor → Gap → List Char → Option (List Char × Cursor)
  | 0, _, _, _ => none
  | fuel + 1, c, gap, done =>
    if c.atDocumentMark then none
    else
      match c.rest with
      | [] => none
      | ch :: cs =>
        if isBlank ch || isBreak ch then quoted double fuel c.next (gap.add ch) done
        else
          let done := done ++ gap.text
          if ch = (if double then '"' else '\'') then
            if !double && cs.head? = some '\'' then quoted double fuel (c.skip 2) {} (done ++ ['\''])
            else some (done, c.next)
          else if double && ch = '\\' then
            match cs with
            | [] => none
            | e :: _ =>
              if isBreak e then quoted double fuel c.next.next { folded := true } done
              else
                match escape? cs with
                | some (value, length) => quoted double fuel (c.skip (length + 1)) {} (done ++ [value])
                | none => none
          else quoted double fuel c.next {} (done ++ [ch])

end Criterion.Yaml
