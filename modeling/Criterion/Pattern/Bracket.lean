import Criterion.Pattern

/-! Classes in brackets: characters, ranges, escapes, named classes and further brackets, combined by
`&&`, `--` and `~~`. -/
namespace Criterion.Pattern

/-- An open bracket: the depths of what its current operand holds, latest first, and the depth of the
operands before it. At its beginning hyphens and a closing bracket stand for themselves. -/
structure Bracket where
  items : List Nat := []
  left : Option Nat := none
  fresh : Bool := true
  deriving Repr

namespace Bracket

def depth (b : Bracket) : Nat :=
  match b.left with
  | none => joined b.items
  | some depth => max depth (joined b.items) + 1

def add (b : Bracket) (depth : Nat) : Bracket := { b with items := depth :: b.items, fresh := false }

/-- Ends an operand at an operator. -/
def operator (b : Bracket) : Bracket := { left := some b.depth, fresh := false }

end Bracket

def classNames : List String :=
  ["alnum", "alpha", "ascii", "blank", "cntrl", "digit", "graph", "lower", "print", "punct", "space", "upper",
    "word", "xdigit"]

/-- A named class after its opening bracket: whether it is a complement, and the rest. -/
def namedClass? : List Char → Option (Bool × List Char)
  | ':' :: cs =>
    let negated := cs.head? = some '^'
    let body := if negated then cs.drop 1 else cs
    let name := body.takeWhile (· ≠ ':')
    let rest := body.drop name.length
    if classNames.contains (String.ofList name) && rest.take 2 = [':', ']'] then some (negated, rest.drop 2) else none
  | _ => none

/-- A bracket after its opening mark. -/
def opened? (m : Mode) (cs : List Char) : Option (Bracket × List Char) :=
  match m.pass cs with
  | '^' :: rest => if m.unicode then some ({}, rest) else none
  | rest => some ({}, rest)

/-- One end of a range, or an item by itself. -/
def member? (m : Mode) : List Char → Option (Atom × List Char)
  | [] => none
  | c :: cs => do
    let (atom, rest) ← if c = '\\' then escape? m cs else some (.literal c, cs)
    match atom with
    | .literal c => if m.unicode || c.toNat < 128 then some (atom, rest) else none
    | .set => some (atom, rest)
    | .position => none

/-- The character after a hyphen, which tells whether the hyphen makes a range. -/
def afterHyphen (m : Mode) (cs : List Char) : Option Char :=
  if m.spaced then
    match cs.dropWhile Text.isWhite with
    | '#' :: rest => (rest.dropWhile Text.isWhite).head?
    | rest => rest.head?
  else cs.head?

/-- Passes an item or a range, both of whose ends must be characters in order. -/
def range? (m : Mode) (cs : List Char) : Option (List Char) := do
  let (first, rest) ← member? m cs
  let rest := m.pass rest
  match rest with
  | '-' :: more =>
    if afterHyphen m more = some ']' || afterHyphen m more = some '-' then return rest
    else
      let (last, rest) ← member? m (m.pass more)
      match first, last with
      | .literal a, .literal b => if a ≤ b then some rest else none
      | _, _ => none
  | _ => return rest

/-- Passes a class whose open brackets are given, innermost first, and gives its depth. -/
def bracket? (m : Mode) : Nat → Bracket → List Bracket → List Char → Option (Nat × List Char)
  | 0, _, _, _ => none
  | fuel + 1, b, outer, cs =>
    match m.pass cs with
    | [] => none
    | c :: rest =>
      if b.fresh && (c = '-' || (c = ']' && b.items.isEmpty)) then
        bracket? m fuel { b.add 0 with fresh := c = '-' } outer rest
      else if c = '[' then
        match namedClass? rest with
        | some (negated, rest) => if negated && !m.unicode then none else bracket? m fuel (b.add 0) outer rest
        | none => do
          let (inner, rest) ← opened? m rest
          bracket? m fuel inner (b :: outer) rest
      else if c = ']' then
        match outer with
        | [] => some (b.depth + 1, rest)
        | next :: outer => bracket? m fuel (next.add (b.depth + 1)) outer rest
      else if (c = '&' || c = '-' || c = '~') && rest.head? = some c then
        bracket? m fuel b.operator outer (rest.drop 1)
      else do
        let rest ← range? m (c :: rest)
        bracket? m fuel (b.add 0) outer rest

/-- Passes a class after its first opening bracket. -/
def class? (m : Mode) (cs : List Char) : Option (Nat × List Char) := do
  let (b, rest) ← opened? m cs
  bracket? m (rest.length + 1) b [] rest

end Criterion.Pattern
