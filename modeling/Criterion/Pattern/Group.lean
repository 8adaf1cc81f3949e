import Criterion.Pattern.Bracket

/-! Groups, alternatives and repetitions, and with them whole patterns. -/
namespace Criterion.Pattern

/-- An open group: the mode that holds after it, the depths of what its current branch holds, latest first,
and the depths of the branches before. A change of flags is an item without a depth; it cannot be repeated. -/
structure Group where
  after : Mode
  items : List (Option Nat) := []
  branches : List Nat := []
  deriving Repr

namespace Group

def branchDepth (g : Group) : Nat := joined (g.items.map fun depth => depth.getD 0)

def depth (g : Group) : Nat := joined (g.branchDepth :: g.branches)

def add (g : Group) (depth : Nat) : Group := { g with items := some depth :: g.items }

def endBranch (g : Group) : Group := { g with items := [], branches := g.branchDepth :: g.branches }

/-- Repeats the latest item. -/
def repeat? (g : Group) : Option Group :=
  match g.items with
  | some depth :: items => some { g with items := some (depth + 1) :: items }
  | _ => none

end Group

/-- A place in a pattern, with the names that its groups have so far. -/
structure Reader where
  rest : List Char
  mode : Mode := {}
  names : List (List Char) := []
  group : Group := { after := {} }
  outer : List Group := []
  deriving Repr

namespace Reader

def add (r : Reader) (depth : Nat) (rest : List Char) : Reader := { r with group := r.group.add depth, rest := rest }

def openGroup (r : Reader) (mode : Mode) (rest : List Char) : Reader :=
  { r with mode := mode, group := { after := r.mode }, outer := r.group :: r.outer, rest := rest }

def closeGroup (r : Reader) (rest : List Char) : Option Reader :=
  match r.outer with
  | [] => none
  | next :: outer =>
    some { r with mode := r.group.after, group := next.add (r.group.depth + 1), outer := outer, rest := rest }

def isName : List Char → Bool
  | [] => false
  | c :: cs =>
    (c = '_' || Text.isAlphabetic c) &&
      cs.all fun c => c = '_' || c = '.' || c = '[' || c = ']' || Text.isAlphanumeric c

/-- A group whose name begins here. No two groups have one name. -/
def namedGroup (r : Reader) (cs : List Char) : Option Reader :=
  let name := cs.takeWhile (· ≠ '>')
  match cs.drop name.length with
  | [] => none
  | _ :: rest =>
    if isName name && !r.names.contains name then some { r.openGroup r.mode rest with names := name :: r.names }
    else none

/-- Flags are letters, each at most once; those after a hyphen are switched off. -/
def areFlags (flags : List Char) : Bool :=
  flags.all "imsUuRx-".toList.contains && flags.Nodup && flags.getLast? ≠ some '-'

def switched (flags : List Char) (flag : Char) (before : Bool) : Bool :=
  if flags.contains flag then (flags.takeWhile (· ≠ '-')).contains flag else before

/-- Flags for a group that begins with them, or for the rest of the group they stand in. -/
def flagged (r : Reader) (cs : List Char) : Option Reader :=
  let flags := cs.takeWhile fun c => c ≠ ':' && c ≠ ')'
  let mode : Mode := ⟨switched flags 'u' r.mode.unicode, switched flags 'x' r.mode.spaced⟩
  match cs.drop flags.length with
  | [] => none
  | c :: rest =>
    if !areFlags flags then none
    else if c = ':' then some (r.openGroup mode rest)
    else if flags.isEmpty then none
    else some { r with mode := mode, group := { r.group with items := none :: r.group.items }, rest := rest }

def beginGroup (r : Reader) (cs : List Char) : Option Reader :=
  match r.mode.pass cs with
  | '?' :: 'P' :: '<' :: rest => r.namedGroup rest
  | '?' :: '<' :: rest => r.namedGroup rest
  | '?' :: rest => r.flagged rest
  | rest => some (r.openGroup r.mode rest)

/-- Repeats what stands before. Another question mark makes the repetition lazy. -/
def repetition (r : Reader) (cs : List Char) : Option Reader := do
  let group ← r.group.repeat?
  return { r with group := group, rest := if cs.head? = some '?' then cs.drop 1 else cs }

def step (r : Reader) (c : Char) (cs : List Char) : Option Reader :=
  if c = '(' then r.beginGroup cs
  else if c = ')' then r.closeGroup cs
  else if c = '|' then some { r with group := r.group.endBranch, rest := cs }
  else if c = '[' then do
    let (depth, rest) ← class? r.mode cs
    return r.add depth rest
  else if c = '?' || c = '*' || c = '+' then r.repetition cs
  else if c = '{' then none
  else if c = '.' then if r.mode.unicode then some (r.add 0 cs) else none
  else if c = '\\' then do
    let (_, rest) ← escape? r.mode cs
    return r.add 0 rest
  else some (r.add 0 cs)

/-- Every group must end, and a pattern nests at most 250 deep. -/
def isComplete (r : Reader) : Bool := r.outer.isEmpty && r.group.depth ≤ 250

def accepts : Nat → Reader → Bool
  | 0, _ => false
  | fuel + 1, r =>
    match r.mode.pass r.rest with
    | [] => r.isComplete
    | c :: cs =>
      match r.step c cs with
      | some r => accepts fuel r
      | none => false

end Reader

/-- Says whether a text is a pattern. Each step takes at least one character. -/
def isPattern (cs : List Char) : Bool := Reader.accepts (cs.length + 1) { rest := cs }

end Criterion.Pattern
