import Criterion.Text.Alphanumeric

/-! Regular expressions as texts. What is an atom of a pattern depends on two of its flags: in Unicode mode
classes and word boundaries are those of Unicode, otherwise they are those of ASCII and must not reach
beyond it; and white space may stand for nothing. Counted repetitions and names in braces are left out,
because the texts that are read as patterns have been cut at closing braces. -/
namespace Criterion.Pattern

structure Mode where
  unicode : Bool := true
  spaced : Bool := false
  deriving DecidableEq, Repr

/-- A character that stands for itself, a class of characters, or a place between two of them. -/
inductive Atom where
  | literal (c : Char)
  | set
  | position
  deriving DecidableEq, Repr

/-- Passes white space and comments. A comment begins with a number sign and ends with its line. -/
def passSpace (inComment : Bool) : List Char → List Char
  | [] => []
  | c :: cs =>
    if inComment then passSpace (c ≠ '\n') cs
    else if c = '#' then passSpace true cs
    else if Text.isWhite c then passSpace false cs
    else c :: cs

/-- The text from the next character that counts. -/
def Mode.pass (m : Mode) (cs : List Char) : List Char := if m.spaced then passSpace false cs else cs

/-- The number that `n` hexadecimal digits write after the digits of `value`, and the rest. -/
def hexNumber? (m : Mode) : Nat → Nat → List Char → Option (Nat × List Char)
  | 0, value, cs => some (value, cs)
  | n + 1, value, cs =>
    match m.pass cs with
    | [] => none
    | c :: rest => do hexNumber? m n (value * 16 + (← Text.hexValue? c)) rest

/-- The characters that an escape with a letter stands for. -/
def control? : Char → Option Char
  | 'a' => some '\x07'
  | 'f' => some '\x0c'
  | 'n' => some '\n'
  | 'r' => some '\r'
  | 't' => some '\t'
  | 'v' => some '\x0b'
  | _ => none

/-- The general categories of one letter. -/
def isCategory (c : Char) : Bool := "clmnpsz".toList.contains c.toLower

/-- The atom after a backslash, and the rest. A word boundary of Unicode is not supported. Outside Unicode mode
a class must not be the complement of another, and a character of two digits must be ASCII. -/
def escape? (m : Mode) : List Char → Option (Atom × List Char)
  | [] => none
  | c :: cs =>
    match Text.hexLength? c, control? c with
    | some length, _ => do
      let (value, rest) ← hexNumber? m length 0 cs
      if value.isValidChar && (m.unicode || c ≠ 'x' || value < 128) then some (.literal (Char.ofNat value), rest)
      else none
    | none, some control => some (.literal control, cs)
    | none, none =>
      if c = 'p' || c = 'P' then
        match m.pass cs with
        | category :: rest => if m.unicode && isCategory category then some (.set, rest) else none
        | [] => none
      else if c = 'd' || c = 's' || c = 'w' then some (.set, cs)
      else if c = 'D' || c = 'S' || c = 'W' then if m.unicode then some (.set, cs) else none
      else if c = 'A' || c = 'z' then some (.position, cs)
      else if c = 'b' || c = 'B' || c = '<' || c = '>' then if m.unicode then none else some (.position, cs)
      else if c.toNat < 128 && !c.isAlphanum then some (.literal c, cs)
      else none

/-- How deep parts of the given depths nest when they stand side by side. -/
def joined : List Nat → Nat
  | [] => 0
  | [depth] => depth
  | depths => depths.foldl max 0 + 1

end Criterion.Pattern
