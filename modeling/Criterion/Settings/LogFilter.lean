import Criterion.Numeral
import Criterion.Pattern.Group

/-! Log filters: directives between commas. A directive is a word, which is a level or a target, or a target
with a level, and between the two there may be a span in brackets, which may name a field in braces. -/
namespace Criterion.Settings.LogFilter

def levels : List String := ["off", "error", "warn", "info", "debug", "trace"]

/-- A level is a name in any case or a number up to 5 without a minus sign. No level at all stands for every
level. -/
def isLevel (cs : List Char) : Bool :=
  cs.isEmpty || levels.contains (String.ofList (cs.map Char.toLower)) ||
    (cs.head? ≠ some '-' && (Decimal.integer? cs).any (· ≤ 5))

def isNumber (cs : List Char) : Bool := (Numeral.magnitude? false cs).isSome

/-- A value is a number, which may have a sign, or a pattern. Without a plus sign every number is a pattern. -/
def isValue (cs : List Char) : Bool := Pattern.isPattern cs || (cs.head? = some '+' && isNumber (cs.drop 1))

/-- A field is a name, or a name and a value with an equals sign between them. -/
def isField (cs : List Char) : Bool :=
  !cs.isEmpty &&
    match Text.split '=' cs with
    | _ :: value :: _ => isValue value
    | _ => true

/-- How far a directive has been read. A field or a level is known by the byte it begins at. -/
inductive Stage where
  | start
  | target
  | span
  | field (start : Nat)
  | fieldEnd
  | spanEnd
  | level (start : Nat)
  deriving DecidableEq, Repr

namespace Stage

def mayBegin (c : Char) : Bool := c = '-' || c = ':' || c = '_' || Text.isAlphanumeric c

/-- Reads one character at the given byte. The directive gives the text of a field that ends there. -/
def next (directive : List Char) (byte : Nat) (c : Char) : Stage → Option Stage
  | start => if c = '[' then some span else if mayBegin c then some target else none
  | target => if c = '=' then some (level (byte + 1)) else if c = '[' then some span else some target
  | span => if c = ']' then some spanEnd else if c = '{' then some (field (byte + 1)) else some span
  | field begun =>
    if c ≠ '}' then some (field begun)
    else
      match (Text.takeBytes? byte directive).bind (Text.dropBytes? begun) with
      | some text => if isField text then some fieldEnd else none
      | none => none
  | fieldEnd => if c = ']' then some spanEnd else none
  | spanEnd => if c = '=' then some (level (byte + 1)) else none
  | level begun => some (level begun)

def run (directive : List Char) : Nat → Stage → List Char → Option Stage
  | _, stage, [] => some stage
  | byte, stage, c :: cs => do run directive (byte + c.utf8Size) (← stage.next directive byte c) cs

def isFinal (directive : List Char) : Stage → Bool
  | target | spanEnd => true
  | level begun => ((Text.dropBytes? begun directive).map isLevel).getD false
  | _ => false

end Stage

/-- The white space around a directive is not read, but the bytes of its fields and its level are counted
without it and taken from the directive with it. So nothing is a level after white space. -/
def isDirective (cs : List Char) : Bool := ((Stage.run cs 0 .start (Text.trim cs)).map (Stage.isFinal cs)).getD false

def isValid (text : String) : Bool := ((Text.split ',' text.toList).filter (!·.isEmpty)).all isDirective

end Criterion.Settings.LogFilter
