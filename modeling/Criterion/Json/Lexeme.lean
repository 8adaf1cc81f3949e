import Criterion.Binary64.Scaling
import Criterion.Json
import Criterion.Numeral
import Criterion.Text

/-! Lexemes of JSON text. Each scan gives what it has read and how many characters that took. -/
namespace Criterion.Json

inductive Lexeme where
  | leftBracket | rightBracket
  | leftBrace | rightBrace
  | comma | colon
  | null
  | bool (b : Bool)
  | number (n : Number)
  | string (s : String)
  deriving DecidableEq, Repr

def isBlank (c : Char) : Bool := c = ' ' || c = '\t' || c = '\n' || c = '\r'

def hex4? (a b c d : Char) : Option Nat := do
  let high := (← Text.hexValue? a) * 16 + (← Text.hexValue? b)
  return (high * 16 + (← Text.hexValue? c)) * 16 + (← Text.hexValue? d)

def unescape? : Char → Option Char
  | '"' => some '"'
  | '\\' => some '\\'
  | '/' => some '/'
  | 'b' => some '\x08'
  | 'f' => some '\x0c'
  | 'n' => some '\n'
  | 'r' => some '\r'
  | 't' => some '\t'
  | _ => none

def isHighSurrogate (n : Nat) : Bool := 0xD800 ≤ n && n < 0xDC00

def isLowSurrogate (n : Nat) : Bool := 0xDC00 ≤ n && n < 0xE000

/-- The characters of a string after its opening quote, through the closing one. Surrogate escapes
count only in pairs. -/
def scanString : List Char → Option (List Char × Nat)
  | [] => none
  | '"' :: _ => some ([], 1)
  | '\\' :: 'u' :: a :: b :: c :: d :: cs =>
    match hex4? a b c d with
    | none => none
    | some unit =>
      if isHighSurrogate unit then
        match cs with
        | '\\' :: 'u' :: e :: f :: g :: h :: cs =>
          match hex4? e f g h with
          | none => none
          | some low =>
            if isLowSurrogate low then
              (scanString cs).map fun (s, n) =>
                (Char.ofNat (0x10000 + (unit - 0xD800) * 0x400 + (low - 0xDC00)) :: s, n + 12)
            else none
        | _ => none
      else if isLowSurrogate unit then none
      else (scanString cs).map fun (s, n) => (Char.ofNat unit :: s, n + 6)
  | '\\' :: e :: cs =>
    match unescape? e with
    | none => none
    | some c => (scanString cs).map fun (s, n) => (c :: s, n + 2)
  | c :: cs => if c.toNat < 32 then none else (scanString cs).map fun (s, n) => (c :: s, n + 1)

/-- Goes on with a number as long as its digits fit 64 bits, and gives the digits that are left over. -/
def gather (n : Nat) : List Char → Nat × List Char
  | [] => (n, [])
  | c :: cs => if Nat.ofDigitChars 10 [c] n < UInt64.size then gather (Nat.ofDigitChars 10 [c] n) cs else (n, c :: cs)

/-- The double that is written `whole.part` times a power of ten. It is computed from the digits that fit 64 bits, so it
is not always the nearest one, and next to the greatest double it may be none. -/
def doubleNumber (negative : Bool) (whole part : List Char) (exponent : Int) : Number :=
  let (n, wholeRest) := gather 0 whole
  let (n, partRest) := gather n part
  .double (.signed negative (Binary64.scaledRank n (exponent + wholeRest.length + partRest.length - part.length)))

/-- A whole number keeps its value while it fits 64 bits. The negative zero is a double. -/
def wholeNumber (negative : Bool) (whole : List Char) : Number :=
  let n := Decimal.ofDigits whole
  if !negative && n < UInt64.size then .whole n
  else if negative && 0 < n && Int64.minValue.toInt ≤ -(n : Int) then .whole (-(n : Int))
  else doubleNumber negative whole [] 0

/-- A number without its sign. A zero in front of other digits and a point that no digit follows are
refused, and so is a number that comes to infinity. -/
def scanUnsigned (negative : Bool) (cs : List Char) : Option (Number × Nat) :=
  let whole := Numeral.digitRun cs
  let (part, length) := Numeral.fraction (cs.drop whole.length)
  if whole.isEmpty || (whole.head? = some '0' && 1 < whole.length) || length = 1 then none
  else
    match Numeral.exponent? (cs.drop (whole.length + length)) with
    | none => none
    | some (exponent, taken) =>
      let n := if length = 0 ∧ taken = 0 then wholeNumber negative whole
        else doubleNumber negative whole part exponent
      if n.isFinite then some (n, whole.length + length + taken) else none

def scanNumber : List Char → Option (Number × Nat)
  | '-' :: cs => (scanUnsigned true cs).map fun (n, length) => (n, length + 1)
  | cs => scanUnsigned false cs

/-- The lexeme at the front of a text. -/
def scan? : List Char → Option (Lexeme × Nat)
  | '[' :: _ => some (.leftBracket, 1)
  | ']' :: _ => some (.rightBracket, 1)
  | '{' :: _ => some (.leftBrace, 1)
  | '}' :: _ => some (.rightBrace, 1)
  | ',' :: _ => some (.comma, 1)
  | ':' :: _ => some (.colon, 1)
  | 'n' :: 'u' :: 'l' :: 'l' :: _ => some (.null, 4)
  | 't' :: 'r' :: 'u' :: 'e' :: _ => some (.bool true, 4)
  | 'f' :: 'a' :: 'l' :: 's' :: 'e' :: _ => some (.bool false, 5)
  | '"' :: cs => (scanString cs).map fun (s, length) => (.string (String.ofList s), length + 1)
  | cs => (scanNumber cs).map fun (n, length) => (.number n, length)

end Criterion.Json
