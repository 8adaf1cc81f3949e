import Criterion.Binary64
import Criterion.Decimal

/-! Numerals with a fraction and an exponent, and the texts that an ordering takes for numbers. -/
namespace Criterion.Numeral

def digitRun (cs : List Char) : List Char := cs.takeWhile Char.isDigit

/-- The point at the front of a text and the digits after it, with their common length. -/
def fraction : List Char → List Char × Nat
  | '.' :: cs => (digitRun cs, (digitRun cs).length + 1)
  | _ => ([], 0)

/-- An exponent at the front of a text and its length; length 0 without one. A mark that no digit
follows is refused. -/
def exponent? : List Char → Option (Int × Nat)
  | c :: cs =>
    if c = 'e' || c = 'E' then
      match cs with
      | '-' :: ds => if (digitRun ds).isEmpty then none
        else some (-(Decimal.ofDigits (digitRun ds) : Int), (digitRun ds).length + 2)
      | '+' :: ds => if (digitRun ds).isEmpty then none
        else some (Decimal.ofDigits (digitRun ds), (digitRun ds).length + 2)
      | ds => if (digitRun ds).isEmpty then none
        else some (Decimal.ofDigits (digitRun ds), (digitRun ds).length + 1)
    else some (0, 0)
  | [] => some (0, 0)

/-- The number written `whole.part` times a power of ten. -/
def scientific (negative : Bool) (whole part : List Char) (exponent : Int) : Scientific :=
  ⟨negative, Decimal.ofDigits (whole ++ part), exponent - part.length⟩

/-- A decimal without sign: digits on at least one side of an optional point, then an optional exponent. -/
def decimal? (negative : Bool) (cs : List Char) : Option Binary64 :=
  let whole := digitRun cs
  let (part, length) := fraction (cs.drop whole.length)
  let rest := cs.drop (whole.length + length)
  if whole.isEmpty && part.isEmpty then none
  else
    match exponent? rest with
    | some (exponent, taken) =>
      if taken = rest.length then some (scientific negative whole part exponent).round else none
    | none => none

/-- Besides decimals the words for infinity and for no number, in any case. -/
def magnitude? (negative : Bool) (cs : List Char) : Option Binary64 :=
  let word := cs.map Char.toLower
  if word = "inf".toList ∨ word = "infinity".toList then some (.signed negative Binary64.infinity)
  else if word = "nan".toList then some .nan
  else decimal? negative cs

/-- At most one sign and a magnitude. -/
def float? : List Char → Option Binary64
  | '+' :: cs => magnitude? false cs
  | '-' :: cs => magnitude? true cs
  | cs => magnitude? false cs

/-- What stands behind the sign. -/
def unsigned : List Char → List Char
  | '+' :: cs => cs
  | '-' :: cs => cs
  | cs => cs

/-- Of the texts that begin with a letter only `Infinity` and `NaN` are admitted, spelled exactly so. -/
def admits (cs : List Char) : Bool :=
  !cs.head?.any Char.isAlpha || cs = "Infinity".toList || cs = "NaN".toList

def read? (cs : List Char) : Option Binary64 := if admits (unsigned cs) then float? cs else none

end Criterion.Numeral
