/-! Decimal notation for whole numbers, in both directions. -/
namespace Criterion.Decimal

/-- The characters of an integer in base ten. -/
def digits (n : Int) : List Char :=
  if n < 0 then '-' :: Nat.toDigits 10 n.natAbs else Nat.toDigits 10 n.natAbs

def text (n : Int) : String := String.ofList (digits n)

def ofDigits (cs : List Char) : Nat := Nat.ofDigitChars 10 cs 0

def unsigned? (cs : List Char) : Option Nat :=
  if !cs.isEmpty && cs.all Char.isDigit then some (ofDigits cs) else none

/-- An optional sign and at least one digit, nothing else. -/
def integer? : List Char → Option Int
  | '+' :: cs => (unsigned? cs).map Int.ofNat
  | '-' :: cs => (unsigned? cs).map fun n => -(n : Int)
  | cs => (unsigned? cs).map Int.ofNat

def int64? (n : Int) : Option Int64 :=
  if Int64.minValue.toInt ≤ n ∧ n ≤ Int64.maxValue.toInt then some (Int64.ofInt n) else none

def uint64? (n : Int) : Option UInt64 :=
  if 0 ≤ n ∧ n < UInt64.size then some (UInt64.ofNat n.toNat) else none

end Criterion.Decimal
