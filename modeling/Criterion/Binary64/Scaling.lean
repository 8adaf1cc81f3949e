import Criterion.Binary64

/-! Products with powers of ten as doubles compute them. The number is rounded, and then every product and every
quotient is; a power above the greatest finite one takes more than one step. So the last place may be off. -/
namespace Criterion.Binary64

def product (a b : Nat) : Nat := min infinity (nearestRank (units a * units b) stepsInOne)

def quotient (a b : Nat) : Nat := min infinity (nearestRank (units a * stepsInOne) (units b))

/-- The exponent of the greatest power of ten that is finite. -/
def greatestPower : Nat := 308

def powerOfTen (n : Nat) : Nat := wholeRank (Nat.pow 10 n)

/-- Divides by the power of ten with that exponent, at most twice: by then nothing is left of a number of 64 bits. -/
def divided (rank exponent : Nat) : Nat :=
  if exponent ≤ greatestPower then quotient rank (powerOfTen exponent)
  else if exponent ≤ 2 * greatestPower then
    quotient (quotient rank (powerOfTen greatestPower)) (powerOfTen (exponent - greatestPower))
  else 0

/-- The rank of `n * 10 ^ exponent` as it is computed, infinity where it is refused. -/
def scaledRank (n : Nat) (exponent : Int) : Nat :=
  if n = 0 then 0
  else if exponent < 0 then divided (wholeRank n) exponent.natAbs
  else if exponent ≤ greatestPower then product (wholeRank n) (powerOfTen exponent.natAbs)
  else infinity

end Criterion.Binary64
