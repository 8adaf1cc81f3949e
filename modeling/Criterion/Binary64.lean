/-! Binary64 numbers by rank. The non-negative finite numbers form one increasing list that starts
`0, 2^-1074, 2 * 2^-1074, …`; the rank of a number is its place in it, which is also what its 63 low
bits spell. `units rank` is the number counted in steps of `2^-1074`, so every comparison and every
rounding is exact arithmetic on naturals. The rank after the last finite one is infinity. -/
namespace Criterion

inductive Binary64 where
  | nan
  | signed (negative : Bool) (rank : Nat)
  deriving DecidableEq, Repr

namespace Binary64

/-- How many numbers there are from one power of two to the next. -/
def binade : Nat := Nat.pow 2 52

/-- How many steps of `2^-1074` make one. -/
def stepsInOne : Nat := Nat.pow 2 1074

def infinity : Nat := 2047 * binade

/-- The value at `rank`, counted in steps of `2^-1074`. -/
def units (rank : Nat) : Nat :=
  if rank < binade then rank else (binade + rank % binade) * Nat.pow 2 (rank / binade - 1)

/-- The last rank whose value is at most `n` steps. -/
def rankBelow (n : Nat) : Nat :=
  let shift := n.log2 - 52
  shift * binade + n / Nat.pow 2 shift

/-- The rank nearest to `num / den` steps; halfway between two it is the even one. -/
def nearestRank (num den : Nat) : Nat :=
  let below := rankBelow (num / den)
  let middle := (units below + units (below + 1)) * den
  if 2 * num < middle then below
  else if middle < 2 * num then below + 1
  else below + below % 2

/-- The rank of a natural number. -/
def wholeRank (m : Nat) : Nat := nearestRank (m * stepsInOne) 1

def isFinite : Binary64 → Bool
  | .nan => false
  | .signed _ rank => rank < infinity

/-- Where a number stands in the order; both zeros stand at 0. -/
def place? : Binary64 → Option Int
  | .nan => none
  | .signed false rank => some rank
  | .signed true rank => some (-(rank : Int))

/-- Compares by place; a comparison with NaN never holds. -/
def compareWith (r : Int → Int → Bool) (a b : Binary64) : Bool :=
  match a.place?, b.place? with
  | some x, some y => r x y
  | _, _ => false

end Binary64

/-- The number `coefficient * 10 ^ exponent` with a sign. -/
structure Scientific where
  negative : Bool
  coefficient : Nat
  exponent : Int
  deriving DecidableEq, Repr

namespace Scientific

/-- The power of ten just above the number, for a coefficient that is not zero. -/
def top (s : Scientific) : Int := (Nat.toDigits 10 s.coefficient).length + s.exponent

/-- Rounds to nearest, ties to even. At `10^310` and above every number rounds to infinity, below
`10^-330` to zero, so exponents beyond these are not raised. -/
def round (s : Scientific) : Binary64 :=
  .signed s.negative <|
    if s.coefficient = 0 ∨ s.top < -330 then 0
    else if 310 < s.top then Binary64.infinity
    else min Binary64.infinity <|
      Binary64.nearestRank (s.coefficient * Nat.pow 10 s.exponent.toNat * Binary64.stepsInOne)
        (Nat.pow 10 (-s.exponent).toNat)

end Scientific

end Criterion
