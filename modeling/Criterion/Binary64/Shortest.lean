import Criterion.Binary64

/-! The shortest decimal that reads back as a given number. The reals that round to a rank lie between
the middles to its neighbours, ends included when the rank is even. On the grid of `n`-digit decimals
only the two neighbours of the value can lie there, so `n` is tried from 1 up; of two hits the nearer
wins, and of two at the same distance the even one. -/
namespace Criterion.Binary64

/-- A candidate `digit * 10 ^ exponent`, scaled against values in steps of `2^-1074`: the pair compares
as `num` against `steps * den`. -/
def scaled (coefficient : Nat) (exponent : Int) : Nat × Nat :=
  (coefficient * Nat.pow 10 exponent.toNat * stepsInOne, Nat.pow 10 (-exponent).toNat)

/-- Says whether the decimal rounds to `rank`, for a rank that is neither zero nor infinite. -/
def roundsTo (rank coefficient : Nat) (exponent : Int) : Bool :=
  let (num, den) := scaled coefficient exponent
  let low := (units (rank - 1) + units rank) * den
  let high := (units rank + units (rank + 1)) * den
  if rank % 2 = 0 then low ≤ 2 * num && 2 * num ≤ high else low < 2 * num && 2 * num < high

/-- The decimal exponent of the first digit of the value at `rank`. -/
def leading (rank : Nat) : Int :=
  (Nat.toDigits 10 (units rank * Nat.pow 10 330 / stepsInOne)).length - 331

/-- The neighbours of the value on the grid of multiples of `10 ^ exponent`, the nearer one first. -/
def neighbours (rank : Nat) (exponent : Int) : List Nat :=
  let (num, den) := scaled 1 exponent
  let below := units rank * den / num
  let middle := (2 * below + 1) * num
  let twice := 2 * units rank * den
  if twice < middle ∨ twice = middle ∧ below % 2 = 0 then [below, below + 1] else [below + 1, below]

/-- The neighbour on the grid of multiples of `10 ^ exponent` that rounds to `rank`. -/
def onGrid? (rank : Nat) (exponent : Int) : Option Nat :=
  (neighbours rank exponent).find? fun c => roundsTo rank c exponent

/-- Tries the grid of multiples of `10 ^ exponent` and finer ones, `tries` of them. -/
def search (rank : Nat) (exponent : Int) (tries : Nat) : Nat × Int :=
  let hit? := (List.range tries).findSome? fun (finer : Nat) =>
    (onGrid? rank (exponent - finer)).map fun coefficient => (coefficient, exponent - finer)
  hit?.getD (0, exponent - tries)

/-- The shortest coefficient and its exponent; seventeen digits always suffice. The coefficient ends in
a zero only if it is a power of ten that a step up from all nines has reached. -/
def shortest (rank : Nat) : Nat × Int := search rank (leading rank) 17

end Criterion.Binary64
