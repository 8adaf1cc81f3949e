import Criterion.Binary64.Shortest
import Criterion.Decimal

/-! JSON values. The members of an object stand in the order in which they were written, repeated keys
included; `canonical` sorts them by key and keeps the last value of each, which is how a document is
looked at. -/
namespace Criterion

/-- Whole numbers between `-2^63` and `2^64 - 1` are kept exactly, all others as binary64. -/
inductive Number where
  | whole (n : Int)
  | double (x : Binary64)
  deriving DecidableEq, Repr

inductive Json where
  | null
  | bool (b : Bool)
  | number (n : Number)
  | string (s : String)
  | array (items : List Json)
  | object (members : List (String × Json))
  deriving Repr

namespace Number

def isFinite : Number → Bool
  | .whole _ => true
  | .double x => x.isFinite

/-- The digits of a coefficient with its point: plain when the first digit stands for `10^-5` up to
`10^15`, and then at least one digit on each side of the point, otherwise with a signed exponent. -/
def layout (coefficient : List Char) (exponent : Int) : List Char :=
  let lead := exponent + coefficient.length - 1
  if lead < -5 ∨ 15 < lead then
    let mantissa := match coefficient with
      | d :: e :: ds => d :: '.' :: e :: ds
      | ds => ds
    mantissa ++ 'e' :: (if lead < 0 then '-' else '+') :: Nat.toDigits 10 lead.natAbs
  else if lead < 0 then '0' :: '.' :: (List.replicate (-lead - 1).toNat '0' ++ coefficient)
  else if 0 ≤ exponent then coefficient ++ List.replicate exponent.toNat '0' ++ ['.', '0']
  else coefficient.take (lead.toNat + 1) ++ '.' :: coefficient.drop (lead.toNat + 1)

/-- Drops the zeros at the end and moves them into the exponent. -/
def trimZeros (coefficient : List Char) (exponent : Int) : List Char × Int :=
  let zeros := coefficient.reverse.takeWhile (· = '0')
  (coefficient.take (coefficient.length - zeros.length), exponent + zeros.length)

def rankDigits (rank : Nat) : List Char :=
  if rank = 0 then ['0', '.', '0']
  else
    let (coefficient, exponent) := Binary64.shortest rank
    let (digits, exponent) := trimZeros (Nat.toDigits 10 coefficient) exponent
    layout digits exponent

def digits : Number → List Char
  | .whole n => Decimal.digits n
  | .double .nan => ['n', 'u', 'l', 'l']
  | .double (.signed negative rank) => if negative then '-' :: rankDigits rank else rankDigits rank

def text (n : Number) : String := String.ofList n.digits

end Number

namespace Json

/-- Puts a member in front of members sorted by key, unless the key is already there. -/
def adjoin (key : String) (value : Json) : List (String × Json) → List (String × Json)
  | [] => [(key, value)]
  | (k, v) :: ms =>
    if key < k then (key, value) :: (k, v) :: ms
    else if key = k then (k, v) :: ms
    else (k, v) :: adjoin key value ms

mutual

/-- The same value with every object sorted by key; of a repeated key the last value stays. -/
def canonical : Json → Json
  | .array items => .array (canonicalItems items)
  | .object members => .object (canonicalMembers members)
  | v => v

def canonicalItems : List Json → List Json
  | [] => []
  | v :: vs => v.canonical :: canonicalItems vs

def canonicalMembers : List (String × Json) → List (String × Json)
  | [] => []
  | (k, v) :: ms => adjoin k v.canonical (canonicalMembers ms)

end

/-- The value of a key, the first one if it is repeated. -/
def lookup? (key : String) : List (String × Json) → Option Json
  | [] => none
  | (k, v) :: ms => if k = key then some v else lookup? key ms

def member? (key : String) : Json → Option Json
  | .object members => lookup? key members
  | _ => none

end Json

end Criterion
