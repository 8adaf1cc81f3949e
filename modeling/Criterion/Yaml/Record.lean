import Criterion.Yaml.Node

/-! Records with fixed fields in YAML. A record is a mapping; an absent value is a record without fields. -/
namespace Criterion.Yaml.Node

def text? : Node → Option String
  | .scalar _ text => some text
  | _ => none

def lookup? (name : String) : List (Node × Node) → Option Node
  | [] => none
  | (key, value) :: rest => if key.text? = some name then some value else lookup? name rest

/-- The value of each named field, `none` where it is left out. Unknown and repeated fields make no
record. -/
def slots? (names : List String) : Node → Option (List (Option Node))
  | .mapping entries => do
    let keys ← entries.mapM fun entry => entry.1.text?
    if keys.Nodup ∧ keys.all names.contains then some (names.map fun name => lookup? name entries) else none
  | .scalar true "" => some (names.map fun _ => none)
  | _ => none

/-- A base named at the front of a number, and the digits after it. -/
def based? : List Char → Option (Nat × List Char)
  | '0' :: 'x' :: cs => some (16, cs)
  | '0' :: 'o' :: cs => some (8, cs)
  | '0' :: 'b' :: cs => some (2, cs)
  | _ => none

/-- Digits in base ten do not start with a zero unless they are one zero. -/
def decimalNumber? (cs : List Char) : Option Nat :=
  if cs.isEmpty || (cs.head? = some '0' && 1 < cs.length) then none else numberIn? 10 cs

/-- A whole number in 64 bits, written plainly, with an optional plus sign. -/
def uint64? : Node → Option Nat
  | .scalar true text => do
    let cs := match text.toList with
      | '+' :: cs => cs
      | cs => cs
    let n ← match based? cs with
      | some (base, digits) => if digits.isEmpty then none else numberIn? base digits
      | none => decimalNumber? cs
    if n < UInt64.size then some n else none
  | _ => none

end Criterion.Yaml.Node
