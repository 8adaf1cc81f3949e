import Criterion.Json

/-! Records with fixed fields. A record is written as an object with these fields in any order, or as an
array of their values in the declared order. -/
namespace Criterion.Json

/-- The value of each named field, `none` where a field is left out. Unknown fields, repeated fields and
surplus items make no record. -/
def slots? (names : List String) : Json → Option (List (Option Json))
  | .object members =>
    let keys := members.map Prod.fst
    if keys.Nodup ∧ keys.all names.contains then some (names.map fun name => lookup? name members) else none
  | .array items =>
    if items.length ≤ names.length then
      some (items.map some ++ List.replicate (names.length - items.length) none)
    else none
  | _ => none

def string? : Json → Option String
  | .string s => some s
  | _ => none

def uint64? : Json → Option UInt64
  | .number (.whole n) => Decimal.uint64? n
  | _ => none

def items? : Json → Option (List Json)
  | .array items => some items
  | _ => none

def ofUInt64 (n : UInt64) : Json := .number (.whole n.toNat)

end Criterion.Json
