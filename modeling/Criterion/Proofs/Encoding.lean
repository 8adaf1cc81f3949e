import Criterion.Expr.Encoding
import Criterion.Proofs.Failure
import Criterion.Proofs.Json.Writing

/-! Stored trees. The text of a tree is a strict JSON text of its tagged form, and decoding that form gives
the tree back, at whatever path it stands and however deep it nests. -/
namespace Criterion.Expr

open Json

theorem exact_toInt (value : Int64) : Exact value.toInt := by
  have := value.toInt_lt
  exact ⟨value.minValue_le_toInt, by simp only [UInt64.size]; omega⟩

theorem whole_toJson (e : Expr) : Whole e.toJson := by
  induction e with
  | atom a => cases a <;> simp [toJson, atomJson, Whole, WholeMembers, exact_toInt]
  | binary op left right hl hr => exact ⟨trivial, trivial, hl, hr, trivial⟩

/-- The number of nodes on the longest way down the tree. -/
def levels : Expr → Nat
  | .atom _ => 1
  | .binary _ left right => max left.levels right.levels + 1

theorem nesting_toJson (e : Expr) : nesting e.toJson = e.levels := by
  induction e with
  | atom a => cases a <;> rfl
  | binary op left right hl hr => simp [toJson, nesting, nestingMembers, levels, hl, hr]

theorem canonical_binary (op : Operator) (left right : Expr) :
    (toJson (.binary op left right)).canonical =
      .object [("left", left.toJson.canonical), ("op", .string op.symbol), ("right", right.toJson.canonical),
        ("type", .string "binaryOp")] := by
  rfl

/-- Sorting the members of a tree brings in no number. -/
theorem whole_canonical_toJson (e : Expr) : Whole e.toJson.canonical := by
  induction e with
  | atom a =>
    have hsorted : (atomJson a).canonical = atomJson a := by cases a <;> rfl
    rw [toJson, hsorted]
    exact whole_toJson (.atom a)
  | binary op left right hl hr =>
    rw [canonical_binary]
    exact ⟨hl, trivial, hr, trivial, trivial⟩

theorem decodeAt_atom (a : Atom) (path : String) : decodeAt (atomJson a).canonical path = .ok (.atom a) := by
  cases a with
  | number value =>
    have hmembers : (atomJson (.number value)).canonical =
        .object [("type", .string "number"), ("value", .number (.whole value.toInt))] := rfl
    simp [hmembers, decodeAt, lookup?, atomOfTag, onlyFields, unknownField?, field,
      Decimal.int64?_eq_some_iff.mpr rfl]
  | _ => rfl

theorem decodeAt_toJson (e : Expr) (path : String) : decodeAt e.toJson.canonical path = .ok e := by
  induction e generalizing path with
  | atom a => exact decodeAt_atom a path
  | binary op left right hl hr =>
    rw [canonical_binary]
    simp [decodeAt, decodeChild, lookup?, onlyFields, unknownField?, stringField, field,
      Operator.ofSymbol?_symbol, hl, hr]

theorem read?_encode (e : Expr) : read? none e.encode = some e.toJson :=
  read?_compact (whole_toJson e) (room_none _ _)

theorem ofEncoded_encode (e : Expr) : ofEncoded e.encode = .ok e := by
  rw [ofEncoded, read?_encode]
  simp only [decode, decodeAt_toJson]

/-- A stored tree is a strict JSON text that says its tagged form, and decoding the text gives the tree. -/
theorem encode_lossless (e : Expr) : read? none e.encode = some e.toJson ∧ ofEncoded e.encode = .ok e :=
  ⟨read?_encode e, ofEncoded_encode e⟩

end Criterion.Expr
