import Criterion.Expr
import Criterion.Json.Read
import Criterion.Numeral
import Criterion.Path
import Criterion.Text

/-! Evaluation against a document. Every operand has a text or no value; equality compares these,
orderings read the texts as numbers, and a condition holds when the text is `true` in any case. -/
namespace Criterion

inductive EvalError where
  | missingNumber (op : Operator) (operand : String)
  | notANumber (op : Operator) (value : String)
  | missingCondition (operand : String)
  deriving DecidableEq, Repr

def EvalError.message : EvalError → String
  | .missingNumber op operand => "`" ++ operand ++ "` has no value for numeric comparison " ++ op.symbol
  | .notANumber op value => "failed to convert `" ++ value ++ "` to a number for comparison " ++ op.symbol
  | .missingCondition operand => "`" ++ operand ++ "` has no value to test as a condition"

/-- The text of a scalar; arrays and objects have the empty text. -/
def Json.scalarText : Json → String
  | .string s => s
  | .number n => n.text
  | .bool b => truthText b
  | .null | .array _ | .object _ => ""

namespace Atom

def value? (document : Json) : Atom → Option String
  | .variable path => ((Path.ofString path).present? document).map Json.scalarText
  | .text value => some value
  | .number value => some (Decimal.text value.toInt)
  | .truth value => some (truthText value)
  | .null => none

end Atom

namespace Expr

/-- Says whether a text is `true`, in any mix of ASCII cases. -/
def readsTrue (text : String) : Bool := text.toList.map Char.toLower = ['t', 'r', 'u', 'e']

def condition (a : Atom) (document : Json) : Except EvalError Bool :=
  match a.value? document with
  | some text => .ok (readsTrue text)
  | none => .error (.missingCondition a.render)

/-- The value of an operand whose own outcome as a condition is `verdict`. An operation has the text of
its verdict; an atom is not tested here. -/
def operand (e : Expr) (document : Json) (verdict : Except EvalError Bool) :
    Except EvalError (Option String) :=
  match e with
  | .atom a => .ok (a.value? document)
  | .binary .. => verdict.map fun b => some (truthText b)

def numeric (op : Operator) (e : Expr) (value : Except EvalError (Option String)) :
    Except EvalError Binary64 := do
  match ← value with
  | none => .error (.missingNumber op e.render)
  | some text =>
    match Numeral.read? (Text.trim text.toList) with
    | some x => return x
    | none => .error (.notANumber op text)

/-- The relation that an ordering tests. -/
def ordering : Operator → Int → Int → Bool
  | .less, x, y => x < y
  | .atMost, x, y => x ≤ y
  | .greater, x, y => y < x
  | .atLeast, x, y => y ≤ x
  | _, _, _ => false

def evaluate (document : Json) : Expr → Except EvalError Bool
  | .atom a => condition a document
  | .binary op left right =>
    match op with
    | .and => do if ← evaluate document left then evaluate document right else return false
    | .or => do if ← evaluate document left then return true else evaluate document right
    | .equal => do
      let x ← left.operand document (evaluate document left)
      let y ← right.operand document (evaluate document right)
      return x = y
    | .unequal => do
      let x ← left.operand document (evaluate document left)
      let y ← right.operand document (evaluate document right)
      return x ≠ y
    | op => do
      let x ← numeric op left (left.operand document (evaluate document left))
      let y ← numeric op right (right.operand document (evaluate document right))
      return Binary64.compareWith (ordering op) x y

/-- The text of a tree as an operand. -/
def resolve (document : Json) (e : Expr) : Except EvalError (Option String) :=
  e.operand document (e.evaluate document)

end Expr

end Criterion
