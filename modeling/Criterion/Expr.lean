import Criterion.Decimal
import Criterion.Operator

/-! Expression trees: dotted variables and literals joined by operators. Every operation is rendered
in parentheses, so the text of a tree shows its grouping. -/
namespace Criterion

inductive Atom where
  | variable (path : String)
  | text (value : String)
  | number (value : Int64)
  | truth (value : Bool)
  | null
  deriving DecidableEq, Repr

inductive Expr where
  | atom (a : Atom)
  | binary (op : Operator) (left right : Expr)
  deriving DecidableEq, Repr

def truthText (b : Bool) : String := if b then "true" else "false"

namespace Atom

def kindName : Atom → String
  | .variable _ => "variable"
  | .text _ => "string"
  | .number _ => "number"
  | .truth _ => "boolean"
  | .null => "null"

/-- A text literal is written between quotes as it stands, whatever it contains. -/
def render : Atom → String
  | .variable path => path
  | .text value => "\"" ++ value ++ "\""
  | .number value => Decimal.text value.toInt
  | .truth value => truthText value
  | .null => "null"

end Atom

namespace Expr

def kindName : Expr → String
  | .atom a => a.kindName
  | .binary .. => "expression"

/-- Text, number and null literals say nothing that could be true or false. -/
def isValueLiteral : Expr → Bool
  | .atom (.text _) | .atom (.number _) | .atom .null => true
  | _ => false

def render : Expr → String
  | .atom a => a.render
  | .binary op left right => "(" ++ left.render ++ " " ++ op.symbol ++ " " ++ right.render ++ ")"

end Expr

end Criterion
