/-! The eight operators of the language and the symbols that write them. The symbol is the same in
expression text, in stored trees and in messages. -/
namespace Criterion

inductive Operator where
  | and | or
  | equal | unequal
  | less | atMost | greater | atLeast
  deriving DecidableEq, Repr

namespace Operator

def symbol : Operator → String
  | .and => "AND"
  | .or => "OR"
  | .equal => "=="
  | .unequal => "!="
  | .less => "<"
  | .atMost => "<="
  | .greater => ">"
  | .atLeast => ">="

def ofSymbol? : String → Option Operator
  | "AND" => some .and
  | "OR" => some .or
  | "==" => some .equal
  | "!=" => some .unequal
  | "<" => some .less
  | "<=" => some .atMost
  | ">" => some .greater
  | ">=" => some .atLeast
  | _ => none

/-- AND and OR combine conditions; the other six compare values. -/
def isLogical : Operator → Bool
  | .and | .or => true
  | _ => false

theorem ofSymbol?_symbol (op : Operator) : ofSymbol? op.symbol = some op := by cases op <;> rfl

end Operator

end Criterion
