import Criterion.Expr
import Criterion.Token

/-! Parsing by one pass over the lexemes. OR binds weaker than AND, AND weaker than the comparisons,
and every operator groups to the left. The state after a lexeme holds the operands that still wait for
what stands to their right, so an error depends on nothing beyond the lexeme it is reported at.
Positions are indexes into the lexemes. -/
namespace Criterion

inductive SyntaxError where
  | unexpected (found : Lexeme) (position : Nat)
  | unexpectedEnd (position : Nat)
  | expected (kind : Kind) (found : Option Lexeme) (position : Nat)
  | noTruthValue (op : Operator) (operand : String) (position : Nat)
  | incomparable (op : Operator) (left right : String) (position : Nat)
  | standaloneLiteral (kind : String) (position : Nat)
  | numberOutOfRange (literal : String) (position : Nat)
  deriving DecidableEq, Repr

namespace SyntaxError

def position : SyntaxError → Nat
  | .unexpected _ position => position
  | .unexpectedEnd position => position
  | .expected _ _ position => position
  | .noTruthValue _ _ position => position
  | .incomparable _ _ _ position => position
  | .standaloneLiteral _ position => position
  | .numberOutOfRange _ position => position

def describeFound : Option Lexeme → String
  | some lexeme => lexeme.describe
  | none => "end of input"

def message : SyntaxError → String
  | .unexpected found position =>
    "unexpected token " ++ found.describe ++ " at index " ++ Decimal.text position
  | .unexpectedEnd position => "unexpected end of input at index " ++ Decimal.text position
  | .expected kind found position =>
    "expected " ++ kind.name ++ " but found " ++ describeFound found ++ " at index " ++ Decimal.text position
  | .noTruthValue op operand position =>
    "invalid operand for " ++ op.symbol ++ " at index " ++ Decimal.text position ++ ": " ++ operand ++
      " has no boolean meaning"
  | .incomparable op left right position =>
    "incompatible types for comparison at index " ++ Decimal.text position ++ ": " ++ left ++ " " ++
      op.symbol ++ " " ++ right
  | .standaloneLiteral kind position =>
    "a standalone " ++ kind ++ " literal is not a valid expression (index " ++ Decimal.text position ++ ")"
  | .numberOutOfRange literal position =>
    "invalid number literal " ++ literal ++ " at index " ++ Decimal.text position

end SyntaxError

inductive CompileError where
  | lexical (e : LexicalError)
  | grammatical (e : SyntaxError)
  deriving DecidableEq, Repr

def CompileError.message : CompileError → String
  | .lexical e => "tokenize failed: " ++ e.message
  | .grammatical e => "parse failed: " ++ e.message

namespace Expr.Parse

/-- The type of a variable is known only with a document, so it may be compared with anything. Two
literals must be of one kind, and an operation compares with variables only. -/
def comparable : Expr → Expr → Bool
  | .atom (.variable _), _ | _, .atom (.variable _) => true
  | .atom (.number _), .atom (.number _) => true
  | .atom (.text _), .atom (.text _) => true
  | .atom (.truth _), .atom (.truth _) => true
  | .atom .null, .atom .null => true
  | _, _ => false

/-- The operands that wait at one depth of parentheses. -/
structure Level where
  disjunct : Option Expr := none
  conjunct : Option Expr := none
  compared : Option (Expr × Operator) := none
  deriving DecidableEq, Repr

/-- Either an operand must come next, or the operand `e` has just ended. -/
inductive State where
  | expecting (level : Level) (outer : List Level)
  | holding (e : Expr) (level : Level) (outer : List Level)
  deriving DecidableEq, Repr

def start : State := .expecting {} []

def requireTruth (op : Operator) (e : Expr) (position : Nat) : Except SyntaxError Unit :=
  if e.isValueLiteral then .error (.noTruthValue op e.kindName position) else .ok ()

/-- Closes the comparison to the left of `e`. -/
def Level.comparison (level : Level) (position : Nat) (e : Expr) : Except SyntaxError Expr :=
  match level.compared with
  | none => .ok e
  | some (left, op) =>
    if comparable left e then .ok (.binary op left e)
    else .error (.incomparable op left.kindName e.kindName position)

/-- Closes the AND chain that ends with `e`. -/
def Level.conjunction (level : Level) (position : Nat) (e : Expr) : Except SyntaxError Expr :=
  match level.conjunct with
  | none => .ok e
  | some left => do
    requireTruth .and e position
    return .binary .and left e

/-- Closes the OR chain that ends with `e`, and the AND chain in it. -/
def Level.disjunction (level : Level) (position : Nat) (e : Expr) : Except SyntaxError Expr := do
  let last ← level.conjunction position e
  match level.disjunct with
  | none => return last
  | some left =>
    requireTruth .or last position
    return .binary .or left last

/-- The operand `e` ends before `position`. -/
def supply (e : Expr) (level : Level) (outer : List Level) (position : Nat) : Except SyntaxError State := do
  let whole ← level.comparison position e
  return .holding whole { level with compared := none } outer

def atom (lexeme : Lexeme) (position : Nat) : Except SyntaxError Atom :=
  match lexeme.kind with
  | .variable => .ok (.variable lexeme.text)
  | .text => .ok (.text lexeme.text)
  | .truth value => .ok (.truth value)
  | .null => .ok .null
  | .number =>
    match (Decimal.integer? lexeme.text.toList).bind Decimal.int64? with
    | some value => .ok (.number value)
    | none => .error (.numberOutOfRange lexeme.text position)
  | _ => .error (.unexpected lexeme position)

def step (position : Nat) (lexeme : Lexeme) : State → Except SyntaxError State
  | .expecting level outer =>
    if lexeme.kind = .leftParen then .ok (.expecting {} (level :: outer))
    else do
      let a ← atom lexeme position
      supply (.atom a) level outer (position + 1)
  | .holding e level outer =>
    match lexeme.kind with
    | .operator .or => do
      let left ← level.disjunction position e
      requireTruth .or left (position + 1)
      return .expecting { disjunct := some left } outer
    | .operator .and => do
      let left ← level.conjunction position e
      requireTruth .and left (position + 1)
      return .expecting { level with conjunct := some left } outer
    | .operator op => .ok (.expecting { level with compared := some (e, op) } outer)
    | kind => do
      let whole ← level.disjunction position e
      match outer with
      | [] => .error (.unexpected lexeme position)
      | enclosing :: outer =>
        if kind = .rightParen then supply whole enclosing outer (position + 1)
        else .error (.expected .rightParen (some lexeme) position)

/-- What the state amounts to when the lexemes are used up. -/
def finish (position : Nat) : State → Except SyntaxError Expr
  | .expecting .. => .error (.unexpectedEnd position)
  | .holding e level outer => do
    let whole ← level.disjunction position e
    if !outer.isEmpty then .error (.expected .rightParen none position)
    else if whole.isValueLiteral then .error (.standaloneLiteral whole.kindName position)
    else .ok whole

def run (position : Nat) (state : State) : List Lexeme → Except SyntaxError Expr
  | [] => finish position state
  | lexeme :: rest => do
    let next ← step position lexeme state
    run (position + 1) next rest

end Expr.Parse

namespace Expr

def parse (lexemes : List Lexeme) : Except SyntaxError Expr := Parse.run 0 Parse.start lexemes

def compile (text : String) : Except CompileError Expr :=
  match Token.tokenize text with
  | .error e => .error (.lexical e)
  | .ok tokens =>
    match parse (tokens.map Token.toLexeme) with
    | .error e => .error (.grammatical e)
    | .ok e => .ok e

end Expr

end Criterion
