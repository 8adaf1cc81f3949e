import Criterion.Expr.Evaluate
import Criterion.Expr.Parse
import Criterion.Wording

/-! Verdicts on documents that are given as text. -/
namespace Criterion

inductive VerdictError where
  | malformedDocument
  | evaluation (e : EvalError)
  deriving DecidableEq, Repr

def VerdictError.message (e : VerdictError) (w : Wording := {}) : String :=
  match e with
  | .malformedDocument => "failed to parse JSON document: " ++ w.json
  | .evaluation e => e.message

inductive JudgeError where
  | compile (e : CompileError)
  | verdict (e : VerdictError)
  deriving DecidableEq, Repr

def JudgeError.message (e : JudgeError) (w : Wording := {}) : String :=
  match e with
  | .compile e => e.message
  | .verdict e => "evaluation failed: " ++ e.message w

namespace Expr

def verdict (e : Expr) (document : String) : Except VerdictError Bool :=
  match Json.document? document with
  | none => .error .malformedDocument
  | some d =>
    match e.evaluate d with
    | .error e => .error (.evaluation e)
    | .ok b => .ok b

/-- Compiles an expression and evaluates it once. The expression is looked at before the document. -/
def judge (expression document : String) : Except JudgeError Bool :=
  match compile expression with
  | .error e => .error (.compile e)
  | .ok e =>
    match e.verdict document with
    | .error e => .error (.verdict e)
    | .ok b => .ok b

end Expr

end Criterion
