import Criterion.Expr.Evaluate
import Criterion.Proofs.Failure

/-! Chains of AND and chains of OR. Whatever the grouping, a chain looks at its operands in turn up to the first
that settles it, so its outcome is a matter of the operands and their order. The order decides how far the chain
gets and with it which error there is, but two orders that come to a truth come to the same one. -/
namespace Criterion

/-- The truth of an operand that leaves the verdict to the next one. -/
def Operator.neutral : Operator → Bool
  | .and => true
  | _ => false

namespace Expr

/-- The tree joins the operands, in this order, by nothing but the operator. -/
inductive Chain (op : Operator) : List Expr → Expr → Prop
  | operand (e : Expr) : Chain op [e] e
  | join {es fs : List Expr} {left right : Expr} :
      Chain op es left → Chain op fs right → Chain op (es ++ fs) (.binary op left right)

/-- The outcome of looking at one operand after the other until one is not neutral. -/
def inTurn (document : Json) (op : Operator) : List Expr → Except EvalError Bool
  | [] => .ok op.neutral
  | e :: es => do
    let b ← evaluate document e
    if b = op.neutral then inTurn document op es else return b

variable {document : Json} {op : Operator} {es fs : List Expr} {e f left right : Expr}

theorem evaluate_logical (hop : op.isLogical = true) :
    evaluate document (.binary op left right) =
      (evaluate document left >>= fun b => if b = op.neutral then evaluate document right else .ok b) := by
  cases op with
  | and =>
    rw [evaluate]
    congr 1
    funext b
    cases b <;> rfl
  | or =>
    rw [evaluate]
    congr 1
    funext b
    cases b <;> rfl
  | equal | unequal | less | atMost | greater | atLeast => contradiction

theorem inTurn_singleton (e : Expr) : inTurn document op [e] = evaluate document e := by
  rw [inTurn]
  cases evaluate document e with
  | error x => rfl
  | ok b =>
    by_cases hb : b = op.neutral
    · simp [inTurn, hb]
    · simp [hb]

theorem inTurn_append (es fs : List Expr) :
    inTurn document op (es ++ fs) =
      (inTurn document op es >>= fun b => if b = op.neutral then inTurn document op fs else .ok b) := by
  induction es with
  | nil => simp [inTurn]
  | cons e es ih =>
    rw [List.cons_append, inTurn, inTurn]
    cases evaluate document e with
    | error x => rfl
    | ok b =>
      by_cases hb : b = op.neutral
      · simp [hb, ih]
      · simp [hb]

theorem evaluate_of_chain (hop : op.isLogical = true) (h : Chain op es e) :
    evaluate document e = inTurn document op es := by
  induction h with
  | operand e => exact (inTurn_singleton e).symm
  | join _ _ ihl ihr => rw [evaluate_logical hop, ihl, ihr, inTurn_append]

/-- All operands are looked at and none settles the chain. -/
theorem inTurn_eq_neutral_iff :
    inTurn document op es = .ok op.neutral ↔ ∀ e ∈ es, evaluate document e = .ok op.neutral := by
  induction es with
  | nil => simp [inTurn]
  | cons e es ih =>
    rw [inTurn, List.forall_mem_cons, ← ih]
    cases evaluate document e with
    | error x => simp
    | ok b =>
      by_cases hb : b = op.neutral
      · simp [hb]
      · simp [hb]

theorem inTurn_neutral_of_perm (hperm : es.Perm fs) :
    inTurn document op es = .ok op.neutral ↔ inTurn document op fs = .ok op.neutral := by
  rw [inTurn_eq_neutral_iff, inTurn_eq_neutral_iff]
  exact ⟨fun h e he => h e (hperm.mem_iff.mpr he), fun h e he => h e (hperm.mem_iff.mp he)⟩

/-- All groupings of the operands have one outcome, and all orders of them that have a truth have the same. -/
theorem chain_verdict (document : Json) (op : Operator) (hop : op.isLogical = true) (es : List Expr) :
    (∀ e f, Chain op es e → Chain op es f → evaluate document e = evaluate document f) ∧
      ∀ fs, es.Perm fs → ∀ e f, Chain op es e → Chain op fs f →
        ∀ a b, evaluate document e = .ok a → evaluate document f = .ok b → a = b := by
  refine ⟨fun e f he hf => ?_, fun fs hperm e f he hf a b ha hb => ?_⟩
  · rw [evaluate_of_chain hop he, evaluate_of_chain hop hf]
  · rw [evaluate_of_chain hop he] at ha
    rw [evaluate_of_chain hop hf] at hb
    have hneutral : a = op.neutral ↔ b = op.neutral := by
      have hsame := @inTurn_neutral_of_perm document op _ _ hperm
      rw [ha, hb] at hsame
      simpa using hsame
    -- There is but one truth that is not neutral.
    by_cases hn : a = op.neutral
    · rw [hn, hneutral.mp hn]
    · rw [Bool.eq_not_of_ne hn, Bool.eq_not_of_ne fun hb => hn (hneutral.mpr hb)]

/-- An operand without a value does no harm behind one that settles the chain, and in front of it all. -/
theorem chain_verdict_of_three :
    let document : Json := .object [("a", .bool true), ("b", .bool false)]
    let a : Expr := .atom (.variable "a")
    let b : Expr := .atom (.variable "b")
    let c : Expr := .atom (.variable "c")
    let join := Expr.binary .and
    Chain .and [a, b, c] (join (join a b) c) ∧ Chain .and [a, b, c] (join a (join b c)) ∧
      Chain .and [b, c, a] (join b (join c a)) ∧ Chain .and [c, a, b] (join (join c a) b) ∧
      evaluate document (join (join a b) c) = .ok false ∧ evaluate document (join a (join b c)) = .ok false ∧
      evaluate document (join (join c a) b) = .error (.missingCondition "c") ∧
      ∀ truth, evaluate document (join b (join c a)) = .ok truth → truth = false := by
  intro document a b c join
  have hleft : Chain .and [a, b, c] (join (join a b) c) := .join (.join (.operand a) (.operand b)) (.operand c)
  have hright : Chain .and [a, b, c] (join a (join b c)) := .join (.operand a) (.join (.operand b) (.operand c))
  have hturned : Chain .and [b, c, a] (join b (join c a)) := .join (.operand b) (.join (.operand c) (.operand a))
  have hfirst : Chain .and [c, a, b] (join (join c a) b) := .join (.join (.operand c) (.operand a)) (.operand b)
  obtain ⟨hgroup, horder⟩ := chain_verdict document .and rfl [a, b, c]
  have hfalse : evaluate document (join (join a b) c) = .ok false := rfl
  have hperm : [a, b, c].Perm [b, c, a] := @List.perm_append_comm _ [a] [b, c]
  refine ⟨hleft, hright, hturned, hfirst, hfalse, (hgroup _ _ hleft hright).symm.trans hfalse, rfl, ?_⟩
  intro truth htruth
  exact (horder _ hperm _ _ hleft hturned _ _ hfalse htruth).symm

end Expr

end Criterion
