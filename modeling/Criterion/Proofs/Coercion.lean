import Criterion.Proofs.Blame
import Criterion.Proofs.Json.Finite
import Criterion.Proofs.Json.Number

/-! Operands of orderings. An ordering compares the numerals among the texts and refuses every other text as it
stands, the left one first. The numbers of an expression and those of a document are numerals, so comparing them
never fails. -/
namespace Criterion.Expr

open Numeral (Reads)

/-- A number of the expression, or a variable that holds a number of the document. -/
inductive Numeric (document : Json) : Expr → Prop
  | literal (value : Int64) : Numeric document (.atom (.number value))
  | held {path : String} {n : Number} (h : (Path.ofString path).lookup? document = some (.number n)) :
    Numeric document (.atom (.variable path))

section Operands

variable {document : Json} {op : Operator} {e left right : Expr} {value : Except EvalError (Option String)}
  {text : String}

theorem evaluate_ordering (hop : op.isOrdering = true) :
    evaluate document (.binary op left right) = do
      let x ← numeric op left (resolve document left)
      let y ← numeric op right (resolve document right)
      return Binary64.compareWith (ordering op) x y := by
  cases op with
  | less | atMost | greater | atLeast => rfl
  | _ => contradiction

theorem numeric_of_read? {x : Binary64} (hvalue : value = .ok (some text))
    (h : Numeral.read? (Text.trim text.toList) = some x) : numeric op e value = .ok x := by
  simp [numeric, hvalue, h]

theorem numeric_of_reads (hvalue : value = .ok (some text)) (h : Reads text) : ∃ x, numeric op e value = .ok x := by
  obtain ⟨x, hx⟩ := Option.isSome_iff_exists.mp ((Numeral.read?_trim_iff text).mpr h)
  exact ⟨x, numeric_of_read? hvalue hx⟩

theorem numeric_of_not_reads (hvalue : value = .ok (some text)) (h : ¬ Reads text) :
    numeric op e value = .error (.notANumber op text) := by
  have hnone : Numeral.read? (Text.trim text.toList) = none := by
    rw [← Option.not_isSome_iff_eq_none, Numeral.read?_trim_iff]
    exact h
  simp [numeric, hvalue, hnone]

/-- The texts of both operands are read before they are compared. -/
theorem evaluate_of_reads {x y : String} (hop : op.isOrdering = true) (hx : resolve document left = .ok (some x))
    (hreads : Reads x) (hy : resolve document right = .ok (some y)) :
    (Reads y → ∃ b, evaluate document (.binary op left right) = .ok b) ∧
      (¬ Reads y → evaluate document (.binary op left right) = .error (.notANumber op y)) := by
  obtain ⟨a, ha⟩ := numeric_of_reads hx hreads
  rw [evaluate_ordering hop, ha, ok_bind]
  constructor
  · intro h
    obtain ⟨b, hb⟩ := numeric_of_reads hy h
    rw [hb]
    exact ⟨_, rfl⟩
  · intro h
    rw [numeric_of_not_reads hy h, error_bind]

theorem reads_number {n : Number} (h : n.isFinite = true) : Reads n.text :=
  Numeral.reads_of_written (Number.written_of_isFinite h)

theorem reads_literal (value : Int64) : Reads (Decimal.text value.toInt) :=
  Numeral.reads_of_written (Number.written_digits value.toInt)

theorem resolve_held {path : String} {n : Number}
    (h : (Path.ofString path).lookup? document = some (.number n)) :
    resolve document (.atom (.variable path)) = .ok (some n.text) := by
  rw [resolve, operand, Atom.value?, Path.present?, h]
  rfl

/-- A number has a text, and the text is a numeral. -/
theorem reads_of_numeric (hdocument : document.Finite) (h : Numeric document e) :
    ∃ text, resolve document e = .ok (some text) ∧ Reads text := by
  cases h with
  | literal value => exact ⟨_, rfl, reads_literal value⟩
  | @held path n hlookup =>
    have hfinite := Json.finite_of_follow hdocument hlookup
    have hn : n.isFinite = true := by
      cases hfinite with
      | number hn => exact hn
    exact ⟨n.text, resolve_held hlookup, reads_number hn⟩

end Operands

/-- An ordering accepts the numerals and no other texts, and all numbers are among the numerals. -/
theorem ordering_reads_numerals {op : Operator} (hop : op.isOrdering = true) (document : Json) (left right : Expr) :
    (∀ x, resolve document left = .ok (some x) → ¬ Reads x →
      evaluate document (.binary op left right) = .error (.notANumber op x)) ∧
    (∀ x y, resolve document left = .ok (some x) → Reads x → resolve document right = .ok (some y) →
      (Reads y → ∃ b, evaluate document (.binary op left right) = .ok b) ∧
      (¬ Reads y → evaluate document (.binary op left right) = .error (.notANumber op y))) ∧
    (∀ n : Number, n.isFinite = true → Reads n.text) ∧
    (∀ value : Int64, Reads (Decimal.text value.toInt)) ∧
    (∀ text, Json.document? text = some document → document.Finite) ∧
    (document.Finite → Numeric document left → Numeric document right →
      ∃ b, evaluate document (.binary op left right) = .ok b) := by
  refine ⟨?_, ?_, fun _ => reads_number, reads_literal, fun _ => Json.finite_of_document?, ?_⟩
  · intro x hx h
    rw [evaluate_ordering hop, numeric_of_not_reads hx h, error_bind]
  · intro x y hx hreads hy
    exact evaluate_of_reads hop hx hreads hy
  · intro hdocument hleft hright
    obtain ⟨x, hx, hxreads⟩ := reads_of_numeric hdocument hleft
    obtain ⟨y, hy, hyreads⟩ := reads_of_numeric hdocument hright
    exact (evaluate_of_reads hop hx hxreads hy).1 hyreads

/-- White space and a sign are accepted around the word for infinity, another spelling of it is not. -/
theorem ordering_reads_numerals_infinity :
    let document := Json.object [("n", .number (.double (.signed true 1)))]
    evaluate document (.binary .less (.atom (.text " inf")) (.atom (.variable "n"))) =
        .error (.notANumber .less " inf") ∧
      (∃ b, evaluate document (.binary .less (.atom (.text " -Infinity ")) (.atom (.text "1.e-3"))) = .ok b) ∧
      ∃ b, evaluate document (.binary .less (.atom (.number 7)) (.atom (.variable "n"))) = .ok b := by
  intro document
  have hop : Operator.less.isOrdering = true := rfl
  have hdocument : document.Finite := .object (List.forall_mem_singleton.mpr (.number rfl))
  have hleft := (ordering_reads_numerals hop document (.atom (.text " inf")) (.atom (.variable "n"))).1
  have hboth := (ordering_reads_numerals hop document (.atom (.text " -Infinity ")) (.atom (.text "1.e-3"))).2.1
  have hnumbers := (ordering_reads_numerals hop document (.atom (.number 7)) (.atom (.variable "n"))).2.2.2.2.2
  exact ⟨hleft _ rfl (by decide), (hboth _ _ rfl (by decide) rfl).1 (by decide),
    hnumbers hdocument (.literal 7) (.held rfl)⟩

end Criterion.Expr
