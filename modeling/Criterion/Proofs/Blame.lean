import Criterion.Proofs.Chain
import Criterion.Proofs.Dependence
import Criterion.Proofs.Rendering

/-! What an error of evaluation is due to. It names a leaf that is to be true or false and has no value, an
operand of an ordering that has no value, or one whose text is no number; a tree with none of these has a truth. -/
namespace Criterion

/-- The operators that compare numbers. -/
def Operator.isOrdering : Operator → Bool
  | .less | .atMost | .greater | .atLeast => true
  | _ => false

namespace Expr

/-- The tree `part` stands somewhere in a tree. -/
inductive Part (part : Expr) : Expr → Prop
  | whole : Part part part
  | left {op : Operator} {left right : Expr} : Part part left → Part part (.binary op left right)
  | right {op : Operator} {left right : Expr} : Part part right → Part part (.binary op left right)

/-- The tree holds the operator with this operand on one of its sides. -/
def Takes (e : Expr) (op : Operator) (operand : Expr) : Prop :=
  ∃ other, Part (.binary op operand other) e ∨ Part (.binary op other operand) e

/-- The leaf is to be true or false: it is the whole tree or an operand of AND or OR. -/
def Tests (e : Expr) (a : Atom) : Prop := e = .atom a ∨ ∃ op, op.isLogical = true ∧ e.Takes op (.atom a)

/-- What in the tree an error can be blamed on. -/
inductive Culprit (document : Json) (e : Expr) : EvalError → Prop
  | condition {a : Atom} (h : e.Tests a) (hvalue : resolve document (.atom a) = .ok none) :
      Culprit document e (.missingCondition a.render)
  | absent {op : Operator} {operand : Expr} (hop : op.isOrdering = true) (h : e.Takes op operand)
      (hvalue : resolve document operand = .ok none) : Culprit document e (.missingNumber op operand.render)
  | wordy {op : Operator} {operand : Expr} {text : String} (hop : op.isOrdering = true) (h : e.Takes op operand)
      (hvalue : resolve document operand = .ok (some text)) (hnumber : Numeral.read? (Text.trim text.toList) = none) :
      Culprit document e (.notANumber op text)

variable {document : Json} {e left right operand : Expr} {op : Operator} {x : EvalError}

section Parts

theorem part_trans {part whole : Expr} (h : Part part e) (hwhole : Part e whole) : Part part whole := by
  induction hwhole with
  | whole => exact h
  | left _ ih => exact .left ih
  | right _ ih => exact .right ih

theorem takes_of_part {whole : Expr} (hpart : Part e whole) (h : e.Takes op operand) : whole.Takes op operand := by
  obtain ⟨other, h⟩ := h
  exact ⟨other, h.imp (part_trans · hpart) (part_trans · hpart)⟩

theorem part_of_side (h : e = left ∨ e = right) : Part e (.binary op left right) := by
  rcases h with rfl | rfl
  · exact .left .whole
  · exact .right .whole

theorem takes_of_side (h : e = left ∨ e = right) : (Expr.binary op left right).Takes op e := by
  rcases h with rfl | rfl
  · exact ⟨right, .inl .whole⟩
  · exact ⟨left, .inr .whole⟩

end Parts

section Errors

/-- What an operand is to blame for, the operation is to blame for, but a leaf is tested by AND and OR only. -/
theorem culprit_of_side (hside : e = left ∨ e = right) (hleaf : ∀ a, e = .atom a → op.isLogical = true)
    (h : Culprit document e x) : Culprit document (.binary op left right) x := by
  have hpart : Part e (.binary op left right) := part_of_side hside
  cases h with
  | condition ha hvalue =>
    refine .condition (.inr ?_) hvalue
    rcases ha with hroot | ⟨inner, hinner, htakes⟩
    · exact ⟨op, hleaf _ hroot, hroot ▸ takes_of_side hside⟩
    · exact ⟨inner, hinner, takes_of_part hpart htakes⟩
  | absent hop htakes hvalue => exact .absent hop (takes_of_part hpart htakes) hvalue
  | wordy hop htakes hvalue hnumber => exact .wordy hop (takes_of_part hpart htakes) hvalue hnumber

/-- Only an operation can fail to be an operand, and then it has failed by itself. -/
theorem resolve_eq_error (h : resolve document e = .error x) :
    evaluate document e = .error x ∧ ∀ a, e ≠ .atom a := by
  cases e with
  | atom a => contradiction
  | binary op left right =>
    refine ⟨?_, nofun⟩
    rw [resolve, operand] at h
    cases hverdict : evaluate document (.binary op left right) with
    | ok b =>
      rw [hverdict] at h
      contradiction
    | error y =>
      rw [hverdict] at h
      exact congrArg Except.error (Except.error.inj h)

theorem numeric_eq_error {value : Except EvalError (Option String)} (h : numeric op e value = .error x) :
    value = .error x ∨ (value = .ok none ∧ x = .missingNumber op e.render) ∨
      ∃ text, value = .ok (some text) ∧ Numeral.read? (Text.trim text.toList) = none ∧ x = .notANumber op text := by
  unfold numeric at h
  rcases bind_eq_error_iff.mp h with hvalue | ⟨text, hvalue, h⟩
  · exact .inl hvalue
  · cases text with
    | none => exact .inr (.inl ⟨hvalue, (Except.error.inj h).symm⟩)
    | some text =>
      dsimp only at h
      split at h
      · contradiction
      · rename_i hnumber
        exact .inr (.inr ⟨text, hvalue, hnumber, (Except.error.inj h).symm⟩)

/-- A comparison fails where one of its operands cannot be had. -/
theorem compared_eq_error {α β : Type} {f g : Except EvalError α} {r : α → α → β}
    (h : (do let a ← f; let b ← g; return r a b) = .error x) : f = .error x ∨ g = .error x := by
  rcases bind_eq_error_iff.mp h with hf | ⟨a, -, h⟩
  · exact .inl hf
  · rcases bind_eq_error_iff.mp h with hg | ⟨b, -, h⟩
    · exact .inr hg
    · contradiction

theorem culprit_of_error (h : evaluate document e = .error x) : Culprit document e x := by
  induction e generalizing x with
  | atom a =>
    rw [evaluate, condition] at h
    split at h
    · contradiction
    · rename_i hnone
      obtain rfl := Except.error.inj h
      exact .condition (.inl rfl) (congrArg Except.ok hnone)
  | binary op left right ihl ihr =>
    -- The operand fails by itself.
    have hverdict {side : Expr} (hside : side = left ∨ side = right) (hleaf : ∀ a, side = .atom a → op.isLogical = true)
        (hx : evaluate document side = .error x) : Culprit document (.binary op left right) x := by
      refine culprit_of_side hside hleaf ?_
      rcases hside with rfl | rfl
      · exact ihl hx
      · exact ihr hx
    have hvalue {side : Expr} (hside : side = left ∨ side = right) (hx : resolve document side = .error x) :
        Culprit document (.binary op left right) x := by
      obtain ⟨heval, hbinary⟩ := resolve_eq_error hx
      exact hverdict hside (fun a ha => absurd ha (hbinary a)) heval
    have hnumber {side : Expr} (hop : op.isOrdering = true) (hside : side = left ∨ side = right)
        (hx : numeric op side (resolve document side) = .error x) : Culprit document (.binary op left right) x := by
      rcases numeric_eq_error hx with hfailed | ⟨hnone, rfl⟩ | ⟨text, hsome, hwordy, rfl⟩
      · exact hvalue hside hfailed
      · exact .absent hop (takes_of_side hside) hnone
      · exact .wordy hop (takes_of_side hside) hsome hwordy
    cases op with
    | and | or =>
      rw [evaluate_logical rfl] at h
      rcases bind_eq_error_iff.mp h with hleft | ⟨b, -, hright⟩
      · exact hverdict (.inl rfl) (fun _ _ => rfl) hleft
      · split at hright
        · exact hverdict (.inr rfl) (fun _ _ => rfl) hright
        · contradiction
    | equal | unequal =>
      rcases compared_eq_error h with hleft | hright
      · exact hvalue (.inl rfl) hleft
      · exact hvalue (.inr rfl) hright
    | less | atMost | greater | atLeast =>
      rcases compared_eq_error h with hleft | hright
      · exact hnumber rfl (.inl rfl) hleft
      · exact hnumber rfl (.inr rfl) hright

end Errors

section Parsed

open Grammar

variable {ls : List Lexeme}

theorem suits_of_derives {n : Nonterminal} (h : Derives n ls e) (hpart : Part (.binary op left right) e) :
    Suits op left right := by
  induction h with
  | leaf => contradiction
  | group _ _ _ ih | operand _ ih | conjunct _ ih | disjunct _ ih => exact ih hpart
  | compare s _ _ hop hc ihl ihr =>
    cases hpart with
    | whole =>
      rw [Suits, hop]
      exact hc
    | left hl => exact ihl hl
    | right hr => exact ihr hr
  | and s _ _ hbl hbr ihl ihr | or s _ _ hbl hbr ihl ihr =>
    cases hpart with
    | whole => exact ⟨hbl, hbr⟩
    | left hl => exact ihl hl
    | right hr => exact ihr hr

/-- In a parsed tree no text, number or null is tested. -/
theorem not_bare_of_tests (h : parse ls = .ok e) {a : Atom} (ha : e.Tests a) : ¬ Bare (.atom a) := by
  obtain ⟨hderives, hroot⟩ := sentence_of_parse h
  rcases ha with rfl | ⟨op, hop, other, hpart | hpart⟩
  · exact hroot
  · have hsuits := suits_of_derives hderives hpart
    rw [Suits, if_pos hop] at hsuits
    exact hsuits.1
  · have hsuits := suits_of_derives hderives hpart
    rw [Suits, if_pos hop] at hsuits
    exact hsuits.2

/-- What is tested and has no value is a variable. -/
theorem variable_of_tests (h : parse ls = .ok e) {a : Atom} (ha : e.Tests a)
    (hvalue : resolve document (.atom a) = .ok none) : a = .variable a.render := by
  have hbare := not_bare_of_tests h ha
  cases a with
  | «variable» path => rfl
  | text value => exact absurd (.text value) hbare
  | number value => exact absurd (.number value) hbare
  | truth value =>
    have hsome : some (truthText value) = none := Except.ok.inj hvalue
    contradiction
  | null => exact absurd .null hbare

end Parsed

/-- Every error has its culprit in the tree, and a tree without culprits has a truth. In a tree that was parsed
the culprit of a missing condition is a variable. -/
theorem evaluate_blames (document : Json) (e : Expr) :
    (∀ x, evaluate document e = .error x → Culprit document e x) ∧
      ((∀ x, ¬ Culprit document e x) → ∃ b, evaluate document e = .ok b) ∧
      ∀ ls operand, parse ls = .ok e → evaluate document e = .error (.missingCondition operand) →
        e.Tests (.variable operand) ∧ resolve document (.atom (.variable operand)) = .ok none := by
  refine ⟨fun x => culprit_of_error, fun hnone => ?_, fun ls operand hparse hx => ?_⟩
  · cases h : evaluate document e with
    | ok b => exact ⟨b, rfl⟩
    | error x => exact absurd (culprit_of_error h) (hnone x)
  · generalize hy : EvalError.missingCondition operand = y at hx
    cases culprit_of_error hx with
    | condition ha hvalue =>
      obtain rfl := EvalError.missingCondition.inj hy
      have hvariable := variable_of_tests hparse ha hvalue
      rw [← hvariable]
      exact ⟨ha, hvalue⟩
    | absent => contradiction
    | wordy => contradiction

theorem evaluate_blames_variable :
    let document : Json := .object [("a", .string "True")]
    let e : Expr := .binary .and (.atom (.variable "a")) (.atom (.variable "b.c"))
    evaluate document e = .error (.missingCondition "b.c") ∧ Culprit document e (.missingCondition "b.c") ∧
      e.Tests (.variable "b.c") := by
  intro document e
  have hparse : parse [⟨.variable, "a"⟩, ⟨.operator .and, "AND"⟩, ⟨.variable, "b.c"⟩] = .ok e := rfl
  have h : evaluate document e = .error (.missingCondition "b.c") := rfl
  obtain ⟨hculprit, -, hvariable⟩ := evaluate_blames document e
  exact ⟨h, hculprit _ h, (hvariable _ _ hparse h).1⟩

end Expr

end Criterion
