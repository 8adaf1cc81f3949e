import Criterion.Expr.Evaluate
import Criterion.Proofs.Failure

/-! What evaluation reads of a document. At a path the document says a text or says nothing, and documents that
say the same at every path that a tree mentions give the tree the same outcome, be it a truth or an error. -/
namespace Criterion

namespace Path

/-- What a document says at a path. A null says as little as a missing value, and arrays and objects say the
empty text. -/
inductive Says (document : Json) (p : Path) : Option String → Prop
  | missing : p.lookup? document = none → Says document p none
  | null : p.lookup? document = some .null → Says document p none
  | string {s : String} : p.lookup? document = some (.string s) → Says document p (some s)
  | number {n : Number} : p.lookup? document = some (.number n) → Says document p (some n.text)
  | bool {b : Bool} : p.lookup? document = some (.bool b) → Says document p (some (truthText b))
  | array {items : List Json} : p.lookup? document = some (.array items) → Says document p (some "")
  | object {members : List (String × Json)} : p.lookup? document = some (.object members) → Says document p (some "")

theorem says_iff {document : Json} {p : Path} {text : Option String} :
    p.Says document text ↔ (p.present? document).map Json.scalarText = text := by
  unfold present?
  constructor
  · intro h
    cases h with
    | missing h | null h | string h | number h | bool h | array h | object h => simp [h, Json.scalarText]
  · rintro rfl
    cases h : p.lookup? document with
    | none => exact .missing h
    | some v =>
      cases v with
      | null => exact .null h
      | bool => exact .bool h
      | number => exact .number h
      | string => exact .string h
      | array => exact .array h
      | object => exact .object h

/-- Both documents say the same at the path. -/
def Alike (first second : Json) (p : Path) : Prop := ∃ text, p.Says first text ∧ p.Says second text

end Path

namespace Expr

/-- The paths of the variables, from left to right. -/
def paths : Expr → List String
  | .atom (.variable path) => [path]
  | .atom _ => []
  | .binary _ left right => left.paths ++ right.paths

/-- The documents cannot be told apart by what they say at the variables of the tree. -/
def Indistinct (first second : Json) (e : Expr) : Prop :=
  ∀ path ∈ e.paths, (Path.ofString path).Alike first second

variable {first second : Json} {op : Operator} {left right : Expr}

theorem indistinct_binary (h : Indistinct first second (.binary op left right)) :
    Indistinct first second left ∧ Indistinct first second right :=
  ⟨fun path hpath => h path (List.mem_append_left _ hpath), fun path hpath => h path (List.mem_append_right _ hpath)⟩

theorem value?_of_indistinct {a : Atom} (h : Indistinct first second (.atom a)) : a.value? first = a.value? second := by
  cases a with
  | «variable» path =>
    obtain ⟨text, hfirst, hsecond⟩ := h path (by simp [paths])
    exact (Path.says_iff.mp hfirst).trans (Path.says_iff.mp hsecond).symm
  | text | number | truth | null => rfl

/-- As an operand only an atom looks at the document by itself. -/
theorem operand_of_indistinct {e : Expr} (h : Indistinct first second e) (verdict : Except EvalError Bool) :
    e.operand first verdict = e.operand second verdict := by
  cases e with
  | atom a => exact congrArg Except.ok (value?_of_indistinct h)
  | binary => rfl

theorem evaluate_of_indistinct {e : Expr} (h : Indistinct first second e) : e.evaluate first = e.evaluate second := by
  induction e with
  | atom a => rw [evaluate, evaluate, condition, condition, value?_of_indistinct h]
  | binary op left right ihl ihr =>
    obtain ⟨hleft, hright⟩ := indistinct_binary h
    have hl := operand_of_indistinct hleft
    have hr := operand_of_indistinct hright
    cases op <;> simp only [evaluate, ihl hleft, ihr hright, hl, hr]

/-- Evaluation depends on a document only through what it says at the variables of the tree. -/
theorem outcome_of_indistinct (e : Expr) (h : Indistinct first second e) :
    e.evaluate first = e.evaluate second ∧ e.resolve first = e.resolve second := by
  have heval := evaluate_of_indistinct h
  refine ⟨heval, ?_⟩
  rw [resolve, resolve, heval, operand_of_indistinct h]

/-- A null is like a missing value and an array like an empty text. What is not mentioned may differ. -/
theorem outcome_of_indistinct_null :
    let first : Json := .object [("n", .null), ("t", .array [.bool true])]
    let second : Json := .object [("t", .string ""), ("z", .number (.whole 1))]
    let e : Expr := .binary .and (.binary .equal (.atom (.variable "t")) (.atom (.text "")))
      (.binary .less (.atom (.number 1)) (.atom (.variable "n")))
    Indistinct first second e ∧ e.evaluate first = .error (.missingNumber .less "n") ∧
      e.evaluate second = .error (.missingNumber .less "n") := by
  intro first second e
  have h : Indistinct first second e := by
    intro path hpath
    have hpath : path ∈ ["t", "n"] := hpath
    simp only [List.mem_cons, List.not_mem_nil, or_false] at hpath
    rcases hpath with rfl | rfl
    · exact ⟨some "", .array rfl, .string rfl⟩
    · exact ⟨none, .null rfl, .missing rfl⟩
  have hfirst : e.evaluate first = .error (.missingNumber .less "n") := rfl
  exact ⟨h, hfirst, (outcome_of_indistinct e h).1.symm.trans hfirst⟩

end Expr

end Criterion
