import Criterion.Expr.Parse
import Criterion.Proofs.Decimal

/-! The grammar of expressions over lexemes, with the tree that each derivation builds. Every level of
precedence groups to the left, and the operand rules are side conditions of the productions that join
two trees. The grammar is written without the parser; its leaves and side conditions are then shown to be
what the parser checks. -/
namespace Criterion.Grammar

/-- A sign is optional in the text of an integer, a digit is not. -/
inductive Integer : List Char → Int → Prop
  | unsigned {ds : List Char} : ds ≠ [] → (∀ d ∈ ds, d.isDigit = true) → Integer ds (Decimal.ofDigits ds)
  | plus {ds : List Char} : ds ≠ [] → (∀ d ∈ ds, d.isDigit = true) → Integer ('+' :: ds) (Decimal.ofDigits ds)
  | minus {ds : List Char} : ds ≠ [] → (∀ d ∈ ds, d.isDigit = true) →
      Integer ('-' :: ds) (-(Decimal.ofDigits ds : Int))

/-- The lexemes that are operands by themselves. The text of a number must name a 64-bit integer. -/
inductive Leaf : Lexeme → Atom → Prop
  | variable (path : String) : Leaf ⟨.variable, path⟩ (.variable path)
  | text (value : String) : Leaf ⟨.text, value⟩ (.text value)
  | truth (value : Bool) (spelling : String) : Leaf ⟨.truth value, spelling⟩ (.truth value)
  | null (spelling : String) : Leaf ⟨.null, spelling⟩ .null
  | number {spelling : String} {value : Int64} :
      Integer spelling.toList value.toInt → Leaf ⟨.number, spelling⟩ (.number value)

/-- A text, number or null standing by itself. -/
inductive Bare : Expr → Prop
  | text (value : String) : Bare (.atom (.text value))
  | number (value : Int64) : Bare (.atom (.number value))
  | null : Bare (.atom .null)

inductive Comparable : Expr → Expr → Prop
  | variableLeft (path : String) (e : Expr) : Comparable (.atom (.variable path)) e
  | variableRight (e : Expr) (path : String) : Comparable e (.atom (.variable path))
  | numbers (x y : Int64) : Comparable (.atom (.number x)) (.atom (.number y))
  | texts (x y : String) : Comparable (.atom (.text x)) (.atom (.text y))
  | truths (x y : Bool) : Comparable (.atom (.truth x)) (.atom (.truth y))
  | nulls : Comparable (.atom .null) (.atom .null)

inductive Nonterminal where
  | expression
  | term
  | comparison
  | primary

/-- The lexemes derive the tree from the nonterminal. -/
inductive Derives : Nonterminal → List Lexeme → Expr → Prop
  | leaf {l : Lexeme} {a : Atom} : Leaf l a → Derives .primary [l] (.atom a)
  | group {ls : List Lexeme} {e : Expr} (s t : String) :
      Derives .expression ls e → Derives .primary (⟨.leftParen, s⟩ :: ls ++ [⟨.rightParen, t⟩]) e
  | operand {ls : List Lexeme} {e : Expr} : Derives .primary ls e → Derives .comparison ls e
  | compare {ls rs : List Lexeme} {left right : Expr} {op : Operator} (s : String) :
      Derives .comparison ls left → Derives .primary rs right → op.isLogical = false → Comparable left right →
      Derives .comparison (ls ++ ⟨.operator op, s⟩ :: rs) (.binary op left right)
  | conjunct {ls : List Lexeme} {e : Expr} : Derives .comparison ls e → Derives .term ls e
  | and {ls rs : List Lexeme} {left right : Expr} (s : String) :
      Derives .term ls left → Derives .comparison rs right → ¬ Bare left → ¬ Bare right →
      Derives .term (ls ++ ⟨.operator .and, s⟩ :: rs) (.binary .and left right)
  | disjunct {ls : List Lexeme} {e : Expr} : Derives .term ls e → Derives .expression ls e
  | or {ls rs : List Lexeme} {left right : Expr} (s : String) :
      Derives .expression ls left → Derives .term rs right → ¬ Bare left → ¬ Bare right →
      Derives .expression (ls ++ ⟨.operator .or, s⟩ :: rs) (.binary .or left right)

/-- What may stand as a whole text: an expression that is not a bare text, number or null. -/
def Sentence (ls : List Lexeme) (e : Expr) : Prop := Derives .expression ls e ∧ ¬ Bare e

theorem integer?_eq_some_iff {cs : List Char} {n : Int} : Decimal.integer? cs = some n ↔ Integer cs n := by
  constructor
  · intro h
    unfold Decimal.integer? at h
    split at h <;> obtain ⟨m, hm, rfl⟩ := Option.map_eq_some_iff.mp h
    · obtain ⟨hne, hd, rfl⟩ := Decimal.unsigned?_eq_some_iff.mp hm
      exact .plus hne hd
    · obtain ⟨k, hk, hm⟩ := Option.bind_eq_some_iff.mp hm
      obtain rfl := Option.some.inj hm
      obtain ⟨hne, hd, rfl⟩ := Decimal.unsigned?_eq_some_iff.mp hk
      exact .minus hne hd
    · obtain ⟨hne, hd, rfl⟩ := Decimal.unsigned?_eq_some_iff.mp hm
      exact .unsigned hne hd
  · intro h
    have hread {ds : List Char} (hne : ds ≠ []) (hd : ∀ d ∈ ds, d.isDigit = true) :
        Decimal.unsigned? ds = some (Decimal.ofDigits ds) :=
      Decimal.unsigned?_eq_some_iff.mpr ⟨hne, hd, rfl⟩
    cases h with
    | plus hne hd => simp [Decimal.integer?, hread hne hd]
    | minus hne hd => simp [Decimal.integer?, hread hne hd]
    | unsigned hne hd =>
      unfold Decimal.integer?
      split
      · simp at hd
      · simp at hd
      · simp [hread hne hd]

theorem atom_eq_ok_iff {l : Lexeme} {position : Nat} {a : Atom} :
    Expr.Parse.atom l position = .ok a ↔ Leaf l a := by
  obtain ⟨kind, spelling⟩ := l
  constructor
  · intro h
    cases kind <;> simp only [Expr.Parse.atom, Except.ok.injEq, reduceCtorEq] at h
    · exact h ▸ .variable _
    · exact h ▸ .text _
    · split at h
      · rename_i value hv
        obtain rfl := Except.ok.inj h
        obtain ⟨n, hn, hi⟩ := Option.bind_eq_some_iff.mp hv
        obtain rfl := Decimal.int64?_eq_some_iff.mp hi
        exact .number (integer?_eq_some_iff.mp hn)
      · contradiction
    · exact h ▸ .truth _ _
    · exact h ▸ .null _
  · intro h
    cases h with
    | number h =>
      have hv := integer?_eq_some_iff.mpr h
      simp [Expr.Parse.atom, hv, Decimal.int64?_eq_some_iff.mpr rfl]
    | _ => rfl

theorem isValueLiteral_iff {e : Expr} : e.isValueLiteral = true ↔ Bare e := by
  constructor
  · intro h
    cases e with
    | binary => contradiction
    | atom a =>
      cases a with
      | text value => exact .text value
      | number value => exact .number value
      | null => exact .null
      | _ => contradiction
  · rintro ⟨⟩ <;> rfl

theorem isValueLiteral_eq_false {e : Expr} (h : ¬ Bare e) : e.isValueLiteral = false := by
  rw [← Bool.not_eq_true, isValueLiteral_iff]
  exact h

theorem comparable_iff {left right : Expr} : Expr.Parse.comparable left right = true ↔ Comparable left right := by
  constructor
  · intro h
    cases left with
    | binary op l r =>
      cases right with
      | binary => contradiction
      | atom b => cases b <;> first | exact .variableRight _ _ | contradiction
    | atom a =>
      cases right with
      | binary => cases a <;> first | exact .variableLeft _ _ | contradiction
      | atom b =>
        -- Off the diagonal only a variable is comparable.
        cases a <;> cases b <;> first | exact .variableLeft _ _ | exact .variableRight _ _ | skip
        all_goals first | exact .numbers _ _ | exact .texts _ _ | exact .truths _ _ | exact .nulls | contradiction
  · intro h
    cases h with
    | variableRight =>
      cases left with
      | atom a => cases a <;> rfl
      | binary => rfl
    | _ => rfl

end Criterion.Grammar
