import Criterion.Proofs.Encoding
import Criterion.Proofs.Extent
import Criterion.Proofs.Json.Spelling
import Criterion.Proofs.Rendering
import Criterion.Proofs.Respelling
import Mathlib.Data.List.Forall2

/-! What a tree is read from. Gone through from left to right, a tree says its text again, one lexeme for each of its
nodes and none for a parenthesis. A text within a limit has no more lexemes than that, so its tree is at most half as
deep, and so is the JSON text under which the tree is stored. -/
namespace Criterion

namespace Expr

def nodes : Expr → Nat
  | .atom _ => 1
  | .binary _ left right => left.nodes + right.nodes + 1

/-- What stands at a node. -/
inductive Item where
  | operator (op : Operator)
  | leaf (a : Atom)
  deriving DecidableEq, Repr

/-- The operators and the leaves of the tree from left to right. -/
def items : Expr → List Item
  | .atom a => [.leaf a]
  | .binary op left right => left.items ++ .operator op :: right.items

theorem length_items (e : Expr) : e.items.length = e.nodes := by
  induction e with
  | atom a => rfl
  | binary op left right hl hr => rw [items, nodes, List.length_append, List.length_cons, hl, hr, Nat.add_assoc]

/-- Every level but the last has a second operand beside the way down. -/
theorem two_mul_levels_le (e : Expr) : 2 * e.levels ≤ e.nodes + 1 := by
  induction e with
  | atom a => exact Nat.le_refl _
  | binary op left right hl hr =>
    have hleft : 0 < left.nodes := by cases left <;> simp [nodes]
    have hright : 0 < right.nodes := by cases right <;> simp [nodes]
    rw [levels, nodes]
    omega

end Expr

/-- The lexeme is no parenthesis, so a tree has a node for it. -/
def Lexeme.counts (l : Lexeme) : Bool :=
  match l.kind with
  | .leftParen | .rightParen => false
  | _ => true

namespace Grammar

/-- The lexeme is what the node is read from. -/
inductive Stands : Lexeme → Expr.Item → Prop
  | operator (op : Operator) (s : String) : Stands ⟨.operator op, s⟩ (.operator op)
  | leaf {l : Lexeme} {a : Atom} (h : Leaf l a) : Stands l (.leaf a)

variable {n : Nonterminal} {ls rs ks : List Lexeme} {e left right : Expr}

theorem counts_of_leaf {l : Lexeme} {a : Atom} (h : Leaf l a) : l.counts = true := by
  cases h <;> rfl

theorem filter_group (s t : String) :
    (⟨.leftParen, s⟩ :: ls ++ [⟨.rightParen, t⟩] : List Lexeme).filter Lexeme.counts = ls.filter Lexeme.counts := by
  simp [Lexeme.counts]

/-- The lexemes of an operation are those of its operands with the operator between them. -/
theorem stands_binary {op : Operator} (s : String) (hl : List.Forall₂ Stands (ls.filter Lexeme.counts) left.items)
    (hr : List.Forall₂ Stands (rs.filter Lexeme.counts) right.items) :
    List.Forall₂ Stands ((ls ++ ⟨.operator op, s⟩ :: rs).filter Lexeme.counts) (Expr.binary op left right).items := by
  have hcounts : Lexeme.counts ⟨.operator op, s⟩ = true := rfl
  rw [List.filter_append, List.filter_cons_of_pos hcounts]
  exact List.rel_append hl (.cons (.operator op s) hr)

/-- No lexeme of a text is lost, used twice or moved on the way to its tree, and only parentheses leave no node. -/
theorem stands_of_derives (h : Derives n ls e) : List.Forall₂ Stands (ls.filter Lexeme.counts) e.items := by
  induction h with
  | leaf h =>
    rw [List.filter_cons_of_pos (counts_of_leaf h)]
    exact .cons (.leaf h) .nil
  | group s t _ ih => rwa [filter_group]
  | operand _ ih | conjunct _ ih | disjunct _ ih => exact ih
  | compare s _ _ _ _ ihl ihr | and s _ _ _ _ ihl ihr | or s _ _ _ _ ihl ihr => exact stands_binary s ihl ihr

end Grammar

namespace Token

theorem length_le_of_tokenize {text : String} {tokens : List Token} (h : tokenize text = .ok tokens) :
    tokens.length ≤ text.length := by
  have hlaid : Laid 0 text.toList tokens := by simpa using laid_of_scanFrom h
  rw [← String.length_toList]
  exact hlaid.length_le

end Token

namespace Registry

open Grammar

/-- What is kept of a text of a limited length: a tree that has one node for each lexeme that is no parenthesis, in
the order of the text, and whose stored form nests no deeper than half the limit. Reading that form therefore needs
no limit of its own. -/
structure Within (limit : Nat) (c : Compiled) (tokens : List Token) : Prop where
  stands : List.Forall₂ Stands ((tokens.map Token.toLexeme).filter Lexeme.counts) c.tree.items
  nodes : c.tree.nodes = (tokens.map Token.toLexeme).countP Lexeme.counts
  short : c.tree.nodes ≤ c.expression.length ∧ c.expression.length ≤ limit
  decoded : Expr.ofEncoded c.encoded = .ok c.tree
  nesting : ∃ v, Json.read? none c.encoded = some v ∧ Json.nesting v = c.tree.levels ∧ Json.nesting v ≤ (limit + 1) / 2
  unlimited : Json.read? none c.encoded = Json.read? (some ((limit + 1) / 2)) c.encoded

variable {limit : Nat} {text : String} {c : Compiled}

theorem levels_le {e : Expr} (h : e.nodes ≤ limit) : e.levels ≤ (limit + 1) / 2 := by
  have := e.two_mul_levels_le
  omega

/-- The limit on the length of a text is a limit on the size and on the depth of its tree. -/
theorem compileWithin_bounded (h : compileWithin limit text = .ok c) :
    ∃ tokens, Token.tokenize c.expression = .ok tokens ∧ Within limit c tokens := by
  obtain ⟨-, hshort, htree, hencoded⟩ := compileWithin_eq_ok_iff.mp h
  obtain ⟨tokens, htokens, hparse⟩ := Expr.compile_eq_ok_iff.mp htree
  have hstands := stands_of_derives (sentence_of_parse hparse).1
  have hnodes : c.tree.nodes = (tokens.map Token.toLexeme).countP Lexeme.counts := by
    rw [List.countP_eq_length_filter, hstands.length_eq, Expr.length_items]
  have hlength : c.tree.nodes ≤ c.expression.length := by
    calc c.tree.nodes = (tokens.map Token.toLexeme).countP Lexeme.counts := hnodes
      _ ≤ (tokens.map Token.toLexeme).length := List.countP_le_length
      _ = tokens.length := List.length_map _
      _ ≤ c.expression.length := Token.length_le_of_tokenize htokens
  have hlevels : Json.nesting c.tree.toJson ≤ (limit + 1) / 2 := by
    rw [Expr.nesting_toJson]
    exact levels_le (hlength.trans hshort)
  have hread : Json.read? none c.encoded = some c.tree.toJson := hencoded ▸ Expr.read?_encode c.tree
  refine ⟨tokens, htokens, hstands, hnodes, ⟨hlength, hshort⟩, hencoded ▸ Expr.ofEncoded_encode c.tree,
    ⟨c.tree.toJson, hread, Expr.nesting_toJson c.tree, hlevels⟩, ?_⟩
  rw [hread, hencoded, Expr.encode, Json.read?_compact_limited (Expr.whole_toJson c.tree), if_pos hlevels]

/-- In a chain of comparisons without spaces every second character adds a level, and no tree is deeper. -/
theorem compileWithin_bounded_chain :
    let a : Expr := .atom (.variable "a")
    let tree : Expr := .binary .less (.binary .less a a) a
    compileWithin 5 "a<a<a" = .ok ⟨"a<a<a", tree, tree.encode⟩ ∧ tree.levels = (5 + 1) / 2 ∧
      ∃ tokens, Token.tokenize "a<a<a" = .ok tokens ∧ Within 5 ⟨"a<a<a", tree, tree.encode⟩ tokens := by
  intro a tree
  have hcompiled : compileWithin 5 "a<a<a" = .ok ⟨"a<a<a", tree, tree.encode⟩ := rfl
  exact ⟨hcompiled, rfl, compileWithin_bounded hcompiled⟩

end Registry

end Criterion
