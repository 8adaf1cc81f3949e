import Criterion.Proofs.Lexing
import Criterion.Proofs.Parsing
import Mathlib.Tactic.TFAE

/-! Trees and their texts. A text compiles to the well-formed trees and to no others, and each of them is
what its own rendering compiles to. -/
namespace Criterion.Expr

open Grammar Token

/-- The leaves that a text can hold. A text has no sign and no escape, so numbers are not negative and text
literals hold no quote. -/
def Writable : Atom → Prop
  | .variable path => Dotted path.toList
  | .text value => '"' ∉ value.toList
  | .number value => 0 ≤ value.toInt
  | .truth _ | .null => True

/-- AND and OR take no bare text, number or null, and a comparison takes operands of one kind. -/
def Suits (op : Operator) (left right : Expr) : Prop :=
  if op.isLogical then ¬ Bare left ∧ ¬ Bare right else Comparable left right

/-- All leaves can be written, and all operators suit their operands. -/
def Sound : Expr → Prop
  | .atom a => Writable a
  | .binary op left right => Sound left ∧ Sound right ∧ Suits op left right

structure WellFormed (e : Expr) : Prop where
  root : ¬ Bare e
  sound : Sound e

theorem compile_eq_ok_iff {text : String} {e : Expr} :
    compile text = .ok e ↔
      ∃ tokens, tokenize text = .ok tokens ∧ parse (tokens.map Token.toLexeme) = .ok e := by
  unfold compile
  constructor
  · intro h
    split at h
    · contradiction
    · rename_i tokens htokens
      split at h
      · contradiction
      · rename_i tree hparse
        obtain rfl := Except.ok.inj h
        exact ⟨tokens, htokens, hparse⟩
  · rintro ⟨tokens, htokens, hparse⟩
    simp only [htokens, hparse]

section Compiled

variable {ls : List Lexeme} {e : Expr}

theorem nonneg_of_integer {cs : List Char} {n : Int} (h : Integer cs n) (hd : ∀ d ∈ cs, d.isDigit = true) :
    0 ≤ n := by
  cases h with
  | unsigned => exact Int.natCast_nonneg _
  | plus => simp at hd
  | minus => simp at hd

theorem writable_of_leaf {l : Lexeme} {a : Atom} (hl : Spelled l) (h : Leaf l a) : Writable a := by
  cases h with
  | «variable» path => exact hl
  | text value => exact hl
  | truth | null => trivial
  | number h => exact nonneg_of_integer h hl.2

theorem sound_of_derives {n : Nonterminal} (h : Derives n ls e) (hl : ∀ l ∈ ls, Spelled l) : Sound e := by
  induction h with
  | leaf h => exact writable_of_leaf (hl _ (by simp)) h
  | group s t _ ih => exact ih fun l hmem => hl l (by simp [hmem])
  | operand _ ih => exact ih hl
  | compare s _ _ hop hc ihl ihr =>
    refine ⟨ihl fun l hmem => hl l (by simp [hmem]), ihr fun l hmem => hl l (by simp [hmem]), ?_⟩
    rw [Suits, hop]
    exact hc
  | conjunct _ ih => exact ih hl
  | and s _ _ hbl hbr ihl ihr =>
    exact ⟨ihl fun l hmem => hl l (by simp [hmem]), ihr fun l hmem => hl l (by simp [hmem]), hbl, hbr⟩
  | disjunct _ ih => exact ih hl
  | or s _ _ hbl hbr ihl ihr =>
    exact ⟨ihl fun l hmem => hl l (by simp [hmem]), ihr fun l hmem => hl l (by simp [hmem]), hbl, hbr⟩

theorem wellFormed_of_compile {text : String} (h : compile text = .ok e) : WellFormed e := by
  obtain ⟨tokens, htokens, hparse⟩ := compile_eq_ok_iff.mp h
  obtain ⟨hderives, hbare⟩ := sentence_of_parse hparse
  refine ⟨hbare, sound_of_derives hderives fun l hl => ?_⟩
  obtain ⟨t, ht, rfl⟩ := List.mem_map.mp hl
  exact spelled_of_scanFrom htokens t ht

end Compiled

section Rendered

variable {e : Expr}

def leafLexeme : Atom → Lexeme
  | .variable path => ⟨.variable, path⟩
  | .text value => ⟨.text, value⟩
  | .number value => ⟨.number, Decimal.text value.toInt⟩
  | .truth value => ⟨.truth value, truthText value⟩
  | .null => ⟨.null, "null"⟩

/-- The lexemes of the rendered tree. -/
def lexemes : Expr → List Lexeme
  | .atom a => [leafLexeme a]
  | .binary op left right =>
    ⟨.leftParen, "("⟩ :: (left.lexemes ++ ⟨.operator op, op.symbol⟩ :: right.lexemes) ++ [⟨.rightParen, ")"⟩]

theorem leaf_leafLexeme {a : Atom} (h : Writable a) : Leaf (leafLexeme a) a := by
  cases a with
  | «variable» path => exact .variable path
  | text value => exact .text value
  | truth value => exact .truth value _
  | null => exact .null _
  | number value =>
    have hinteger : Integer (Nat.toDigits 10 value.toInt.natAbs) _ :=
      .unsigned Nat.toDigits_ne_nil fun _ => Decimal.isDigit_of_mem
    rw [Decimal.ofDigits_toDigits, Int.natAbs_of_nonneg h] at hinteger
    refine .number ?_
    rw [Decimal.text, String.toList_ofList, Decimal.digits_of_nonneg h]
    exact hinteger

theorem derives_lexemes (h : Sound e) : Derives .primary e.lexemes e := by
  induction e with
  | atom a => exact .leaf (leaf_leafLexeme h)
  | binary op left right hl hr =>
    obtain ⟨hleft, hright, hsuits⟩ := h
    refine .group _ _ ?_
    unfold Suits at hsuits
    split at hsuits
    · rename_i hop
      cases op with
      | and => exact .disjunct (.and _ (.conjunct (.operand (hl hleft))) (.operand (hr hright)) hsuits.1 hsuits.2)
      | or =>
        exact .or _ (.disjunct (.conjunct (.operand (hl hleft)))) (.conjunct (.operand (hr hright))) hsuits.1 hsuits.2
      | _ => contradiction
    · rename_i hop
      exact .disjunct (.conjunct (.compare _ (.operand (hl hleft)) (hr hright) (by simpa using hop) hsuits))

theorem cut_leaf {a : Atom} {rest : List Char} {ls : List Lexeme} (ha : Writable a) (hr : Ends rest)
    (h : Cut rest ls) : Cut (a.render.toList ++ rest) (leafLexeme a :: ls) := by
  cases a with
  | «variable» path => simpa [Atom.render, leafLexeme] using cut_dotted ha hr h
  | text value => simpa [Atom.render, leafLexeme] using cut_quoted ha h
  | number value =>
    have hcut : Cut (Nat.toDigits 10 value.toInt.natAbs ++ rest) _ :=
      cut_digits Nat.toDigits_ne_nil (fun _ => Decimal.isDigit_of_mem) hr h
    simpa [Atom.render, leafLexeme, Decimal.text, Decimal.digits_of_nonneg ha] using hcut
  | truth value =>
    cases value with
    | true =>
      have hkey : keyword? ('t' :: ['r', 'u', 'e']) = some (.truth true) := rfl
      exact cut_keyword hkey (by rfl) (by rfl) (by rfl) hr h
    | false =>
      have hkey : keyword? ('f' :: ['a', 'l', 's', 'e']) = some (.truth false) := rfl
      exact cut_keyword hkey (by rfl) (by rfl) (by rfl) hr h
  | null =>
    have hkey : keyword? ('n' :: ['u', 'l', 'l']) = some .null := rfl
    exact cut_keyword hkey (by rfl) (by rfl) (by rfl) hr h

theorem cut_render {rest : List Char} {ls : List Lexeme} (he : Sound e) (hr : Ends rest) (h : Cut rest ls) :
    Cut (e.render.toList ++ rest) (e.lexemes ++ ls) := by
  induction e generalizing rest ls with
  | atom a => exact cut_leaf he hr h
  | binary op left right hl hr' =>
    obtain ⟨hleft, hright, -⟩ := he
    have hclose := cut_rightParen h
    have hsecond := hr' hright (ends_cons rest (by decide)) hclose
    have hfirst := hl hleft (ends_cons _ (by decide)) (cut_space (cut_symbol op hsecond))
    simpa [render, lexemes] using cut_leftParen hfirst

theorem compile_render (h : WellFormed e) : compile e.render = .ok e := by
  have hcut := cut_render h.sound ends_nil cut_nil
  rw [List.append_nil, List.append_nil] at hcut
  obtain ⟨tokens, htokens, hlexemes⟩ := hcut 0
  refine compile_eq_ok_iff.mpr ⟨tokens, htokens, ?_⟩
  rw [hlexemes]
  exact parse_of_sentence ⟨.disjunct (.conjunct (.operand (derives_lexemes h.sound))), h.root⟩

end Rendered

section Joined

/-- Conditions joined by AND, which groups to the left. -/
def conjoin (first : Expr) (rest : List Expr) : Expr := rest.foldl (.binary .and) first

/-- The text of the conditions that follow the first one, without parentheses around the joins. -/
def furtherText (rest : List Expr) : List Char :=
  rest.flatMap fun e => ' ' :: 'A' :: 'N' :: 'D' :: ' ' :: e.render.toList

def furtherLexemes (rest : List Expr) : List Lexeme := rest.flatMap fun e => ⟨.operator .and, "AND"⟩ :: e.lexemes

theorem derives_conjoin {ls : List Lexeme} {first : Expr} {rest : List Expr} (h : Derives .term ls first)
    (hfirst : ¬ Bare first) (hrest : ∀ e ∈ rest, WellFormed e) :
    Derives .term (ls ++ furtherLexemes rest) (conjoin first rest) ∧ ¬ Bare (conjoin first rest) := by
  induction rest generalizing ls first with
  | nil =>
    rw [furtherLexemes, List.flatMap_nil, List.append_nil]
    exact ⟨h, hfirst⟩
  | cons e es ih =>
    have he : WellFormed e := hrest e (by simp)
    have hjoined := Derives.and "AND" h (.operand (derives_lexemes he.sound)) hfirst he.root
    rw [furtherLexemes, List.flatMap_cons, ← List.append_assoc]
    exact ih hjoined nofun fun e' he' => hrest e' (List.mem_cons_of_mem e he')

theorem cut_furtherText {rest : List Expr} (hrest : ∀ e ∈ rest, WellFormed e) :
    Ends (furtherText rest) ∧ Cut (furtherText rest) (furtherLexemes rest) := by
  induction rest with
  | nil => exact ⟨ends_nil, cut_nil⟩
  | cons e es ih =>
    obtain ⟨hends, hcut⟩ := ih fun e' he' => hrest e' (List.mem_cons_of_mem e he')
    have he := cut_render (hrest e (by simp)).sound hends hcut
    exact ⟨ends_cons _ (by decide), cut_space (cut_symbol .and he)⟩

/-- Conditions that stand one after the other, joined by AND, are read as the tree that joins them. -/
theorem compile_conditions {text : String} {first : Expr} {rest : List Expr} (hfirst : WellFormed first)
    (hrest : ∀ e ∈ rest, WellFormed e) (htext : text.toList = first.render.toList ++ furtherText rest) :
    compile text = .ok (conjoin first rest) := by
  obtain ⟨hends, hcut⟩ := cut_furtherText hrest
  obtain ⟨tokens, htokens, hlexemes⟩ := cut_render hfirst.sound hends hcut 0
  have hterm : Derives .term first.lexemes first := .conjunct (.operand (derives_lexemes hfirst.sound))
  obtain ⟨hderives, hbare⟩ := derives_conjoin hterm hfirst.root hrest
  rw [← htext] at htokens
  refine compile_eq_ok_iff.mpr ⟨tokens, htokens, ?_⟩
  rw [hlexemes]
  exact parse_of_sentence ⟨.disjunct hderives, hbare⟩

end Joined

/-- The trees that texts compile to are the well-formed ones, and rendering gives such a text for each. -/
theorem wellFormed_tfae (e : Expr) :
    [WellFormed e, compile e.render = .ok e, ∃ text, compile text = .ok e].TFAE := by
  tfae_have 1 → 2 := compile_render
  tfae_have 2 → 3 := fun h => ⟨e.render, h⟩
  tfae_have 3 → 1 := fun ⟨_, h⟩ => wellFormed_of_compile h
  tfae_finish

end Criterion.Expr
