import Criterion.Proofs.Failure
import Criterion.Proofs.Grammar
import Mathlib.Data.Set.Subsingleton

/-! The parser and the grammar. A derivation drives the parser from the state that expects its nonterminal
to the state that holds its tree, whatever waits around it. Conversely the operands that wait in a state
are trees of the lexemes read so far, and each step keeps this, so that an accepted text is a sentence. -/
namespace Criterion.Grammar

open Expr.Parse

/-- The state after some lexemes, the first of them at `position`. -/
def drive (position : Nat) (state : State) : List Lexeme → Except SyntaxError State
  | [] => .ok state
  | l :: ls => do
    let next ← step position l state
    drive (position + 1) next ls

theorem drive_append (position : Nat) (state : State) (ls rs : List Lexeme) :
    drive position state (ls ++ rs) =
      (drive position state ls >>= fun next => drive (position + ls.length) next rs) := by
  induction ls generalizing position state with
  | nil => rfl
  | cons l ls ih =>
    simp only [List.cons_append, drive, List.length_cons]
    cases step position l state with
    | error e => rfl
    | ok next =>
      have hpos : position + 1 + ls.length = position + (ls.length + 1) := by omega
      simpa only [ok_bind, hpos] using ih (position + 1) next

theorem run_eq_drive (position : Nat) (state : State) (ls : List Lexeme) :
    run position state ls = (drive position state ls >>= finish (position + ls.length)) := by
  induction ls generalizing position state with
  | nil => rfl
  | cons l ls ih =>
    simp only [run, drive, List.length_cons]
    cases step position l state with
    | error e => rfl
    | ok next =>
      have hpos : position + 1 + ls.length = position + (ls.length + 1) := by omega
      simpa only [ok_bind, hpos] using ih (position + 1) next

section Completeness

variable {ls rs : List Lexeme} {e left right : Expr}

/-- What the parser does with lexemes that derive a tree. After a term or an expression the last operand
may still wait for the chain it closes. -/
def Driven : Nonterminal → List Lexeme → Expr → Prop
  | .primary, ls, e => ∀ position level outer,
    drive position (.expecting level outer) ls = supply e level outer (position + ls.length)
  | .comparison, ls, e => ∀ position (level : Level) outer, level.compared = none →
    drive position (.expecting level outer) ls = .ok (.holding e level outer)
  | .term, ls, e => ∀ position (level : Level) outer, level.compared = none → level.conjunct = none →
    ∃ last chain, drive position (.expecting level outer) ls = .ok (.holding last chain outer) ∧
      chain.compared = none ∧ chain.disjunct = level.disjunct ∧ ∀ p, chain.conjunction p last = .ok e
  | .expression, ls, e => ∀ position outer,
    ∃ last chain, drive position (.expecting {} outer) ls = .ok (.holding last chain outer) ∧
      chain.compared = none ∧ ∀ p, chain.disjunction p last = .ok e

theorem requireTruth_eq_ok (h : ¬ Bare e) (op : Operator) (position : Nat) :
    requireTruth op e position = .ok () := by
  simp [requireTruth, isValueLiteral_eq_false h]

theorem driven_leaf {l : Lexeme} {a : Atom} (h : Leaf l a) : Driven .primary [l] (.atom a) := by
  intro position level outer
  have hkind : l.kind ≠ .leftParen := by cases h <;> simp
  have hatom : atom l position = .ok a := atom_eq_ok_iff.mpr h
  simp only [drive, step, if_neg hkind, hatom, ok_bind, List.length_singleton]
  exact bind_ok _

theorem driven_group (s t : String) (h : Driven .expression ls e) :
    Driven .primary (⟨.leftParen, s⟩ :: ls ++ [⟨.rightParen, t⟩]) e := by
  intro position level outer
  obtain ⟨last, chain, hdrive, -, hclose⟩ := h (position + 1) (level :: outer)
  have hpos : position + 1 + ls.length + 1 = position + (ls.length + 1 + 1) := by omega
  simp only [List.cons_append, drive, step, if_true, ok_bind, drive_append, hdrive, hclose, hpos,
    List.length_cons, List.length_append, List.length_nil, Nat.zero_add]
  exact bind_ok _

theorem driven_operand (h : Driven .primary ls e) : Driven .comparison ls e := by
  intro position level outer hcompared
  rw [h position level outer]
  simp only [supply, Level.comparison, hcompared, ok_bind]
  rw [← hcompared]
  rfl

theorem driven_compare {op : Operator} (s : String) (hl : Driven .comparison ls left)
    (hr : Driven .primary rs right) (hop : op.isLogical = false) (hc : Comparable left right) :
    Driven .comparison (ls ++ ⟨.operator op, s⟩ :: rs) (.binary op left right) := by
  intro position level outer hcompared
  have hstep : step (position + ls.length) ⟨.operator op, s⟩ (.holding left level outer) =
      .ok (.expecting { level with compared := some (left, op) } outer) := by
    cases op <;> first | rfl | simp [Operator.isLogical] at hop
  simp only [drive_append, hl position level outer hcompared, drive, hstep, ok_bind]
  rw [hr (position + ls.length + 1) { level with compared := some (left, op) } outer]
  simp only [supply, Level.comparison, comparable_iff.mpr hc, if_true, ok_bind]
  rw [← hcompared]
  rfl

theorem driven_conjunct (h : Driven .comparison ls e) : Driven .term ls e := by
  intro position level outer hcompared hconjunct
  refine ⟨e, level, h position level outer hcompared, hcompared, rfl, fun p => ?_⟩
  simp only [Level.conjunction, hconjunct]

theorem driven_and (s : String) (hl : Driven .term ls left) (hr : Driven .comparison rs right)
    (hbl : ¬ Bare left) (hbr : ¬ Bare right) :
    Driven .term (ls ++ ⟨.operator .and, s⟩ :: rs) (.binary .and left right) := by
  intro position level outer hcompared hconjunct
  obtain ⟨last, chain, hdrive, hchain, hdisjunct, hclose⟩ := hl position level outer hcompared hconjunct
  refine ⟨right, { chain with conjunct := some left }, ?_, hchain, hdisjunct, fun p => ?_⟩
  · simp only [drive_append, hdrive, drive, step, hclose, requireTruth_eq_ok hbl, ok_bind, pure, Except.pure]
    exact hr (position + ls.length + 1) { chain with conjunct := some left } outer hchain
  · simp only [Level.conjunction, requireTruth_eq_ok hbr, ok_bind, pure, Except.pure]

theorem driven_disjunct (h : Driven .term ls e) : Driven .expression ls e := by
  intro position outer
  obtain ⟨last, chain, hdrive, hchain, hdisjunct, hclose⟩ := h position {} outer rfl rfl
  refine ⟨last, chain, hdrive, hchain, fun p => ?_⟩
  simp only [Level.disjunction, hclose, hdisjunct, ok_bind, pure, Except.pure]

theorem driven_or (s : String) (hl : Driven .expression ls left) (hr : Driven .term rs right)
    (hbl : ¬ Bare left) (hbr : ¬ Bare right) :
    Driven .expression (ls ++ ⟨.operator .or, s⟩ :: rs) (.binary .or left right) := by
  intro position outer
  obtain ⟨last, chain, hdrive, -, hclose⟩ := hl position outer
  obtain ⟨last', chain', hdrive', hchain', hdisjunct', hclose'⟩ :=
    hr (position + ls.length + 1) { disjunct := some left } outer rfl rfl
  refine ⟨last', chain', ?_, hchain', fun p => ?_⟩
  · simp only [drive_append, hdrive, drive, step, hclose, requireTruth_eq_ok hbl, ok_bind, pure, Except.pure]
    exact hdrive'
  · simp only [Level.disjunction, hclose', hdisjunct', requireTruth_eq_ok hbr, ok_bind, pure, Except.pure]

theorem driven_of_derives {n : Nonterminal} (h : Derives n ls e) : Driven n ls e := by
  induction h with
  | leaf h => exact driven_leaf h
  | group s t _ ih => exact driven_group s t ih
  | operand _ ih => exact driven_operand ih
  | compare s _ _ hop hc hl hr => exact driven_compare s hl hr hop hc
  | conjunct _ ih => exact driven_conjunct ih
  | and s _ _ hbl hbr hl hr => exact driven_and s hl hr hbl hbr
  | disjunct _ ih => exact driven_disjunct ih
  | or s _ _ hbl hbr hl hr => exact driven_or s hl hr hbl hbr

/-- The tree that the lexemes derive is what the operands amount to when the lexemes are used up. -/
theorem drive_start_of_derives (h : Derives .expression ls e) :
    ∃ last chain, drive 0 start ls = .ok (.holding last chain []) ∧ ∀ p, chain.disjunction p last = .ok e := by
  obtain ⟨last, chain, hdrive, -, hclose⟩ := driven_of_derives h 0 []
  exact ⟨last, chain, hdrive, hclose⟩

theorem derives_unique {e' : Expr} (h : Derives .expression ls e) (h' : Derives .expression ls e') : e = e' := by
  obtain ⟨last, chain, hdrive, hclose⟩ := drive_start_of_derives h
  obtain ⟨last', chain', hdrive', hclose'⟩ := drive_start_of_derives h'
  rw [hdrive] at hdrive'
  obtain ⟨rfl, rfl, -⟩ := State.holding.inj (Except.ok.inj hdrive')
  exact Except.ok.inj ((hclose 0).symm.trans (hclose' 0))

theorem parse_of_sentence (h : Sentence ls e) : Expr.parse ls = .ok e := by
  obtain ⟨hderives, hbare⟩ := h
  obtain ⟨last, chain, hdrive, hclose⟩ := drive_start_of_derives hderives
  simp [Expr.parse, run_eq_drive, hdrive, finish, hclose, isValueLiteral_eq_false hbare]

end Completeness

section Soundness

/-- The lexemes of an operand that waits at an operator of one level, with that operator. -/
inductive Waiting (n : Nonterminal) (op : Operator) : Option Expr → List Lexeme → Prop
  | none : Waiting n op none []
  | some {ls : List Lexeme} {e : Expr} (s : String) :
      Derives n ls e → ¬ Bare e → Waiting n op (some e) (ls ++ [⟨.operator op, s⟩])

inductive Compared : Option (Expr × Operator) → List Lexeme → Prop
  | none : Compared none []
  | some {ls : List Lexeme} {e : Expr} {op : Operator} (s : String) :
      Derives .comparison ls e → op.isLogical = false → Compared (some (e, op)) (ls ++ [⟨.operator op, s⟩])

/-- The lexemes behind everything that waits at one depth of parentheses. -/
inductive Pending : Level → List Lexeme → Prop
  | mk {level : Level} {ds cs ks : List Lexeme} :
      Waiting .expression .or level.disjunct ds → Waiting .term .and level.conjunct cs →
      Compared level.compared ks → Pending level (ds ++ cs ++ ks)

/-- The lexemes behind the depths that are still open, each with its parenthesis. -/
inductive Enclosing : List Level → List Lexeme → Prop
  | nil : Enclosing [] []
  | cons {level : Level} {outer : List Level} {ws ks : List Lexeme} (s : String) :
      Enclosing outer ws → Pending level ks → Enclosing (level :: outer) (ws ++ ks ++ [⟨.leftParen, s⟩])

/-- The state stands for the lexemes: what waits in it are trees of theirs. -/
inductive Reads : State → List Lexeme → Prop
  | expecting {level : Level} {outer : List Level} {ws ks : List Lexeme} :
      Enclosing outer ws → Pending level ks → Reads (.expecting level outer) (ws ++ ks)
  | holding {e : Expr} {level : Level} {outer : List Level} {ws ks ls : List Lexeme} :
      Enclosing outer ws → Pending level ks → level.compared = none → Derives .comparison ls e →
      Reads (.holding e level outer) (ws ++ ks ++ ls)

variable {e e' : Expr} {level : Level} {outer : List Level} {position : Nat} {ws ks ls : List Lexeme}

theorem pending_empty : Pending {} [] := @Pending.mk {} [] [] [] .none .none .none

theorem not_bare_of_requireTruth {op : Operator} {u : Unit} (h : requireTruth op e position = .ok u) : ¬ Bare e := by
  rw [← isValueLiteral_iff]
  intro hlit
  simp [requireTruth, hlit] at h

theorem derives_of_comparison (hk : Compared level.compared ks) (h : Derives .primary ls e)
    (hok : level.comparison position e = .ok e') : Derives .comparison (ks ++ ls) e' := by
  unfold Level.comparison at hok
  split at hok
  · rename_i hnone
    rw [hnone] at hk
    cases hk
    obtain rfl := Except.ok.inj hok
    exact .operand h
  · rename_i left op hsome
    rw [hsome] at hk
    cases hk with
    | some s hl hop =>
      split at hok
      · rename_i hc
        obtain rfl := Except.ok.inj hok
        rw [List.append_assoc]
        exact .compare s hl h hop (comparable_iff.mp hc)
      · contradiction

theorem derives_of_conjunction (hk : Waiting .term .and level.conjunct ks) (h : Derives .comparison ls e)
    (hok : level.conjunction position e = .ok e') : Derives .term (ks ++ ls) e' := by
  unfold Level.conjunction at hok
  split at hok
  · rename_i hnone
    rw [hnone] at hk
    cases hk
    obtain rfl := Except.ok.inj hok
    exact .conjunct h
  · rename_i left hsome
    rw [hsome] at hk
    obtain ⟨_, hreq, hok⟩ := bind_eq_ok_iff.mp hok
    obtain rfl := Except.ok.inj hok
    cases hk with
    | some s hl hb =>
      rw [List.append_assoc]
      exact .and s hl h hb (not_bare_of_requireTruth hreq)

theorem derives_of_disjunction (hp : Pending level ks) (hnone : level.compared = none)
    (h : Derives .comparison ls e) (hok : level.disjunction position e = .ok e') :
    Derives .expression (ks ++ ls) e' := by
  obtain ⟨hd, hc, hk⟩ := hp
  rw [hnone] at hk
  cases hk
  obtain ⟨last, hlast, hok⟩ := bind_eq_ok_iff.mp hok
  have hterm := derives_of_conjunction hc h hlast
  rw [List.append_nil, List.append_assoc]
  split at hok
  · rename_i hdnone
    rw [hdnone] at hd
    cases hd
    obtain rfl := Except.ok.inj hok
    exact .disjunct hterm
  · rename_i left hsome
    rw [hsome] at hd
    obtain ⟨_, hreq, hok⟩ := bind_eq_ok_iff.mp hok
    obtain rfl := Except.ok.inj hok
    cases hd with
    | some s hl hb =>
      rw [List.append_assoc]
      exact .or s hl hterm hb (not_bare_of_requireTruth hreq)

theorem reads_supply {next : State} (hw : Enclosing outer ws) (hp : Pending level ks) (h : Derives .primary ls e)
    (hok : supply e level outer position = .ok next) : Reads next (ws ++ ks ++ ls) := by
  obtain ⟨whole, hwhole, hnext⟩ := bind_eq_ok_iff.mp hok
  obtain rfl := Except.ok.inj hnext
  obtain ⟨hd, hc, hk⟩ := hp
  have hcomparison := derives_of_comparison hk h hwhole
  have hpending := @Pending.mk { level with compared := none } _ _ _ hd hc .none
  have := Reads.holding hw hpending rfl hcomparison
  simpa only [List.append_assoc, List.append_nil, List.nil_append] using this

theorem reads_expecting {next : State} {l : Lexeme} (hw : Enclosing outer ws) (hp : Pending level ks)
    (hok : step position l (.expecting level outer) = .ok next) : Reads next (ws ++ ks ++ [l]) := by
  obtain ⟨kind, spelling⟩ := l
  simp only [step] at hok
  split at hok
  · rename_i hkind
    obtain rfl : kind = .leftParen := hkind
    obtain rfl := Except.ok.inj hok
    simpa only [List.append_nil] using Reads.expecting (.cons spelling hw hp) pending_empty
  · obtain ⟨a, ha, hok⟩ := bind_eq_ok_iff.mp hok
    exact reads_supply hw hp (.leaf (atom_eq_ok_iff.mp ha)) hok

theorem reads_holding {next : State} {l : Lexeme} (hw : Enclosing outer ws) (hp : Pending level ks)
    (hnone : level.compared = none) (h : Derives .comparison ls e)
    (hok : step position l (.holding e level outer) = .ok next) : Reads next (ws ++ ks ++ ls ++ [l]) := by
  obtain ⟨kind, spelling⟩ := l
  simp only [step] at hok
  split at hok
  · -- OR closes the whole level and starts a chain of its own
    obtain ⟨left, hleft, hok⟩ := bind_eq_ok_iff.mp hok
    obtain ⟨_, hreq, hok⟩ := bind_eq_ok_iff.mp hok
    obtain rfl := Except.ok.inj hok
    have hexpr := derives_of_disjunction hp hnone h hleft
    have hpending := @Pending.mk { disjunct := some left } _ _ _
      (.some spelling hexpr (not_bare_of_requireTruth hreq)) .none .none
    simpa only [List.append_assoc, List.append_nil] using Reads.expecting hw hpending
  · -- AND closes the chain of its own level and leaves the OR chain waiting
    obtain ⟨left, hleft, hok⟩ := bind_eq_ok_iff.mp hok
    obtain ⟨_, hreq, hok⟩ := bind_eq_ok_iff.mp hok
    obtain rfl := Except.ok.inj hok
    obtain ⟨hd, hc, hk⟩ := hp
    have hterm := derives_of_conjunction hc h hleft
    rw [hnone] at hk
    cases hk
    have hnothing : Compared level.compared [] := by rw [hnone]; exact .none
    have hpending := @Pending.mk { level with conjunct := some left } _ _ _ hd
      (.some spelling hterm (not_bare_of_requireTruth hreq)) hnothing
    simpa only [List.append_assoc, List.append_nil] using Reads.expecting hw hpending
  · rename_i op hor hand
    obtain rfl := Except.ok.inj hok
    have hop : op.isLogical = false := by cases op <;> simp_all [Operator.isLogical]
    obtain ⟨hd, hc, hk⟩ := hp
    rw [hnone] at hk
    cases hk
    have hpending := @Pending.mk { level with compared := some (e, op) } _ _ _ hd hc (.some spelling h hop)
    simpa only [List.append_assoc, List.append_nil] using Reads.expecting hw hpending
  · obtain ⟨whole, hwhole, hnext⟩ := bind_eq_ok_iff.mp hok
    have hexpr := derives_of_disjunction hp hnone h hwhole
    split at hnext
    · contradiction
    · split at hnext
      · rename_i hkind
        subst hkind
        cases hw with
        | cons s hw hp' =>
          have hgroup := Derives.group s spelling hexpr
          simpa only [List.append_assoc, List.cons_append, List.nil_append] using reads_supply hw hp' hgroup hnext
      · contradiction

theorem reads_step {state next : State} {l : Lexeme} (hr : Reads state ls) (hok : step position l state = .ok next) :
    Reads next (ls ++ [l]) := by
  cases hr with
  | expecting hw hp => exact reads_expecting hw hp hok
  | holding hw hp hnone h => exact reads_holding hw hp hnone h hok

theorem reads_drive {state next : State} {rs : List Lexeme} (hr : Reads state ls)
    (hok : drive position state rs = .ok next) : Reads next (ls ++ rs) := by
  induction rs generalizing position state ls with
  | nil =>
    obtain rfl := Except.ok.inj hok
    rwa [List.append_nil]
  | cons r rs ih =>
    obtain ⟨mid, hmid, hok⟩ := bind_eq_ok_iff.mp hok
    have := ih (reads_step hr hmid) hok
    rwa [List.append_assoc] at this

theorem reads_start : Reads start [] := .expecting .nil pending_empty

theorem sentence_of_finish {state : State} (hr : Reads state ls) (hok : finish position state = .ok e) :
    Sentence ls e := by
  cases hr with
  | expecting => contradiction
  | holding hw hp hnone h =>
    obtain ⟨whole, hwhole, hok⟩ := bind_eq_ok_iff.mp hok
    have hexpr := derives_of_disjunction hp hnone h hwhole
    split at hok
    · contradiction
    · rename_i houter
      split at hok
      · contradiction
      · rename_i hlit
        obtain rfl := Except.ok.inj hok
        cases hw with
        | nil => exact ⟨hexpr, fun hb => hlit (isValueLiteral_iff.mpr hb)⟩
        | cons => simp at houter

theorem sentence_of_parse (hok : Expr.parse ls = .ok e) : Sentence ls e := by
  rw [Expr.parse, run_eq_drive] at hok
  obtain ⟨state, hdrive, hfinish⟩ := bind_eq_ok_iff.mp hok
  exact sentence_of_finish (reads_drive reads_start hdrive) hfinish

end Soundness

/-- The parser accepts the sentences of the grammar, each with its tree, and no lexemes derive two trees. -/
theorem parse_eq_ok_iff_sentence :
    (∀ ls e, Expr.parse ls = .ok e ↔ Sentence ls e) ∧ ∀ ls, {e | Derives .expression ls e}.Subsingleton :=
  ⟨fun _ _ => ⟨sentence_of_parse, parse_of_sentence⟩, fun _ _ h _ h' => derives_unique h h'⟩

end Criterion.Grammar
