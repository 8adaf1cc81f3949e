import Criterion.Proofs.Parsing

/-! The grammar without its operand rules, where only the kinds of the lexemes count. To read such a phrase
it is enough to know how many parentheses are open and whether an operand must come next. The parser keeps
to this reading as long as it goes on, so a lexeme that it reports as misplaced is the first one that no
phrase continues with. -/
namespace Criterion

/-- The lexemes end too early or one of them is in the wrong place. The other errors are about operands that
do not suit their operator and numbers out of range. -/
def SyntaxError.Misplaced : SyntaxError → Prop
  | .unexpected .. | .unexpectedEnd .. | .expected .. => True
  | .noTruthValue .. | .incomparable .. | .standaloneLiteral .. | .numberOutOfRange .. => False

namespace Grammar

open Expr.Parse

/-- The kinds that are operands by themselves. -/
inductive Operand : Kind → Prop
  | variable : Operand .variable
  | text : Operand .text
  | number : Operand .number
  | truth (value : Bool) : Operand (.truth value)
  | null : Operand .null

/-- The productions of the grammar without the trees and without their side conditions. -/
inductive Phrase : Nonterminal → List Lexeme → Prop
  | leaf {kind : Kind} (s : String) : Operand kind → Phrase .primary [⟨kind, s⟩]
  | group {ls : List Lexeme} (s t : String) :
      Phrase .expression ls → Phrase .primary (⟨.leftParen, s⟩ :: ls ++ [⟨.rightParen, t⟩])
  | operand {ls : List Lexeme} : Phrase .primary ls → Phrase .comparison ls
  | compare {ls rs : List Lexeme} {op : Operator} (s : String) :
      Phrase .comparison ls → Phrase .primary rs → op.isLogical = false →
      Phrase .comparison (ls ++ ⟨.operator op, s⟩ :: rs)
  | conjunct {ls : List Lexeme} : Phrase .comparison ls → Phrase .term ls
  | and {ls rs : List Lexeme} (s : String) :
      Phrase .term ls → Phrase .comparison rs → Phrase .term (ls ++ ⟨.operator .and, s⟩ :: rs)
  | disjunct {ls : List Lexeme} : Phrase .term ls → Phrase .expression ls
  | or {ls rs : List Lexeme} (s : String) :
      Phrase .expression ls → Phrase .term rs → Phrase .expression (ls ++ ⟨.operator .or, s⟩ :: rs)

theorem operand_of_leaf {l : Lexeme} {a : Atom} (h : Leaf l a) : Operand l.kind := by
  cases h with
  | «variable» => exact .variable
  | text => exact .text
  | truth value => exact .truth value
  | null => exact .null
  | number => exact .number

/-- What derives a tree is a phrase. -/
theorem phrase_of_derives {n : Nonterminal} {ls : List Lexeme} {e : Expr} (h : Derives n ls e) : Phrase n ls := by
  induction h with
  | leaf h => exact .leaf _ (operand_of_leaf h)
  | group s t _ ih => exact .group s t ih
  | operand _ ih => exact .operand ih
  | compare s _ _ hop _ hl hr => exact .compare s hl hr hop
  | conjunct _ ih => exact .conjunct ih
  | and s _ _ _ _ hl hr => exact .and s hl hr
  | disjunct _ ih => exact .disjunct ih
  | or s _ _ _ _ hl hr => exact .or s hl hr

/-- Either an operand must come next, or one has just ended, inside so many open parentheses. -/
inductive Outline where
  | expecting (depth : Nat)
  | holding (depth : Nat)

namespace Outline

def next? : Outline → Kind → Option Outline
  | .expecting depth, .leftParen => some (.expecting (depth + 1))
  | .expecting _, .rightParen | .expecting _, .operator _ => none
  | .expecting depth, _ => some (.holding depth)
  | .holding depth, .operator _ => some (.expecting depth)
  | .holding (depth + 1), .rightParen => some (.holding depth)
  | .holding _, _ => none

def after? (o : Outline) : List Lexeme → Option Outline
  | [] => some o
  | l :: ls => (o.next? l.kind).bind fun next => next.after? ls

theorem after?_append (o : Outline) (ls rs : List Lexeme) :
    o.after? (ls ++ rs) = (o.after? ls).bind fun next => next.after? rs := by
  induction ls generalizing o with
  | nil => rfl
  | cons l ls ih =>
    rw [List.cons_append, after?, after?, Option.bind_assoc]
    simp only [ih]

theorem next?_operand {kind : Kind} (h : Operand kind) (depth : Nat) :
    (expecting depth).next? kind = some (.holding depth) := by
  cases h <;> rfl

/-- A phrase takes the reading from where an operand must come to where one has ended. -/
theorem after?_of_phrase {n : Nonterminal} {ls : List Lexeme} (h : Phrase n ls) (depth : Nat) :
    (expecting depth).after? ls = some (.holding depth) := by
  induction h generalizing depth with
  | leaf s h => simp [after?, next?_operand h]
  | group s t _ ih => simp [after?, after?_append, next?, ih]
  | operand _ ih | conjunct _ ih | disjunct _ ih => exact ih depth
  | compare s _ _ _ hl hr | and s _ _ hl hr | or s _ _ hl hr =>
    simp [after?_append, after?, next?, hl, hr]

end Outline

section Completing

variable {depth : Nat} {es ls ps ws : List Lexeme}

/-- An operator and an operand continue a term on the level to which the operator belongs. -/
theorem term_extend {op : Operator} (s : String) (h : Phrase .term es) (hp : Phrase .primary ps) (hop : op ≠ .or) :
    Phrase .term (es ++ ⟨.operator op, s⟩ :: ps) := by
  by_cases hand : op = .and
  · subst hand
    exact .and s h (.operand hp)
  · have hlogical : op.isLogical = false := by cases op <;> simp_all [Operator.isLogical]
    cases h with
    | conjunct h => exact .conjunct (.compare s h hp hlogical)
    | and t hl hr =>
      rw [List.append_assoc, List.cons_append]
      exact .and t hl (.compare s hr hp hlogical)

theorem expression_extend (op : Operator) (s : String) (h : Phrase .expression es) (hp : Phrase .primary ps) :
    Phrase .expression (es ++ ⟨.operator op, s⟩ :: ps) := by
  by_cases hor : op = .or
  · subst hor
    exact .or s h (.conjunct (.operand hp))
  · cases h with
    | disjunct h => exact .disjunct (term_extend s h hp hor)
    | or t hl hr =>
      rw [List.append_assoc, List.cons_append]
      exact .or t hl (term_extend s hr hp hor)

/-- What stands before the next operand inside its parentheses: nothing, or a phrase and an operator. -/
inductive Begun : List Lexeme → Prop
  | nothing : Begun []
  | joined {es : List Lexeme} (op : Operator) (s : String) :
      Phrase .expression es → Begun (es ++ [⟨.operator op, s⟩])

theorem expression_of_begun (h : Begun es) (hp : Phrase .primary ps) : Phrase .expression (es ++ ps) := by
  cases h with
  | nothing => exact .disjunct (.conjunct (.operand hp))
  | joined op s h =>
    rw [List.append_assoc]
    exact expression_extend op s h hp

/-- The lexemes up to the innermost open parenthesis. -/
inductive Inside : Nat → List Lexeme → Prop
  | outermost : Inside 0 []
  | deeper {depth : Nat} {ws es : List Lexeme} (s : String) :
      Inside depth ws → Begun es → Inside (depth + 1) (ws ++ es ++ [⟨.leftParen, s⟩])

/-- The lexemes have been read so far. -/
inductive Outline.Reads : Outline → List Lexeme → Prop
  | expecting {depth : Nat} {ws es : List Lexeme} :
      Inside depth ws → Begun es → Reads (.expecting depth) (ws ++ es)
  | holding {depth : Nat} {ws es : List Lexeme} :
      Inside depth ws → Phrase .expression es → Reads (.holding depth) (ws ++ es)

/-- An operand that follows is held. -/
theorem reads_operand (hw : Inside depth ws) (he : Begun es) (hp : Phrase .primary ps) :
    (Outline.holding depth).Reads (ws ++ es ++ ps) := by
  rw [List.append_assoc]
  exact .holding hw (expression_of_begun he hp)

theorem reads_next {o next : Outline} {l : Lexeme} (h : o.Reads ls) (hnext : o.next? l.kind = some next) :
    next.Reads (ls ++ [l]) := by
  obtain ⟨kind, spelling⟩ := l
  cases h with
  | @expecting depth ws es hw he =>
    cases kind with
    | leftParen =>
      obtain rfl := Option.some.inj hnext
      have := Outline.Reads.expecting (.deeper spelling hw he) .nothing
      rwa [List.append_nil] at this
    | rightParen | operator => contradiction
    | «variable» =>
      obtain rfl := Option.some.inj hnext
      exact reads_operand hw he (.leaf spelling .variable)
    | text =>
      obtain rfl := Option.some.inj hnext
      exact reads_operand hw he (.leaf spelling .text)
    | number =>
      obtain rfl := Option.some.inj hnext
      exact reads_operand hw he (.leaf spelling .number)
    | truth value =>
      obtain rfl := Option.some.inj hnext
      exact reads_operand hw he (.leaf spelling (.truth value))
    | null =>
      obtain rfl := Option.some.inj hnext
      exact reads_operand hw he (.leaf spelling .null)
  | @holding depth ws es hw he =>
    cases kind with
    | operator op =>
      obtain rfl := Option.some.inj hnext
      rw [List.append_assoc]
      exact .expecting hw (.joined op spelling he)
    | rightParen =>
      cases hw with
      | outermost => contradiction
      | deeper s hw hes =>
        obtain rfl := Option.some.inj hnext
        have := reads_operand hw hes (.group s spelling he)
        simpa only [List.append_assoc, List.cons_append, List.nil_append] using this
    | leftParen | «variable» | text | number | truth | null => cases depth <;> contradiction

theorem reads_after {o next : Outline} (h : o.Reads ls) (hnext : o.after? ps = some next) : next.Reads (ls ++ ps) := by
  induction ps generalizing o ls with
  | nil =>
    obtain rfl := Option.some.inj hnext
    rwa [List.append_nil]
  | cons p ps ih =>
    obtain ⟨mid, hmid, hnext⟩ := Option.bind_eq_some_iff.mp hnext
    have := ih (reads_next h hmid) hnext
    rwa [List.append_assoc] at this

/-- Closing the open parentheses one by one makes a phrase. -/
theorem phrase_of_holding (h : (Outline.holding depth).Reads ls) : ∃ rest, Phrase .expression (ls ++ rest) := by
  induction depth generalizing ls with
  | zero =>
    cases h with
    | holding hw he =>
      cases hw
      exact ⟨[], by simpa using he⟩
  | succ depth ih =>
    have hclosed : (Outline.holding depth).Reads (ls ++ [⟨.rightParen, ")"⟩]) := reads_next h rfl
    obtain ⟨rest, hrest⟩ := ih hclosed
    exact ⟨⟨.rightParen, ")"⟩ :: rest, by simpa using hrest⟩

/-- Whatever has been read is the beginning of a phrase. -/
theorem phrase_of_reads {o : Outline} (h : o.Reads ls) : ∃ rest, Phrase .expression (ls ++ rest) := by
  cases o with
  | holding depth => exact phrase_of_holding h
  | expecting depth =>
    have hheld : (Outline.holding depth).Reads (ls ++ [⟨.null, "null"⟩]) := reads_next h rfl
    obtain ⟨rest, hrest⟩ := phrase_of_holding hheld
    exact ⟨⟨.null, "null"⟩ :: rest, by simpa using hrest⟩

end Completing

section Parsing

variable {position : Nat} {l : Lexeme} {ls : List Lexeme} {state next : State} {e : SyntaxError}

/-- What the grammar without its operand rules sees of a state. -/
def outline : State → Outline
  | .expecting _ outer => .expecting outer.length
  | .holding _ _ outer => .holding outer.length

theorem outline_supply {x : Expr} {level : Level} {outer : List Level}
    (h : supply x level outer position = .ok next) : outline next = .holding outer.length := by
  obtain ⟨whole, -, hnext⟩ := bind_eq_ok_iff.mp h
  obtain rfl := Except.ok.inj hnext
  rfl

theorem next?_of_step (h : step position l state = .ok next) :
    (outline state).next? l.kind = some (outline next) := by
  cases state with
  | expecting level outer =>
    rw [step] at h
    split at h
    · rename_i hkind
      obtain rfl := Except.ok.inj h
      rw [hkind]
      rfl
    · obtain ⟨a, ha, hsupply⟩ := bind_eq_ok_iff.mp h
      rw [outline_supply hsupply]
      exact Outline.next?_operand (operand_of_leaf (atom_eq_ok_iff.mp ha)) outer.length
  | holding x level outer =>
    obtain ⟨kind, spelling⟩ := l
    simp only [step] at h
    split at h
    · obtain ⟨left, -, h⟩ := bind_eq_ok_iff.mp h
      obtain ⟨_, -, h⟩ := bind_eq_ok_iff.mp h
      obtain rfl := Except.ok.inj h
      rfl
    · obtain ⟨left, -, h⟩ := bind_eq_ok_iff.mp h
      obtain ⟨_, -, h⟩ := bind_eq_ok_iff.mp h
      obtain rfl := Except.ok.inj h
      rfl
    · obtain rfl := Except.ok.inj h
      rfl
    · obtain ⟨whole, -, hnext⟩ := bind_eq_ok_iff.mp h
      split at hnext
      · contradiction
      · split at hnext
        · rename_i hkind
          subst hkind
          rw [outline_supply hnext]
          rfl
        · contradiction

theorem after?_of_drive (h : drive position state ls = .ok next) :
    (outline state).after? ls = some (outline next) := by
  induction ls generalizing position state with
  | nil =>
    obtain rfl := Except.ok.inj h
    rfl
  | cons l ls ih =>
    obtain ⟨mid, hmid, h⟩ := bind_eq_ok_iff.mp h
    rw [Outline.after?, next?_of_step hmid, Option.bind_some]
    exact ih h

/-- Operands that are joined at the position do not suit their operator. -/
inductive Unsuited (position : Nat) : SyntaxError → Prop
  | noTruthValue (op : Operator) (operand : String) : Unsuited position (.noTruthValue op operand position)
  | incomparable (op : Operator) (left right : String) : Unsuited position (.incomparable op left right position)

theorem Unsuited.not_misplaced (h : Unsuited position e) : ¬ e.Misplaced := by
  cases h <;> exact id

theorem Unsuited.position_eq (h : Unsuited position e) : e.position = position := by
  cases h <;> rfl

theorem unsuited_comparison {x : Expr} {level : Level} (h : level.comparison position x = .error e) :
    Unsuited position e := by
  unfold Level.comparison at h
  split at h
  · contradiction
  · split at h
    · contradiction
    · obtain rfl := Except.error.inj h
      exact .incomparable _ _ _

theorem unsuited_requireTruth {op : Operator} {x : Expr} (h : requireTruth op x position = .error e) :
    Unsuited position e := by
  unfold requireTruth at h
  split at h
  · obtain rfl := Except.error.inj h
    exact .noTruthValue _ _
  · contradiction

theorem unsuited_conjunction {x : Expr} {level : Level} (h : level.conjunction position x = .error e) :
    Unsuited position e := by
  unfold Level.conjunction at h
  split at h
  · contradiction
  · rcases bind_eq_error_iff.mp h with h | ⟨_, -, h⟩
    · exact unsuited_requireTruth h
    · contradiction

theorem unsuited_disjunction {x : Expr} {level : Level} (h : level.disjunction position x = .error e) :
    Unsuited position e := by
  rcases bind_eq_error_iff.mp h with h | ⟨last, -, h⟩
  · exact unsuited_conjunction h
  · split at h
    · contradiction
    · rcases bind_eq_error_iff.mp h with h | ⟨_, -, h⟩
      · exact unsuited_requireTruth h
      · contradiction

theorem unsuited_supply {x : Expr} {level : Level} {outer : List Level}
    (h : supply x level outer position = .error e) : Unsuited position e := by
  rcases bind_eq_error_iff.mp h with h | ⟨whole, -, h⟩
  · exact unsuited_comparison h
  · contradiction

/-- What a step can report at a lexeme: operands that it joins in front of the lexeme or behind it, a number out
of range, or the lexeme itself, where the reading cannot go on with it. -/
inductive Reported (position : Nat) (l : Lexeme) (o : Outline) : SyntaxError → Prop
  | before {e : SyntaxError} : Unsuited position e → Reported position l o e
  | behind {e : SyntaxError} : Unsuited (position + 1) e → Reported position l o e
  | outOfRange : Reported position l o (.numberOutOfRange l.text position)
  | unexpected : o.next? l.kind = none → Reported position l o (.unexpected l position)
  | unclosed : o.next? l.kind = none → Reported position l o (.expected .rightParen (some l) position)

theorem reported_of_atom {depth : Nat} (hl : l.kind ≠ .leftParen) (h : atom l position = .error e) :
    Reported position l (.expecting depth) e := by
  obtain ⟨kind, spelling⟩ := l
  cases kind with
  | leftParen => exact absurd rfl hl
  | operator | rightParen =>
    obtain rfl := Except.error.inj h
    exact .unexpected rfl
  | number =>
    simp only [atom] at h
    split at h
    · contradiction
    · obtain rfl := Except.error.inj h
      exact .outOfRange
  | «variable» | text | truth | null => contradiction

theorem reported_of_step (h : step position l state = .error e) : Reported position l (outline state) e := by
  cases state with
  | expecting level outer =>
    rw [step] at h
    split at h
    · contradiction
    · rename_i hkind
      rcases bind_eq_error_iff.mp h with hatom | ⟨a, -, hsupply⟩
      · exact reported_of_atom hkind hatom
      · exact .behind (unsuited_supply hsupply)
  | holding x level outer =>
    obtain ⟨kind, spelling⟩ := l
    simp only [step] at h
    split at h
    · rcases bind_eq_error_iff.mp h with hclose | ⟨left, -, hnext⟩
      · exact .before (unsuited_disjunction hclose)
      · rcases bind_eq_error_iff.mp hnext with htruth | ⟨_, -, hnext⟩
        · exact .behind (unsuited_requireTruth htruth)
        · contradiction
    · rcases bind_eq_error_iff.mp h with hclose | ⟨left, -, hnext⟩
      · exact .before (unsuited_conjunction hclose)
      · rcases bind_eq_error_iff.mp hnext with htruth | ⟨_, -, hnext⟩
        · exact .behind (unsuited_requireTruth htruth)
        · contradiction
    · contradiction
    · rename_i hor hand hoperator
      rcases bind_eq_error_iff.mp h with hclose | ⟨whole, -, hnext⟩
      · exact .before (unsuited_disjunction hclose)
      · split at hnext
        · obtain rfl := Except.error.inj hnext
          refine .unexpected ?_
          cases kind with
          | operator op => exact absurd rfl (hoperator op)
          | _ => rfl
        · split at hnext
          · exact .behind (unsuited_supply hnext)
          · rename_i hkind
            obtain rfl := Except.error.inj hnext
            refine .unclosed ?_
            cases kind with
            | operator op => exact absurd rfl (hoperator op)
            | rightParen => exact absurd rfl hkind
            | _ => rfl

/-- A lexeme that is reported as misplaced is one that the reading cannot go on with. -/
theorem next?_of_step_eq_error (h : step position l state = .error e) (he : e.Misplaced) :
    (outline state).next? l.kind = none ∧ e.position = position := by
  cases reported_of_step h with
  | before h | behind h => exact absurd he h.not_misplaced
  | outOfRange => contradiction
  | unexpected hnone | unclosed hnone => exact ⟨hnone, rfl⟩

/-- At the end of the lexemes nothing is misplaced after a whole phrase. -/
theorem outline_of_finish_eq_error (h : finish position state = .error e) (he : e.Misplaced) :
    outline state ≠ .holding 0 ∧ e.position = position := by
  cases state with
  | expecting level outer =>
    obtain rfl := Except.error.inj h
    exact ⟨nofun, rfl⟩
  | holding x level outer =>
    rcases bind_eq_error_iff.mp h with hclose | ⟨whole, -, h⟩
    · exact absurd he (unsuited_disjunction hclose).not_misplaced
    · split at h
      · rename_i houter
        obtain rfl := Except.error.inj h
        refine ⟨fun hholding => ?_, rfl⟩
        have hlength : outer.length = 0 := Outline.holding.inj hholding
        simp [List.length_eq_zero_iff.mp hlength] at houter
      · split at h
        · obtain rfl := Except.error.inj h
          contradiction
        · contradiction

/-- A failure is found at one of the lexemes or behind the last one. -/
theorem run_eq_error (h : run position state ls = .error e) :
    (∃ before l after mid, ls = before ++ l :: after ∧ drive position state before = .ok mid ∧
      step (position + before.length) l mid = .error e) ∨
    ∃ last, drive position state ls = .ok last ∧ finish (position + ls.length) last = .error e := by
  induction ls generalizing position state with
  | nil => exact .inr ⟨state, rfl, h⟩
  | cons l ls ih =>
    rcases bind_eq_error_iff.mp h with hstep | ⟨next, hstep, h⟩
    · exact .inl ⟨[], l, ls, state, rfl, rfl, hstep⟩
    · have hpos (n : Nat) : position + 1 + n = position + (n + 1) := by omega
      rcases ih h with ⟨before, m, after, mid, rfl, hdrive, hfail⟩ | ⟨last, hdrive, hfail⟩
      · refine .inl ⟨l :: before, m, after, mid, rfl, ?_, ?_⟩
        · rw [drive, hstep]
          exact hdrive
        · rwa [List.length_cons, ← hpos]
      · refine .inr ⟨last, ?_, ?_⟩
        · rw [drive, hstep]
          exact hdrive
        · rwa [List.length_cons, ← hpos]

/-- The lexemes before a misplaced one begin a phrase, and with that one they begin none. If it is the end that
comes too early, all lexemes together begin a phrase without being one. -/
theorem misplaced_first (h : Expr.parse ls = .error e) (he : e.Misplaced) :
    e.position ≤ ls.length ∧ (∃ rest, Phrase .expression (ls.take e.position ++ rest)) ∧
      (e.position < ls.length → ∀ rest, ¬ Phrase .expression (ls.take (e.position + 1) ++ rest)) ∧
      (e.position = ls.length → ¬ Phrase .expression ls) := by
  have hstart : (Outline.expecting 0).Reads [] := .expecting .outermost .nothing
  rcases run_eq_error h with ⟨before, l, after, mid, rfl, hdrive, hstep⟩ | ⟨last, hdrive, hfinish⟩
  · rw [Nat.zero_add] at hstep
    obtain ⟨hnone, hposition⟩ := next?_of_step_eq_error hstep he
    have hbefore : (Outline.expecting 0).after? before = some (outline mid) := after?_of_drive hdrive
    have hreads := reads_after hstart hbefore
    rw [hposition]
    refine ⟨by simp, ?_, fun _ rest hphrase => ?_, fun hlength => by simp at hlength⟩
    · simpa using phrase_of_reads hreads
    · have hread := Outline.after?_of_phrase hphrase 0
      rw [List.take_length_add_append] at hread
      simp [Outline.after?_append, Outline.after?, hbefore, hnone] at hread
  · rw [Nat.zero_add] at hfinish
    obtain ⟨hholding, hposition⟩ := outline_of_finish_eq_error hfinish he
    have hall : (Outline.expecting 0).after? ls = some (outline last) := after?_of_drive hdrive
    have hreads := reads_after hstart hall
    rw [hposition]
    refine ⟨Nat.le_refl _, ?_, fun hlt => absurd hlt (Nat.lt_irrefl _), fun _ hphrase => hholding ?_⟩
    · simpa using phrase_of_reads hreads
    · have hread := Outline.after?_of_phrase hphrase 0
      exact Option.some.inj (hall.symm.trans hread)

/-- Where a parenthesis should be closed, nothing that follows a second operand makes it right. -/
theorem misplaced_first_operand :
    let opened : List Lexeme := [⟨.leftParen, "("⟩, ⟨.variable, "a"⟩, ⟨.operator .equal, "=="⟩, ⟨.number, "1"⟩]
    let misplaced : Lexeme := ⟨.variable, "b"⟩
    let after : List Lexeme := [⟨.rightParen, ")"⟩]
    let e := SyntaxError.expected .rightParen (some misplaced) 4
    Expr.parse (opened ++ misplaced :: after) = .error e ∧ e.Misplaced ∧
      (∃ rest, Phrase .expression (opened ++ rest)) ∧
      (∀ rest, ¬ Phrase .expression (opened ++ misplaced :: rest)) ∧
      ∀ rest x, Expr.parse (opened ++ misplaced :: rest) ≠ .ok x := by
  intro opened misplaced after e
  have h : Expr.parse (opened ++ misplaced :: after) = .error e := rfl
  obtain ⟨-, hbegun, hnone, -⟩ := misplaced_first h trivial
  have hnone : ∀ rest, ¬ Phrase .expression (opened ++ misplaced :: rest) := hnone (by decide)
  refine ⟨h, trivial, hbegun, hnone, fun rest x hparse => ?_⟩
  exact hnone rest (phrase_of_derives (sentence_of_parse hparse).1)

end Parsing

end Grammar

end Criterion
