import Criterion.Proofs.Outline

/-! How far the parser has looked when it fails. An error is found at the lexeme it is reported at or at the one
before, so whatever comes behind its position has no say in it. An end is reported behind the last lexeme only. -/
namespace Criterion

/-- The errors of a text that ends where it must not: too early, or with a literal that says nothing. -/
def SyntaxError.AtEnd : SyntaxError → Prop
  | .unexpectedEnd .. | .standaloneLiteral .. => True
  | .unexpected .. | .expected .. | .noTruthValue .. | .incomparable .. | .numberOutOfRange .. => False

namespace Grammar

open Expr.Parse

variable {position : Nat} {l : Lexeme} {ls before : List Lexeme} {state mid : State} {e : SyntaxError}

theorem Unsuited.not_atEnd (h : Unsuited position e) : ¬ e.AtEnd := by
  cases h <;> exact id

/-- A step reports its own place or the next one, and no end. -/
theorem reach_of_step (h : step position l state = .error e) :
    position ≤ e.position ∧ e.position ≤ position + 1 ∧ ¬ e.AtEnd := by
  cases reported_of_step h with
  | before h =>
    have hposition := h.position_eq
    exact ⟨by omega, by omega, h.not_atEnd⟩
  | behind h =>
    have hposition := h.position_eq
    exact ⟨by omega, by omega, h.not_atEnd⟩
  | outOfRange | unexpected | unclosed => exact ⟨Nat.le_refl _, Nat.le_succ _, id⟩

/-- What is found when the lexemes are used up is reported behind the last of them. -/
theorem reach_of_finish (h : finish position state = .error e) : e.position = position := by
  cases state with
  | expecting level outer =>
    obtain rfl := Except.error.inj h
    rfl
  | holding x level outer =>
    rcases bind_eq_error_iff.mp h with hclose | ⟨whole, -, h⟩
    · exact (unsuited_disjunction hclose).position_eq
    · split at h
      · obtain rfl := Except.error.inj h
        rfl
      · split at h
        · obtain rfl := Except.error.inj h
          rfl
        · contradiction

/-- A step that fails ends the run, whatever would follow. -/
theorem run_of_step_eq_error (hdrive : drive position state before = .ok mid)
    (hstep : step (position + before.length) l mid = .error e) (rest : List Lexeme) :
    run position state (before ++ l :: rest) = .error e := by
  simp only [run_eq_drive, drive_append, hdrive, drive, hstep, ok_bind, error_bind]

/-- An error inside the lexemes is the error of all lexemes that begin like these up to its position. No error
lies behind the last lexeme, and there lie those that report an end. -/
theorem parse_error_decided (h : Expr.parse ls = .error e) :
    e.position ≤ ls.length ∧
      (e.position < ls.length →
        ∀ ms, ms.take (e.position + 1) = ls.take (e.position + 1) → Expr.parse ms = .error e) ∧
      (e.AtEnd → e.position = ls.length) := by
  rcases run_eq_error h with ⟨before, l, after, mid, rfl, hdrive, hstep⟩ | ⟨last, -, hfinish⟩
  · obtain ⟨hleast, hmost, hend⟩ := reach_of_step hstep
    refine ⟨?_, fun _ ms htake => ?_, fun hat => absurd hat hend⟩
    · simp only [List.length_append, List.length_cons]
      omega
    · -- The failing lexeme stands before the position or at it, so both texts have it.
      have hshort : min (before.length + 1) (e.position + 1) = before.length + 1 := by omega
      have hcut := congrArg (List.take (before.length + 1)) htake
      rw [List.take_take, List.take_take, hshort] at hcut
      have hbegin : ms.take (before.length + 1) = before ++ [l] := by
        simpa [List.take_append, List.take_of_length_le] using hcut
      rw [← List.take_append_drop (before.length + 1) ms, hbegin, List.append_assoc]
      exact run_of_step_eq_error hdrive hstep _
  · have hposition : e.position = ls.length := by simpa using reach_of_finish hfinish
    exact ⟨by omega, fun hlt => by omega, fun _ => hposition⟩

/-- After an operand of AND that cannot be true or false, it does not matter what the parenthesis is followed by. -/
theorem parse_error_decided_operand :
    let opened : List Lexeme := [⟨.leftParen, "("⟩, ⟨.variable, "a"⟩, ⟨.operator .and, "AND"⟩, ⟨.number, "5"⟩]
    let close : Lexeme := ⟨.rightParen, ")"⟩
    let e := SyntaxError.noTruthValue .and "number" 4
    Expr.parse (opened ++ [close]) = .error e ∧ e.position < (opened ++ [close]).length ∧
      ∀ rest, Expr.parse (opened ++ close :: rest) = .error e := by
  intro opened close e
  have h : Expr.parse (opened ++ [close]) = .error e := rfl
  obtain ⟨-, hdecided, -⟩ := parse_error_decided h
  exact ⟨h, by decide, fun rest => hdecided (by decide) _ rfl⟩

end Grammar

end Criterion
