import Criterion.Proofs.Json.Spelling

/-! Reading does not look behind a value. A number ends at the first character that does not belong to it, and
everything else is known by its own last character. So an array or an object at the front of a text is read from any
longer text as well, and a written array or object of which something is missing is no JSON text any more. -/
namespace Criterion

namespace Numeral

variable {cs tail : List Char}

theorem digitRun_append_of_lt (h : (digitRun cs).length < cs.length) : digitRun (cs ++ tail) = digitRun cs := by
  exact List.takeWhile_append.trans (if_neg (Nat.ne_of_lt h))

theorem fraction_append_of_lt (h : (fraction cs).2 < cs.length) : fraction (cs ++ tail) = fraction cs := by
  cases cs with
  | nil => contradiction
  | cons c cs =>
    by_cases hc : c = '.'
    · subst hc
      have hrun : (digitRun cs).length < cs.length := Nat.lt_of_succ_lt_succ h
      rw [List.cons_append, fraction, fraction, digitRun_append_of_lt hrun]
    · rw [fraction_of_ne (by simpa using hc), fraction_of_ne (by simpa using hc)]

/-- The digits of an exponent, behind the `k` characters in front of them. -/
theorem digitRun_of_taken {k n : Nat} {value exponent : Int}
    (h : (if (digitRun cs).isEmpty then none else some (value, (digitRun cs).length + k)) = some (exponent, n))
    (hn : n < cs.length + k) (tail : List Char) : digitRun (cs ++ tail) = digitRun cs := by
  split at h
  · contradiction
  · obtain ⟨-, rfl⟩ := Prod.mk.inj (Option.some.inj h)
    exact digitRun_append_of_lt (Nat.lt_of_add_lt_add_right hn)

theorem exponent?_append_of_lt {exponent : Int} {n : Nat} (h : exponent? cs = some (exponent, n)) (hn : n < cs.length) :
    exponent? (cs ++ tail) = some (exponent, n) := by
  cases cs with
  | nil => contradiction
  | cons mark cs =>
    rw [List.cons_append]
    by_cases hmark : mark = 'e' ∨ mark = 'E'
    · cases cs with
      | nil =>
        obtain ⟨value, hvalue⟩ := exponent?_unsigned hmark
        rw [hvalue [] nofun] at h
        contradiction
      | cons c cs =>
        by_cases hsign : c = '+' ∨ c = '-'
        · obtain ⟨value, hvalue⟩ := exponent?_signed hmark hsign
          rw [hvalue] at h
          rw [List.cons_append, hvalue, digitRun_of_taken h hn]
          exact h
        · have hhead : ∀ (rest : List Char), ∀ d ∈ (c :: rest).head?, d ≠ '+' ∧ d ≠ '-' := by
            rintro rest d hd
            obtain rfl := Option.some.inj hd
            exact not_or.mp hsign
          obtain ⟨value, hvalue⟩ := exponent?_unsigned hmark
          rw [hvalue _ (hhead cs)] at h
          rw [List.cons_append, hvalue _ (hhead _), ← List.cons_append, digitRun_of_taken h hn]
          exact h
    · rw [exponent?_of_ne hmark] at h ⊢
      exact h

end Numeral

namespace Json

section Scanning

variable {cs tail : List Char} {n : Nat}

theorem scanUnsigned_append_of_lt {negative : Bool} {x : Number} (h : scanUnsigned negative cs = some (x, n))
    (hn : n < cs.length) : scanUnsigned negative (cs ++ tail) = some (x, n) := by
  obtain ⟨part, length, exponent, taken, -, hpart, hexponent, htaken⟩ := taken_of_scanUnsigned h
  have hdrop {k : Nat} (hk : k ≤ n) : (cs ++ tail).drop k = cs.drop k ++ tail :=
    List.drop_append_of_le_length (by omega)
  have hrun : Numeral.digitRun (cs ++ tail) = Numeral.digitRun cs := Numeral.digitRun_append_of_lt (by omega)
  have hpart' : Numeral.fraction ((cs ++ tail).drop (Numeral.digitRun cs).length) = (part, length) := by
    rw [hdrop (by omega), ← hpart]
    refine Numeral.fraction_append_of_lt ?_
    rw [hpart, List.length_drop]
    omega
  have hexponent' : Numeral.exponent? ((cs ++ tail).drop ((Numeral.digitRun cs).length + length)) =
      some (exponent, taken) := by
    rw [hdrop (by omega)]
    refine Numeral.exponent?_append_of_lt hexponent ?_
    rw [List.length_drop]
    omega
  rw [← h, scanUnsigned, scanUnsigned]
  simp only [hrun, hpart, hpart', hexponent, hexponent']

theorem scanNumber_append_of_lt {x : Number} (h : scanNumber cs = some (x, n)) (hn : n < cs.length)
    (tail : List Char) : scanNumber (cs ++ tail) = some (x, n) := by
  unfold scanNumber at h
  split at h
  · obtain ⟨⟨y, k⟩, hscan, heq⟩ := Option.map_eq_some_iff.mp h
    obtain ⟨rfl, rfl⟩ := Prod.mk.inj heq
    rw [List.cons_append, scanNumber, scanUnsigned_append_of_lt hscan (Nat.lt_of_succ_lt_succ hn)]
    rfl
  · rename_i hminus
    cases cs with
    | nil => contradiction
    | cons c cs =>
      rw [List.cons_append, scanNumber, ← List.cons_append, scanUnsigned_append_of_lt h hn]
      rintro rest heq
      exact hminus cs (congrArg (· :: cs) (List.cons.inj heq).1)

/-- A scan that has taken `k` characters and goes on behind them. -/
theorem scanString_rest {s : List Char} {c : Char} {k : Nat}
    (ih : ∀ {s n}, scanString cs = some (s, n) → scanString (cs ++ tail) = some (s, n))
    (h : ((scanString cs).map fun (s, n) => (c :: s, n + k)) = some (s, n)) :
    ((scanString (cs ++ tail)).map fun (s, n) => (c :: s, n + k)) = some (s, n) := by
  obtain ⟨⟨s', n'⟩, hscan, heq⟩ := Option.map_eq_some_iff.mp h
  rw [ih hscan, Option.map_some, heq]

/-- A string ends at its closing quote. -/
theorem scanString_append {s : List Char} (h : scanString cs = some (s, n)) (tail : List Char) :
    scanString (cs ++ tail) = some (s, n) := by
  fun_induction scanString cs generalizing s n with
  | case1 | case3 | case4 | case6 | case7 | case8 | case10 | case12 => contradiction
  | case2 => exact h
  | case5 a b c d unit hunit hhigh e f g h' cs low hlow hpair ih =>
    simp only [List.cons_append, scanString, hunit, hhigh, hlow, hpair, if_true]
    exact scanString_rest ih h
  | case9 a b c d cs unit hunit hhigh hlow ih =>
    simp only [List.cons_append, scanString, hunit, hhigh, hlow]
    exact scanString_rest ih h
  | case11 e cs hne c hescape ih =>
    rw [List.cons_append, List.cons_append, scanString_short hescape]
    exact scanString_rest ih h
  | case13 c cs hquote hunit hescape hcontrol ih =>
    have hc : c ≠ '\\' := by
      rintro rfl
      cases cs with
      | nil => contradiction
      | cons e cs => exact hescape e cs rfl rfl
    rw [List.cons_append, scanString, if_neg hcontrol]
    · exact scanString_rest ih h
    · exact hquote
    · exact fun _ _ _ _ _ heq => absurd heq hc
    · exact fun _ _ heq => absurd heq hc

theorem exists_cons_of_scanNumber {x : Number} (h : scanNumber cs = some (x, n)) :
    ∃ c rest, cs = c :: rest ∧ (c.isDigit = true ∨ c = '-') := by
  unfold scanNumber at h
  split at h
  · exact ⟨_, _, rfl, .inr rfl⟩
  · obtain ⟨-, -, -, -, hne, -⟩ := taken_of_scanUnsigned h
    obtain ⟨c, rest, hrun⟩ := List.exists_cons_of_ne_nil hne
    have hdigit : c.isDigit = true := by
      have hmem : c ∈ Numeral.digitRun cs := by simp [hrun]
      exact List.mem_takeWhile_imp hmem
    obtain ⟨rest', hcs⟩ : Numeral.digitRun cs <+: cs := List.takeWhile_prefix _
    rw [hrun, List.cons_append] at hcs
    exact ⟨c, _, hcs.symm, .inl hdigit⟩

/-- Of all lexemes, only a number may go on where a text ends. -/
theorem scan?_append {l : Lexeme} (h : scan? cs = some (l, n)) (hl : (∃ x, l = .number x) → n < cs.length)
    (tail : List Char) : scan? (cs ++ tail) = some (l, n) := by
  unfold scan? at h
  split at h
  -- All lexemes but strings and numbers are known by their first characters.
  all_goals try exact h
  · obtain ⟨⟨s, k⟩, hscan, heq⟩ := Option.map_eq_some_iff.mp h
    rw [List.cons_append, scan?, scanString_append hscan, Option.map_some, heq]
  · obtain ⟨⟨x, k⟩, hscan, heq⟩ := Option.map_eq_some_iff.mp h
    obtain ⟨rfl, rfl⟩ := Prod.mk.inj heq
    obtain ⟨c, rest, rfl, hc⟩ := exists_cons_of_scanNumber hscan
    have hagain := scanNumber_append_of_lt hscan (hl ⟨x, rfl⟩) tail
    rw [List.cons_append] at hagain ⊢
    rw [scan?_eq_scanNumber hc, hagain]
    rfl

end Scanning

section Reading

variable {limit : Option Nat} {s : State} {v : Json} {text rest tail : List Char}

theorem readFrom_of_length_le {skip : Nat} (h : text.length ≤ skip) : readFrom limit s skip text = none := by
  induction text generalizing skip with
  | nil => cases skip <;> rfl
  | cons c cs ih =>
    cases skip with
    | zero => contradiction
    | succ skip => exact ih (Nat.le_of_succ_le_succ h)

/-- Only a number is done with a number. -/
theorem eq_number_of_step {x : Number} (h : step limit s (.number x) = some (.done v)) : v = .number x := by
  have hcomplete {frames : List Frame} (h : some (complete (.number x) frames) = some (.done v)) : v = .number x := by
    cases frames with
    | nil => exact (Progress.done.inj (Option.some.inj h)).symm
    | cons f frames => cases f <;> cases h
  cases s with
  | value frames | firstItem frames => exact hcomplete h
  | firstKey | key | colon | afterItem | afterMember => cases h

/-- A value that is no number is read from any longer text. -/
theorem readFrom_append {skip : Nat} (h : readFrom limit s skip text = some (v, rest)) (hv : ∀ x, v ≠ .number x)
    (tail : List Char) : readFrom limit s skip (text ++ tail) = some (v, rest ++ tail) := by
  induction text generalizing s skip with
  | nil => cases skip <;> contradiction
  | cons c cs ih =>
    cases skip with
    | succ skip => exact ih h
    | zero =>
      rw [readFrom] at h
      rw [List.cons_append, readFrom]
      split at h
      · rename_i hblank
        rw [if_pos hblank]
        exact ih h
      · rename_i hblank
        rw [if_neg hblank]
        split at h
        · contradiction
        · rename_i l length hscan
          split at h
          · contradiction
          · rename_i next hstep
            -- What is still to be read stands behind the lexeme.
            have hshort : length < (c :: cs).length := by
              apply Nat.lt_of_not_le
              intro hlong
              rw [readFrom_of_length_le (Nat.le_sub_one_of_lt hlong)] at h
              contradiction
            have hagain := scan?_append hscan (fun _ => hshort) tail
            rw [List.cons_append] at hagain
            rw [hagain]
            simp only [hstep]
            exact ih h
          · rename_i w hstep
            obtain ⟨rfl, rfl⟩ := Prod.mk.inj (Option.some.inj h)
            have hnumber : ¬ ∃ x, l = .number x := by
              rintro ⟨x, rfl⟩
              exact hv x (eq_number_of_step hstep)
            have hagain := scan?_append hscan (fun hx => absurd hx hnumber) tail
            have hlength := (length_of_scan? hscan).2
            rw [List.cons_append] at hagain
            rw [hagain]
            simp only [hstep]
            rw [← List.cons_append, List.drop_append_of_le_length hlength]

/-- What begins with a brace is no number. -/
theorem ne_number_of_readFirst {text : String} (h : readFirst limit text = some (v, rest))
    (hbrace : text.toList.head? = some '{') (x : Number) : v ≠ .number x := by
  rintro rfl
  obtain ⟨hspells, -⟩ := readFirst_eq_some_iff.mp h
  obtain ⟨after, hafter⟩ := List.head?_eq_some_iff.mp hbrace
  generalize htext : text.toList = cs at hspells
  rw [htext] at hafter
  cases hspells with
  | @cons blanks middle _ cs c l ls hblanks hc hscan htail =>
    cases blanks with
    | nil =>
      obtain ⟨rfl, -⟩ := List.cons.inj hafter
      have hscan' : scan? ('{' :: cs ++ middle) = some (.leftBrace, 1) := rfl
      cases hscan'.symm.trans hscan
    | cons b blanks =>
      obtain ⟨rfl, -⟩ := List.cons.inj hafter
      have := hblanks '{' (by simp)
      contradiction

/-- Of a text that is used up by an object, no part in front is a JSON text. -/
theorem readFirst_of_missing {text front : String} {missing : List Char} (h : readFirst limit text = some (v, []))
    (hbrace : text.toList.head? = some '{') (htext : text.toList = front.toList ++ missing) (hne : missing ≠ []) :
    readFirst limit front = none := by
  rw [Option.eq_none_iff_forall_ne_some]
  rintro ⟨w, rest⟩ hread
  have hfront : front.toList.head? = some '{' := by
    cases hcs : front.toList with
    | nil =>
      rw [readFirst, hcs] at hread
      contradiction
    | cons c cs => rwa [htext, hcs] at hbrace
  have hagain := readFrom_append hread (ne_number_of_readFirst hread hfront) missing
  rw [readFirst, htext, hagain] at h
  obtain ⟨-, hrest⟩ := Prod.mk.inj (Option.some.inj h)
  exact hne (List.append_eq_nil_iff.mp hrest).2

end Reading

end Json

end Criterion
