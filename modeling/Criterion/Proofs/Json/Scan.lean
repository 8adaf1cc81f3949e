import Criterion.Json.Lexeme
import Criterion.Json.Write
import Criterion.Proofs.Numeral

/-! Scanning what is written. The lexeme at the front of a written scalar is that scalar, and it ends where
the scalar ends: a string at its closing quote, a 64-bit integer before the first character that continues
no number. -/
namespace Criterion.Json

/-- The text does not continue a number that stands in front of it. -/
def Delimited (rest : List Char) : Prop :=
  ∀ c ∈ rest.head?, c.isDigit = false ∧ c ≠ '.' ∧ c ≠ 'e' ∧ c ≠ 'E'

theorem delimited_nil : Delimited [] := by simp [Delimited]

theorem delimited_cons {c : Char} (rest : List Char)
    (h : c.isDigit = false ∧ c ≠ '.' ∧ c ≠ 'e' ∧ c ≠ 'E') : Delimited (c :: rest) := by
  simpa [Delimited] using h

/-- The integers that a JSON number keeps exactly. -/
def Exact (n : Int) : Prop := Int64.minValue.toInt ≤ n ∧ n < UInt64.size

section Numbers

variable {rest : List Char}

theorem fraction_of_delimited (hr : Delimited rest) : Numeral.fraction rest = ([], 0) :=
  Numeral.fraction_of_ne fun c hc => (hr c hc).2.1

theorem exponent?_of_delimited (hr : Delimited rest) : Numeral.exponent? rest = some (0, 0) := by
  cases rest with
  | nil => rfl
  | cons c cs =>
    obtain ⟨-, -, he, hE⟩ := hr c (by simp)
    exact Numeral.exponent?_of_ne (not_or.mpr ⟨he, hE⟩)

/-- The digits of a natural number are read as that number, whatever its width. -/
theorem scanUnsigned_toDigits (negative : Bool) (n : Nat) (hr : Delimited rest)
    (hfinite : (wholeNumber negative (Nat.toDigits 10 n)).isFinite = true) :
    scanUnsigned negative (Nat.toDigits 10 n ++ rest) =
      some (wholeNumber negative (Nat.toDigits 10 n), (Nat.toDigits 10 n).length) := by
  have hrun := Numeral.digitRun_append (fun _ => Decimal.isDigit_of_mem (n := n)) fun c hc => (hr c hc).1
  have hzero : ((Nat.toDigits 10 n).head? = some '0' && 1 < (Nat.toDigits 10 n).length) = false := by
    rcases Nat.eq_zero_or_pos n with rfl | hn
    · simp
    · simp [Decimal.head?_toDigits_ne_zero hn]
  simp [scanUnsigned, hrun, fraction_of_delimited hr, exponent?_of_delimited hr, hzero, Nat.toDigits_ne_nil, hfinite]

theorem wholeNumber_of_nonneg {n : Nat} (h : n < UInt64.size) : wholeNumber false (Nat.toDigits 10 n) = .whole n := by
  simp [wholeNumber, Decimal.ofDigits_toDigits, h]

theorem wholeNumber_of_neg {n : Nat} (hn : 0 < n) (h : Int64.minValue.toInt ≤ -(n : Int)) :
    wholeNumber true (Nat.toDigits 10 n) = .whole (-(n : Int)) := by
  rw [wholeNumber, Decimal.ofDigits_toDigits, if_neg (by simp), if_pos]
  simp only [Bool.true_and, Bool.and_eq_true, decide_eq_true_eq]
  exact ⟨hn, h⟩

theorem scanNumber_digits {n : Int} (hn : Exact n) (hr : Delimited rest) :
    scanNumber (Decimal.digits n ++ rest) = some (.whole n, (Decimal.digits n).length) := by
  obtain ⟨hlow, hhigh⟩ := hn
  unfold Decimal.digits
  split
  · have hw := wholeNumber_of_neg (n := n.natAbs) (by omega) (by omega)
    have hval : -((n.natAbs : Nat) : Int) = n := by omega
    have hscan := scanUnsigned_toDigits true n.natAbs hr (by rw [hw]; rfl)
    rw [List.cons_append, scanNumber, hscan, hw, hval]
    rfl
  · have hw := wholeNumber_of_nonneg (n := n.natAbs) (by omega)
    have hval : ((n.natAbs : Nat) : Int) = n := by omega
    have hscan := scanUnsigned_toDigits false n.natAbs hr (by rw [hw]; rfl)
    obtain ⟨d, ds, hds, hdigit⟩ := Decimal.exists_toDigits_eq_cons n.natAbs
    have hd : d ≠ '-' := by
      rintro rfl
      contradiction
    rw [hw, hval] at hscan
    rw [← hscan, hds, List.cons_append, scanNumber]
    exact fun cs hcs => hd (List.cons.inj hcs).1

/-- Digits and the sign begin no other lexeme than a number. -/
theorem scan?_eq_scanNumber {c : Char} {cs : List Char} (hc : c.isDigit = true ∨ c = '-') :
    scan? (c :: cs) = (scanNumber (c :: cs)).map fun (n, length) => (.number n, length) := by
  have hne {d : Char} (hd : d.isDigit = false) (hm : d ≠ '-') : c ≠ d := by
    rintro rfl
    rcases hc with hc | hc
    · rw [hd] at hc
      contradiction
    · exact hm hc
  unfold scan?
  split
  all_goals first
    | rfl
    | rename_i heq; exact absurd (List.cons.inj heq).1 (hne (by decide) (by decide))

theorem digits_eq_cons (n : Int) : ∃ c cs, Decimal.digits n = c :: cs ∧ (c.isDigit = true ∨ c = '-') := by
  unfold Decimal.digits
  split
  · exact ⟨_, _, rfl, .inr rfl⟩
  · obtain ⟨d, ds, hds, hdigit⟩ := Decimal.exists_toDigits_eq_cons n.natAbs
    exact ⟨d, ds, hds, .inl hdigit⟩

theorem scan?_digits {n : Int} (hn : Exact n) (hr : Delimited rest) :
    scan? (Decimal.digits n ++ rest) = some (.number (.whole n), (Decimal.digits n).length) := by
  obtain ⟨c, cs, hdigits, hc⟩ := digits_eq_cons n
  have hscan := scanNumber_digits hn hr
  rw [hdigits, List.cons_append] at hscan ⊢
  rw [scan?_eq_scanNumber hc, hscan]
  rfl

end Numbers

section Strings

/-- A character is written by a short escape, by its code or as it is. -/
theorem escape_cases (c : Char) :
    (∃ e, unescape? e = some c ∧ ∀ rest, escape c rest = '\\' :: e :: rest) ∨
      (c.toNat < 32 ∧ ∀ rest, escape c rest =
        '\\' :: 'u' :: '0' :: '0' :: hexDigit (c.toNat / 16) :: hexDigit c.toNat :: rest) ∨
      (c ≠ '"' ∧ c ≠ '\\' ∧ ¬ c.toNat < 32 ∧ ∀ rest, escape c rest = c :: rest) := by
  by_cases hshort : c ∈ ['"', '\\', '\x08', '\x0c', '\n', '\r', '\t']
  · refine .inl ?_
    simp only [List.mem_cons, List.not_mem_nil, or_false] at hshort
    rcases hshort with rfl | rfl | rfl | rfl | rfl | rfl | rfl
    · exact ⟨'"', rfl, fun _ => rfl⟩
    · exact ⟨'\\', rfl, fun _ => rfl⟩
    · exact ⟨'b', rfl, fun _ => rfl⟩
    · exact ⟨'f', rfl, fun _ => rfl⟩
    · exact ⟨'n', rfl, fun _ => rfl⟩
    · exact ⟨'r', rfl, fun _ => rfl⟩
    · exact ⟨'t', rfl, fun _ => rfl⟩
  · simp only [List.mem_cons, List.not_mem_nil, or_false, not_or] at hshort
    obtain ⟨hquote, hslash, hb, hf, hn, hr, ht⟩ := hshort
    by_cases hcontrol : c.toNat < 32
    · refine .inr (.inl ⟨hcontrol, fun rest => ?_⟩)
      rw [escape, if_neg hquote, if_neg hslash, if_neg hb, if_neg hf, if_neg hn, if_neg hr, if_neg ht,
        if_pos hcontrol]
    · refine .inr (.inr ⟨hquote, hslash, hcontrol, fun rest => ?_⟩)
      rw [escape, if_neg hquote, if_neg hslash, if_neg hb, if_neg hf, if_neg hn, if_neg hr, if_neg ht,
        if_neg hcontrol]

theorem escape_eq_append (c : Char) (rest : List Char) : escape c rest = escape c [] ++ rest := by
  rcases escape_cases c with ⟨e, -, h⟩ | ⟨-, h⟩ | ⟨-, -, -, h⟩
  · rw [h, h []]
    rfl
  · rw [h, h []]
    rfl
  · rw [h, h []]
    rfl

theorem foldr_escape_eq_append (s rest : List Char) : s.foldr escape rest = s.foldr escape [] ++ rest := by
  induction s with
  | nil => rfl
  | cons c s ih =>
    rw [List.foldr_cons, List.foldr_cons, escape_eq_append c, ih, escape_eq_append c (s.foldr escape []),
      List.append_assoc]

/-- The two digits after `00` give back every control character. -/
theorem hex4?_hexDigit {n : Nat} (hn : n < 32) : hex4? '0' '0' (hexDigit (n / 16)) (hexDigit n) = some n := by
  have hall : ∀ m : Fin 32, hex4? '0' '0' (hexDigit (m.val / 16)) (hexDigit m.val) = some m.val := by decide
  exact hall ⟨n, hn⟩

theorem scanString_short {e c : Char} (h : unescape? e = some c) (rest : List Char) :
    scanString ('\\' :: e :: rest) = (scanString rest).map fun (s, n) => (c :: s, n + 2) := by
  rw [scanString]
  · rw [h]
  · rintro a b x y cs ⟨rfl, -⟩
    contradiction

/-- An escaped character is scanned as itself, and takes as many characters as its escape has. -/
theorem scanString_escape (c : Char) (rest : List Char) :
    scanString (escape c rest) = (scanString rest).map fun (s, n) => (c :: s, n + (escape c []).length) := by
  rcases escape_cases c with ⟨e, he, h⟩ | ⟨hcontrol, h⟩ | ⟨hquote, hslash, hcontrol, h⟩
  · rw [h, h, scanString_short he]
    rfl
  · have hsurrogate : isHighSurrogate c.toNat = false ∧ isLowSurrogate c.toNat = false := by
      simp only [isHighSurrogate, isLowSurrogate, Bool.and_eq_false_iff, decide_eq_false_iff_not]
      omega
    rw [h, h]
    simp [scanString, hex4?_hexDigit hcontrol, hsurrogate, Char.ofNat_toNat]
  · rw [h, h, scanString]
    · simp [hcontrol]
    · exact hquote
    · intros
      contradiction
    · intros
      contradiction

theorem scanString_foldr_escape (s rest : List Char) :
    scanString (s.foldr escape ('"' :: rest)) = some (s, (s.foldr escape []).length + 1) := by
  induction s with
  | nil => rfl
  | cons c s ih =>
    rw [List.foldr_cons, scanString_escape, ih, List.foldr_cons, escape_eq_append c (s.foldr escape []),
      List.length_append]
    simp only [Option.map_some]
    congr 2
    omega

/-- A written string in front of the text that follows it. -/
theorem writeString_eq_append (s : String) (rest : List Char) :
    writeString s rest = '"' :: (s.toList.foldr escape [] ++ ['"']) ++ rest := by
  rw [writeString, foldr_escape_eq_append]
  simp

theorem scan?_writeString (s : String) (rest : List Char) :
    scan? (writeString s rest) = some (.string s, (s.toList.foldr escape [] ++ ['"']).length + 1) := by
  rw [writeString, scan?, scanString_foldr_escape]
  simp

end Strings

end Criterion.Json
