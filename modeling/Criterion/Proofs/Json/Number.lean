import Criterion.Json
import Criterion.Proofs.Numeral
import Criterion.Proofs.Shortest

/-! The texts of JSON numbers are numerals. A whole number is written as its digits, and a double as the digits of
its shortest decimal, laid out with a point or with an exponent. -/
namespace Criterion.Number

open Numeral

variable {cs : List Char} {exponent : Int}

theorem digits_toDigits (n : Nat) : Digits (Nat.toDigits 10 n) := fun _ => Decimal.isDigit_of_mem

theorem digits_replicate (n : Nat) : Digits (List.replicate n '0') := by
  intro c hc
  rw [List.eq_of_mem_replicate hc]
  rfl

theorem magnitude_of_significand (h : Significand cs) : Magnitude cs := by
  have hdecimal := Magnitude.decimal h .none
  rwa [List.append_nil] at hdecimal

/-- Whatever the exponent is, the layout of a coefficient is a decimal. -/
theorem magnitude_layout (hds : Digits cs) (hne : cs ≠ []) : Magnitude (layout cs exponent) := by
  have hzero : Digits ['0'] := digits_replicate 1
  unfold layout
  dsimp only
  split
  · refine .decimal ?_ (.signed (.inl rfl) ?_ (digits_toDigits _) Nat.toDigits_ne_nil)
    · split
      · obtain ⟨hd, hes⟩ := List.forall_mem_cons.mp hds
        exact .point (List.forall_mem_singleton.mpr hd) (List.cons_ne_nil _ _) hes
      · exact .whole hds hne
    · split <;> simp
  · split
    · exact magnitude_of_significand (.point hzero (List.cons_ne_nil _ _)
        (List.forall_mem_append.mpr ⟨digits_replicate _, hds⟩))
    · split
      · exact magnitude_of_significand (.point (List.forall_mem_append.mpr ⟨hds, digits_replicate _⟩)
          (List.append_ne_nil_of_left_ne_nil hne _) hzero)
      · refine magnitude_of_significand (.point ?_ ?_ ?_)
        · exact fun c hc => hds c (List.mem_of_mem_take hc)
        · simpa using hne
        · exact fun c hc => hds c (List.mem_of_mem_drop hc)

theorem digits_trimZeros (exponent : Int) (hds : Digits cs) : Digits (trimZeros cs exponent).1 :=
  fun c hc => hds c (List.mem_of_mem_take hc)

/-- A coefficient that begins with another digit than zero keeps that digit. -/
theorem trimZeros_ne_nil (exponent : Int) (hne : cs ≠ []) (hzero : cs.head? ≠ some '0') :
    (trimZeros cs exponent).1 ≠ [] := by
  obtain ⟨d, ds, rfl⟩ := List.exists_cons_of_ne_nil hne
  intro hnil
  have hzeros := @List.takeWhile_prefix _ (d :: ds).reverse fun c => decide (c = '0')
  have hlength : ((d :: ds).reverse.takeWhile fun c => decide (c = '0')).length = (d :: ds).reverse.length := by
    refine Nat.le_antisymm hzeros.length_le ?_
    have htake := (List.take_eq_nil_iff.mp hnil).resolve_right hne
    rw [List.length_reverse]
    omega
  have hall := List.takeWhile_eq_self_iff.mp (hzeros.eq_of_length hlength)
  have hd : d = '0' := by simpa using hall d (by simp)
  exact hzero (by rw [hd]; rfl)

theorem magnitude_rankDigits (rank : Nat) : Magnitude (rankDigits rank) := by
  rw [rankDigits]
  split
  · exact magnitude_of_significand (.point (digits_replicate 1) (List.cons_ne_nil _ _) (digits_replicate 1))
  · rename_i hrank
    have hpos := Binary64.shortest_pos (Nat.pos_of_ne_zero hrank)
    generalize Binary64.shortest rank = decimal at hpos
    obtain ⟨coefficient, exponent⟩ := decimal
    exact magnitude_layout (digits_trimZeros exponent (digits_toDigits coefficient))
      (trimZeros_ne_nil exponent Nat.toDigits_ne_nil (Decimal.head?_toDigits_ne_zero hpos))

theorem written_digits (n : Int) : Written (Decimal.digits n) := by
  have hmagnitude := magnitude_of_significand (.whole (digits_toDigits n.natAbs) Nat.toDigits_ne_nil)
  rw [Decimal.digits]
  split
  · exact .signed (.inr rfl) hmagnitude
  · exact .unsigned hmagnitude

theorem written_of_isFinite {n : Number} (h : n.isFinite = true) : Written n.digits := by
  match n with
  | .whole n => exact written_digits n
  | .double .nan => contradiction
  | .double (.signed negative rank) =>
    rw [digits]
    split
    · exact .signed (.inr rfl) (magnitude_rankDigits rank)
    · exact .unsigned (magnitude_rankDigits rank)

end Criterion.Number
