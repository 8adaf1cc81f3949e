import Criterion.Decimal

/-! What decimal notation writes and reads. The written form of a natural number is a run of digits
without a zero in front, and reading a numeral and the width of a machine word agree with the grammar
`[+-]? digit+` and with the range of the word. -/
namespace Criterion.Decimal

theorem isDigit_of_mem {n : Nat} {c : Char} (h : c ∈ Nat.toDigits 10 n) : c.isDigit = true :=
  Nat.isDigit_of_mem_toDigits (by decide) (by decide) h

theorem exists_toDigits_eq_cons (n : Nat) : ∃ d ds, Nat.toDigits 10 n = d :: ds ∧ d.isDigit = true := by
  have hne : Nat.toDigits 10 n ≠ [] := Nat.toDigits_ne_nil
  obtain ⟨d, ds, hdigits⟩ := List.exists_cons_of_ne_nil hne
  exact ⟨d, ds, hdigits, isDigit_of_mem (hdigits ▸ List.mem_cons_self)⟩

/-- Only zero itself is written with a zero in front. -/
theorem head?_toDigits_ne_zero {n : Nat} (hn : 0 < n) : (Nat.toDigits 10 n).head? ≠ some '0' := by
  induction n using Nat.strongRecOn with
  | _ n ih =>
    rw [Nat.toDigits_eq_if (by decide)]
    split
    · simp only [List.head?_cons, ne_eq, Option.some.injEq, Nat.digitChar_eq_zero]
      omega
    · rw [List.head?_append, Option.or_of_isSome (by simp [Nat.toDigits_ne_nil])]
      exact ih (n / 10) (by omega) (by omega)

theorem digits_of_nonneg {n : Int} (h : 0 ≤ n) : digits n = Nat.toDigits 10 n.natAbs := by
  rw [digits, if_neg (by omega)]

theorem toList_text (n : Nat) : (text n).toList = Nat.toDigits 10 n := by
  rw [text, String.toList_ofList, digits_of_nonneg (Int.natCast_nonneg n), Int.natAbs_natCast]

theorem ofDigits_toDigits (n : Nat) : ofDigits (Nat.toDigits 10 n) = n := Nat.ofDigitChars_ten_toDigits

theorem unsigned?_eq_some_iff {cs : List Char} {n : Nat} :
    unsigned? cs = some n ↔ cs ≠ [] ∧ (∀ c ∈ cs, c.isDigit = true) ∧ ofDigits cs = n := by
  have hcond : (!cs.isEmpty && cs.all Char.isDigit) = true ↔ cs ≠ [] ∧ ∀ c ∈ cs, c.isDigit = true := by
    simp
  unfold unsigned?
  split
  · rename_i h
    obtain ⟨hne, hd⟩ := hcond.mp h
    simp only [Option.some.injEq]
    exact ⟨fun hn => ⟨hne, hd, hn⟩, fun hn => hn.2.2⟩
  · rename_i h
    simp only [reduceCtorEq, false_iff]
    exact fun hn => h (hcond.mpr ⟨hn.1, hn.2.1⟩)

theorem int64?_eq_some_iff {n : Int} {value : Int64} : int64? n = some value ↔ value.toInt = n := by
  have hrange : Int64.minValue.toInt = -2 ^ 63 ∧ Int64.maxValue.toInt = 2 ^ 63 - 1 := by decide
  unfold int64?
  constructor
  · intro h
    split at h
    · rename_i hn
      obtain rfl := Option.some.inj h
      exact Int64.toInt_ofInt_of_le (by omega) (by omega)
    · contradiction
  · rintro rfl
    rw [if_pos ⟨value.minValue_le_toInt, value.toInt_le⟩, Int64.ofInt_toInt]

theorem uint64?_toNat (n : UInt64) : uint64? n.toNat = some n := by
  have := n.toNat_lt_size
  unfold uint64?
  rw [if_pos ⟨by omega, by omega⟩]
  simp

end Criterion.Decimal
