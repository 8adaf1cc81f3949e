import Criterion.Proofs.Binary64
import Criterion.Proofs.Shortest
import Mathlib.Order.Monotone.Basic

/-! Rounding to binary64. A number rounds to a rank between whose middles to the neighbours it lies. So a number that is
not smaller does not round to a smaller rank, a number that has a rank rounds to it, and two numbers that round to the
same rank are close to each other. The integers up to `2 ^ 53` have ranks. -/
namespace Criterion.Binary64

section Ranks

variable {m n power : Nat}

theorem units_strictMono : StrictMono units := strictMono_nat_of_lt_succ units_lt_succ

theorem binade_eq_pow : binade = 2 ^ 52 := rfl

/-- The rank below a number keeps its first 53 bits. -/
theorem units_rankBelow (n : Nat) :
    units (rankBelow n) = n / 2 ^ (n.log2 - 52) * 2 ^ (n.log2 - 52) ∧
      units (rankBelow n + 1) = (n / 2 ^ (n.log2 - 52) + 1) * 2 ^ (n.log2 - 52) := by
  rw [rankBelow, Nat.pow_eq]
  rcases Nat.lt_or_ge n binade with hsmall | hlarge
  · have hshift : n.log2 - 52 = 0 := by
      rcases Nat.eq_zero_or_pos n with rfl | hpos
      · simp
      · have := (Nat.log2_lt hpos.ne').mpr hsmall
        omega
    simp only [hshift, Nat.zero_mul, Nat.pow_zero, Nat.div_one, Nat.zero_add, Nat.mul_one]
    exact ⟨units_of_le hsmall.le, units_of_le hsmall⟩
  · have hne : n ≠ 0 := (Nat.lt_of_lt_of_le (by decide) hlarge).ne'
    have hlog : 52 ≤ n.log2 := (Nat.le_log2 hne).mpr hlarge
    have hself := Nat.log2_self_le hne
    have hnext := @Nat.lt_log2_self n
    obtain ⟨shift, hshift⟩ := Nat.exists_eq_add_of_le hlog
    rw [hshift, Nat.add_sub_cancel_left]
    rw [hshift, Nat.pow_add] at hself
    rw [hshift, Nat.pow_succ, Nat.pow_add, Nat.mul_right_comm] at hnext
    have hlow := (Nat.le_div_iff_mul_le (Nat.two_pow_pos shift)).mpr hself
    have hhigh := Nat.div_lt_of_lt_mul (Nat.mul_comm _ (2 ^ shift) ▸ hnext)
    obtain ⟨place, hplace⟩ := Nat.exists_eq_add_of_le hlow
    have hrank : shift * binade + n / 2 ^ shift = (shift + 1) * binade + place := by
      rw [hplace, binade_eq_pow]
      ring
    have hroom : place < binade := by
      rw [binade_eq_pow]
      omega
    rw [hrank, units_add hroom, units_add_succ hroom, hplace]
    exact ⟨rfl, rfl⟩

theorem rankBelow_bounds (n : Nat) : units (rankBelow n) ≤ n ∧ n < units (rankBelow n + 1) := by
  obtain ⟨hbelow, habove⟩ := units_rankBelow n
  rw [hbelow, habove]
  exact ⟨Nat.div_mul_le_self _ _, Nat.lt_mul_of_div_lt (Nat.lt_succ_self _) (Nat.two_pow_pos _)⟩

/-- Up to `2 ^ 53` times a power of two every integer has a rank. -/
theorem exists_units (h : m ≤ 2 ^ 53) (power : Nat) : ∃ rank, units rank = m * 2 ^ power := by
  refine ⟨rankBelow (m * 2 ^ power), (units_rankBelow _).1.trans (Nat.div_mul_cancel ?_)⟩
  have hbound : m * 2 ^ power ≤ 2 ^ (53 + power) := by
    rw [Nat.pow_add]
    exact Nat.mul_le_mul_right _ h
  rcases Nat.lt_or_eq_of_le hbound with hlt | heq
  · have hlog : (m * 2 ^ power).log2 - 52 ≤ power := by
      rcases Nat.eq_zero_or_pos (m * 2 ^ power) with hzero | hpos
      · simp [hzero]
      · have := (Nat.log2_lt hpos.ne').mpr hlt
        omega
    exact (Nat.pow_dvd_pow 2 hlog).mul_left m
  · rw [heq, Nat.log2_two_pow]
    exact Nat.pow_dvd_pow 2 (Nat.sub_le _ _)

end Ranks

section Nearest

variable {num num' den rank : Nat}

/-- The middle between a rank and the next one, counted in half steps. -/
def middle (rank : Nat) : Nat := units rank + units (rank + 1)

theorem middle_mono : Monotone middle := fun _ _ h =>
  Nat.add_le_add (units_strictMono.monotone h) (units_strictMono.monotone (Nat.add_le_add_right h 1))

/-- Rounding goes down from a number below the middle between two ranks and up from one above it. -/
theorem nearestRank_cases (num den : Nat) :
    ∃ below, below = rankBelow (num / den) ∧
      (nearestRank num den = below ∧ 2 * num ≤ middle below * den ∨
        nearestRank num den = below + 1 ∧ middle below * den ≤ 2 * num) := by
  refine ⟨_, rfl, ?_⟩
  simp only [nearestRank]
  generalize rankBelow (num / den) = below
  rw [show units below + units (below + 1) = middle below from rfl]
  split
  · rename_i hlow
    exact .inl ⟨rfl, hlow.le⟩
  · rename_i hlow
    split
    · rename_i hhigh
      exact .inr ⟨rfl, hhigh.le⟩
    · rename_i hhigh
      rcases Nat.mod_two_eq_zero_or_one below with heven | hodd
      · exact .inl ⟨by rw [heven, Nat.add_zero], Nat.not_lt.mp hhigh⟩
      · exact .inr ⟨by rw [hodd], Nat.not_lt.mp hlow⟩

/-- A number is not below the middles that come before the rank it rounds to. -/
theorem middle_le_of_lt (hden : 0 < den) (h : rank < nearestRank num den) : middle rank * den ≤ 2 * num := by
  obtain ⟨below, hrank, ⟨hnearest, -⟩ | ⟨hnearest, hmiddle⟩⟩ := nearestRank_cases num den
  · have hbelow := (rankBelow_bounds (num / den)).1
    rw [← hrank, Nat.le_div_iff_mul_le hden] at hbelow
    have hnext := units_strictMono.monotone (show rank + 1 ≤ below by omega)
    have hdouble : middle rank ≤ 2 * units below := by
      have := units_lt_succ rank
      rw [middle]
      omega
    calc middle rank * den ≤ 2 * units below * den := Nat.mul_le_mul_right den hdouble
      _ = 2 * (units below * den) := Nat.mul_assoc _ _ _
      _ ≤ 2 * num := Nat.mul_le_mul_left 2 hbelow
  · exact (Nat.mul_le_mul_right den (middle_mono (by omega))).trans hmiddle

/-- A number is not above the middles from the rank it rounds to on. -/
theorem le_middle_of_le (hden : 0 < den) (h : nearestRank num den ≤ rank) : 2 * num ≤ middle rank * den := by
  obtain ⟨below, hrank, ⟨hnearest, hmiddle⟩ | ⟨hnearest, -⟩⟩ := nearestRank_cases num den
  · exact hmiddle.trans (Nat.mul_le_mul_right den (middle_mono (by omega)))
  · have habove := (rankBelow_bounds (num / den)).2
    rw [← hrank, Nat.div_lt_iff_lt_mul hden] at habove
    have hself := units_strictMono.monotone (show below + 1 ≤ rank by omega)
    have hdouble : 2 * units (below + 1) ≤ middle rank := by
      have := units_lt_succ rank
      rw [middle]
      omega
    calc 2 * num ≤ 2 * (units (below + 1) * den) := Nat.mul_le_mul_left 2 habove.le
      _ = 2 * units (below + 1) * den := (Nat.mul_assoc _ _ _).symm
      _ ≤ middle rank * den := Nat.mul_le_mul_right den hdouble

/-- A number that is not smaller does not round to a smaller rank. -/
theorem nearestRank_mono (hden : 0 < den) (h : num ≤ num') : nearestRank num den ≤ nearestRank num' den := by
  by_contra hlt
  -- Then both numbers are the same middle, and they round alike.
  have hlow := middle_le_of_lt hden (Nat.not_le.mp hlt)
  have hhigh := le_middle_of_le hden (Nat.le_refl (nearestRank num' den))
  obtain rfl : num = num' := by omega
  exact hlt le_rfl

theorem nearestRank_of_units (hden : 0 < den) (h : num = units rank * den) : nearestRank num den = rank := by
  apply Nat.le_antisymm
  · by_contra hlt
    have hlow := middle_le_of_lt hden (Nat.not_le.mp hlt)
    have hstep := Nat.mul_lt_mul_of_pos_right (units_lt_succ rank) hden
    rw [middle, Nat.add_mul] at hlow
    omega
  · by_contra hlt
    obtain ⟨before, rfl⟩ := Nat.exists_eq_add_one_of_ne_zero (Nat.ne_zero_of_lt (Nat.not_le.mp hlt))
    have hhigh : 2 * num ≤ middle before * den := le_middle_of_le hden (Nat.lt_succ_iff.mp (Nat.not_le.mp hlt))
    have hstep := Nat.mul_lt_mul_of_pos_right (units_lt_succ before) hden
    rw [middle, Nat.add_mul] at hhigh
    omega

/-- Numbers of one rank differ by at most one part in `2 ^ 52`. -/
theorem nearestRank_close (hden : 0 < den) (h : nearestRank num den = nearestRank num' den)
    (hlarge : binade < nearestRank num den) : binade * num' ≤ binade * num + num := by
  obtain ⟨before, hbefore⟩ := Nat.exists_eq_add_one_of_ne_zero (Nat.ne_zero_of_lt hlarge)
  have hlow := middle_le_of_lt hden (show before < nearestRank num den by omega)
  have hhigh := le_middle_of_le hden (h.symm.trans hbefore).le
  obtain ⟨below, -, hbelow, -, hnarrow⟩ := exists_step before
  obtain ⟨above, -, habove, -, hwide⟩ := exists_step (before + 1)
  have hnarrow := Nat.mul_le_mul_right den (hnarrow (by omega))
  have hwide := Nat.mul_le_mul_right den (hwide (by omega))
  rw [middle] at hlow hhigh
  rw [habove] at hhigh
  rw [hbelow] at hlow hhigh hwide
  simp only [Nat.add_mul, Nat.mul_assoc, binade_eq] at hlow hhigh hnarrow hwide ⊢
  omega

end Nearest

section Integers

variable {m m' : Nat} {a b : Int}

/-- Where an integer stands in the order once it is rounded. -/
def wholePlace (n : Int) : Int := if n < 0 then -(wholeRank n.natAbs : Int) else wholeRank n.natAbs

/-- A number of 53 bits with zeros behind them has a rank. -/
theorem units_wholeRank_mul (h : m ≤ 2 ^ 53) (power : Nat) :
    units (wholeRank (m * 2 ^ power)) = m * 2 ^ power * stepsInOne := by
  obtain ⟨rank, hrank⟩ : ∃ rank, units rank = m * 2 ^ power * stepsInOne := by
    have hone : stepsInOne = 2 ^ 1074 := by decide +kernel
    rw [hone, Nat.mul_assoc, ← Nat.pow_add]
    exact exists_units h (power + 1074)
  rw [wholeRank, nearestRank_of_units Nat.one_pos (hrank.symm.trans (Nat.mul_one _).symm), hrank]

theorem units_wholeRank (h : m ≤ 2 ^ 53) : units (wholeRank m) = m * stepsInOne := by
  simpa using units_wholeRank_mul h 0

theorem wholeRank_mono (h : m ≤ m') : wholeRank m ≤ wholeRank m' :=
  nearestRank_mono Nat.one_pos (Nat.mul_le_mul_right _ h)

/-- Up to `2 ^ 53` no two natural numbers share a rank. -/
theorem wholeRank_lt (h : m < m') (hm' : m' ≤ 2 ^ 53) : wholeRank m < wholeRank m' := by
  rw [← units_strictMono.lt_iff_lt, units_wholeRank (h.le.trans hm'), units_wholeRank hm']
  exact Nat.mul_lt_mul_of_pos_right h stepsInOne_pos

theorem wholeRank_zero : wholeRank 0 = 0 := by decide +kernel

/-- One is a power of two far above the smallest one. -/
theorem binade_lt_wholeRank (h : 0 < m) : binade < wholeRank m :=
  Nat.lt_of_lt_of_le (by decide +kernel) (wholeRank_mono (Nat.succ_le_of_lt h))

theorem wholeRank_lt_infinity (h : m < 2 ^ 64) : wholeRank m < infinity :=
  Nat.lt_of_le_of_lt (wholeRank_mono h.le) (by decide +kernel)

/-- Natural numbers of one rank differ by at most one part in `2 ^ 52`. -/
theorem wholeRank_close (hm : 0 < m) (h : wholeRank m = wholeRank m') : 2 ^ 52 * m' ≤ 2 ^ 52 * m + m := by
  have hclose := nearestRank_close Nat.one_pos h (binade_lt_wholeRank hm)
  rw [binade_eq_pow, ← Nat.mul_assoc, ← Nat.mul_assoc, ← Nat.add_mul] at hclose
  exact Nat.le_of_mul_le_mul_right hclose stepsInOne_pos

/-- An integer that is not larger does not get a larger place. -/
theorem wholePlace_mono (h : a ≤ b) : wholePlace a ≤ wholePlace b := by
  unfold wholePlace
  split
  · split
    · have := wholeRank_mono (show b.natAbs ≤ a.natAbs by omega)
      omega
    · omega
  · rw [if_neg (by omega)]
    have := wholeRank_mono (show a.natAbs ≤ b.natAbs by omega)
    omega

/-- Between `-2 ^ 53` and `2 ^ 53` the places are in the order of the integers. -/
theorem wholePlace_lt (h : a < b) (ha : a.natAbs ≤ 2 ^ 53) (hb : b.natAbs ≤ 2 ^ 53) : wholePlace a < wholePlace b := by
  unfold wholePlace
  split
  · have hpos := binade_lt_wholeRank (show 0 < a.natAbs by omega)
    split
    · have := wholeRank_lt (show b.natAbs < a.natAbs by omega) ha
      omega
    · omega
  · rw [if_neg (by omega)]
    have := wholeRank_lt (show a.natAbs < b.natAbs by omega) hb
    omega

theorem wholePlace_zero : wholePlace 0 = 0 := by simp [wholePlace, wholeRank_zero]

theorem wholePlace_eq_zero_iff {n : Int} : wholePlace n = 0 ↔ n = 0 := by
  constructor
  · intro h
    by_contra hn
    have := binade_lt_wholeRank (Int.natAbs_pos.mpr hn)
    unfold wholePlace at h
    split at h <;> omega
  · rintro rfl
    exact wholePlace_zero

/-- Different integers of one place are close to each other. -/
theorem wholePlace_close (hne : a ≠ b) (h : wholePlace a = wholePlace b) :
    2 ^ 52 * (a - b).natAbs ≤ a.natAbs ∧ 2 ^ 52 * (a - b).natAbs ≤ b.natAbs := by
  have hzero : a = 0 ↔ b = 0 := by rw [← wholePlace_eq_zero_iff, h, wholePlace_eq_zero_iff]
  have ha : a ≠ 0 := by omega
  have hb : b ≠ 0 := by omega
  have hapos := binade_lt_wholeRank (Int.natAbs_pos.mpr ha)
  have hbpos := binade_lt_wholeRank (Int.natAbs_pos.mpr hb)
  -- The ranks are positive, so equal places have equal signs.
  obtain ⟨hsign, hrank⟩ : (a < 0 ↔ b < 0) ∧ wholeRank a.natAbs = wholeRank b.natAbs := by
    unfold wholePlace at h
    split at h <;> split at h <;> omega
  have hab := wholeRank_close (Int.natAbs_pos.mpr ha) hrank
  have hba := wholeRank_close (Int.natAbs_pos.mpr hb) hrank.symm
  omega

end Integers

end Criterion.Binary64
