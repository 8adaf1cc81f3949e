import Criterion.Binary64
import Mathlib.Tactic.Ring

/-! The spacing of the binary64 numbers. Each number lies one step below the next one, and it takes fewer than
`2 ^ 53` such steps to come down to zero. -/
namespace Criterion.Binary64

theorem binade_eq : binade = 4503599627370496 := rfl

/-- From the second binade on, a rank is a power of two and a place in it. -/
theorem units_add {power place : Nat} (hplace : place < binade) :
    units ((power + 1) * binade + place) = (binade + place) * 2 ^ power := by
  have hdiv : ((power + 1) * binade + place) / binade = power + 1 := by
    rw [Nat.mul_comm, Nat.mul_add_div (by decide), Nat.div_eq_of_lt hplace, Nat.add_zero]
  have hmod : ((power + 1) * binade + place) % binade = place := by
    rw [Nat.mul_comm, Nat.mul_add_mod, Nat.mod_eq_of_lt hplace]
  have hlarge : ¬ (power + 1) * binade + place < binade := by
    rw [Nat.add_mul, Nat.one_mul]
    omega
  rw [units, if_neg hlarge, hdiv, hmod]
  rfl

theorem exists_power_place {rank : Nat} (h : binade ≤ rank) :
    ∃ power place, place < binade ∧ rank = (power + 1) * binade + place := by
  refine ⟨rank / binade - 1, rank % binade, Nat.mod_lt _ (by decide), ?_⟩
  simp only [binade_eq] at h ⊢
  omega

/-- The first numbers are their own ranks. -/
theorem units_of_le {rank : Nat} (h : rank ≤ binade) : units rank = rank := by
  rcases Nat.lt_or_eq_of_le h with hlt | rfl
  · rw [units, if_pos hlt]
  · rfl

/-- Within a binade all steps have the same length, the last one into the next binade included. -/
theorem units_add_succ {power place : Nat} (hplace : place < binade) :
    units ((power + 1) * binade + place + 1) = (binade + place + 1) * 2 ^ power := by
  rcases Nat.lt_or_ge (place + 1) binade with hnext | hnext
  · rw [Nat.add_assoc, units_add hnext, Nat.add_assoc]
  · -- The last number of the binade is followed by the power of two.
    have hlast : place + 1 = binade := by omega
    have hrank : (power + 1) * binade + place + 1 = (power + 1 + 1) * binade + 0 := by
      rw [Nat.add_assoc, hlast]
      ring
    rw [hrank, units_add (by decide), Nat.add_assoc binade, hlast]
    ring

/-- One step leads to the next number, which is at most `2 ^ 53` steps of this length away from zero. From the second
binade on, the number itself is at least `2 ^ 52` of them away. -/
theorem exists_step (rank : Nat) :
    ∃ step, 0 < step ∧ units (rank + 1) = units rank + step ∧ units (rank + 1) ≤ 2 * binade * step ∧
      (binade ≤ rank → binade * step ≤ units rank) := by
  rcases Nat.lt_or_ge rank binade with hsmall | hlarge
  · have hnext : units (rank + 1) = rank + 1 := units_of_le hsmall
    have hself : units rank = rank := units_of_le (Nat.le_of_lt hsmall)
    exact ⟨1, Nat.one_pos, by rw [hnext, hself], by omega, fun hlarge => absurd hsmall (Nat.not_lt.mpr hlarge)⟩
  · obtain ⟨power, place, hplace, rfl⟩ := exists_power_place hlarge
    rw [units_add_succ hplace, units_add hplace]
    refine ⟨2 ^ power, Nat.two_pow_pos power, by ring, Nat.mul_le_mul_right _ (by omega), fun _ => ?_⟩
    exact Nat.mul_le_mul_right _ (Nat.le_add_right _ _)

theorem units_lt_succ (rank : Nat) : units rank < units (rank + 1) := by
  obtain ⟨step, hpos, hstep, -, -⟩ := exists_step rank
  omega

theorem units_pos {rank : Nat} (h : 0 < rank) : 0 < units rank := by
  have hlt := units_lt_succ (rank - 1)
  rw [Nat.sub_add_cancel h] at hlt
  omega

/-- The neighbours of a number are further apart than the number divided by `2 ^ 52`. -/
theorem units_lt_neighbours {rank : Nat} (h : 0 < rank) :
    units rank + binade * units (rank - 1) < binade * units (rank + 1) := by
  obtain ⟨above, hpos, habove, hwide, -⟩ := exists_step rank
  obtain ⟨below, -, hbelow, hnarrow, -⟩ := exists_step (rank - 1)
  rw [Nat.sub_add_cancel h] at hbelow hnarrow
  simp only [binade_eq] at hwide hnarrow ⊢
  omega

end Criterion.Binary64
