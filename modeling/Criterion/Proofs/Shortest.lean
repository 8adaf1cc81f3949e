import Criterion.Binary64.Shortest
import Criterion.Proofs.Binary64

/-! The shortest decimal. Of the decimals with seventeen digits one always lies between the middles to the
neighbours of a number, since the neighbours are further apart than two such decimals. So the search ends with a
decimal that reads back as the number. -/
namespace Criterion.Binary64

variable {rank c : Nat} {exponent : Int}

theorem stepsInOne_pos : 0 < stepsInOne := by decide +kernel

theorem stepsInOne_le : stepsInOne ≤ Nat.pow 10 330 := by decide +kernel

theorem ten_pow_le {n : Nat} (h : 0 < n) : 10 ^ ((Nat.toDigits 10 n).length - 1) ≤ n := by
  by_contra hlt
  rcases Nat.eq_zero_or_pos ((Nat.toDigits 10 n).length - 1) with hzero | hpos
  · rw [hzero] at hlt
    omega
  · have hlength := (Nat.length_toDigits_le_iff (by decide) hpos).mpr (Nat.lt_of_not_le hlt)
    omega

/-- A number is at least the power of ten that its digits count. -/
theorem ten_pow_mul_le {u s scale : Nat} (hu : 0 < u) (hs : 0 < s) (hscale : s ≤ Nat.pow 10 scale) :
    10 ^ ((Nat.toDigits 10 (u * Nat.pow 10 scale / s)).length - 1) * s ≤ u * Nat.pow 10 scale := by
  have hpos : 0 < u * Nat.pow 10 scale / s := Nat.div_pos (Nat.le_trans hscale (Nat.le_mul_of_pos_left _ hu)) hs
  exact (Nat.le_div_iff_mul_le hs).mp (ten_pow_le hpos)

theorem scaled_fst (c : Nat) (exponent : Int) : (scaled c exponent).1 = c * (scaled 1 exponent).1 := by
  simp [scaled, Nat.mul_assoc]

theorem scaled_snd (c : Nat) (exponent : Int) : (scaled c exponent).2 = (scaled 1 exponent).2 := rfl

theorem scaled_fst_pos (exponent : Int) : 0 < (scaled 1 exponent).1 := by
  rw [scaled, Nat.one_mul]
  exact Nat.mul_pos (Nat.pow_pos (by decide)) stepsInOne_pos

theorem scaled_snd_pos (exponent : Int) : 0 < (scaled 1 exponent).2 := Nat.pow_pos (by decide)

/-- A bound on a number of `digits` digits, with both sides scaled by other powers of ten. -/
theorem rescale {s u scale width up down digits : Nat} (hexponents : scale + (width + up) = down + digits)
    (h : 10 ^ digits * s ≤ u * Nat.pow 10 scale) : 10 ^ width * (Nat.pow 10 up * s) ≤ u * Nat.pow 10 down := by
  simp only [Nat.pow_eq] at h ⊢
  refine Nat.le_of_mul_le_mul_left ?_ (Nat.pow_pos (by decide) : 0 < 10 ^ scale)
  calc 10 ^ scale * (10 ^ width * (10 ^ up * s))
      = 10 ^ (scale + (width + up)) * s := by ring
    _ = 10 ^ down * (10 ^ digits * s) := by rw [hexponents, Nat.pow_add, Nat.mul_assoc]
    _ ≤ 10 ^ down * (u * 10 ^ scale) := Nat.mul_le_mul_left _ h
    _ = 10 ^ scale * (u * 10 ^ down) := by ring

/-- The seventeenth digit of a number counts for at most one part in `10 ^ 16`. -/
theorem grid_le (h : 0 < rank) :
    10 ^ 16 * (scaled 1 (leading rank - 16)).1 ≤ units rank * (scaled 1 (leading rank - 16)).2 := by
  have hdigits := ten_pow_mul_le (units_pos h) stepsInOne_pos stepsInOne_le
  have hleading : leading rank = (Nat.toDigits 10 (units rank * Nat.pow 10 330 / stepsInOne)).length - 331 := rfl
  have hlength := @Nat.length_toDigits_pos 10 (units rank * Nat.pow 10 330 / stepsInOne)
  generalize (Nat.toDigits 10 (units rank * Nat.pow 10 330 / stepsInOne)).length = length at hdigits hleading hlength
  rw [scaled, Nat.one_mul]
  -- The exponent of the grid is the difference of two numbers one of which is zero.
  refine rescale ?_ hdigits
  omega

theorem mem_neighbours :
    c ∈ neighbours rank exponent ↔
      c = units rank * (scaled 1 exponent).2 / (scaled 1 exponent).1 ∨
      c = units rank * (scaled 1 exponent).2 / (scaled 1 exponent).1 + 1 := by
  unfold neighbours
  generalize scaled 1 exponent = grid
  obtain ⟨num, den⟩ := grid
  dsimp only
  split
  · simp
  · simp [or_comm]

/-- A decimal reads back as the number next to which it lies. -/
theorem roundsTo_of_between
    (hlow : units (rank - 1) * (scaled 1 exponent).2 + units rank * (scaled 1 exponent).2 <
      2 * (c * (scaled 1 exponent).1))
    (hhigh : 2 * (c * (scaled 1 exponent).1) <
      units rank * (scaled 1 exponent).2 + units (rank + 1) * (scaled 1 exponent).2) :
    roundsTo rank c exponent = true := by
  rw [roundsTo]
  simp only [scaled_fst c, scaled_snd c, Nat.add_mul]
  split
  · simp only [Bool.and_eq_true, decide_eq_true_eq]
    omega
  · simp only [Bool.and_eq_true, decide_eq_true_eq]
    omega

/-- Of the two multiples around a number, one lies between the middles to its neighbours if these are further apart
than two multiples. -/
theorem between_or_between {low mid high num : Nat} (hnum : 0 < num) (hlow : low < mid) (hhigh : mid < high)
    (hwide : low + 2 * num < high) :
    (low + mid < 2 * (mid / num * num) ∧ 2 * (mid / num * num) < mid + high) ∨
      (low + mid < 2 * ((mid / num + 1) * num) ∧ 2 * ((mid / num + 1) * num) < mid + high) := by
  have hfloor : mid / num * num ≤ mid := Nat.div_mul_le_self mid num
  have hceil : mid < (mid / num + 1) * num := Nat.lt_mul_of_div_lt (Nat.lt_succ_self _) hnum
  rw [Nat.add_mul, Nat.one_mul] at *
  omega

/-- On a grid that is fine enough, one of the two decimals around a number reads back as it. -/
theorem exists_neighbour (h : 0 < rank)
    (hgrid : 10 ^ 16 * (scaled 1 exponent).1 ≤ units rank * (scaled 1 exponent).2) :
    ∃ c ∈ neighbours rank exponent, roundsTo rank c exponent = true := by
  have hden := scaled_snd_pos exponent
  have hbelow := units_lt_succ (rank - 1)
  rw [Nat.sub_add_cancel h] at hbelow
  have hlow := Nat.mul_lt_mul_of_pos_right hbelow hden
  have hhigh := Nat.mul_lt_mul_of_pos_right (units_lt_succ rank) hden
  have hapart := Nat.mul_lt_mul_of_pos_right (units_lt_neighbours h) hden
  rw [Nat.add_mul, Nat.mul_assoc, Nat.mul_assoc, binade_eq] at hapart
  rcases between_or_between (scaled_fst_pos exponent) hlow hhigh (by omega) with ⟨hl, hh⟩ | ⟨hl, hh⟩
  · exact ⟨_, mem_neighbours.mpr (.inl rfl), roundsTo_of_between hl hh⟩
  · exact ⟨_, mem_neighbours.mpr (.inr rfl), roundsTo_of_between hl hh⟩

theorem roundsTo_of_onGrid? (h : onGrid? rank exponent = some c) : roundsTo rank c exponent = true := by
  rw [onGrid?] at h
  have hfound := List.find?_some h
  exact hfound

theorem onGrid?_isSome (h : ∃ c ∈ neighbours rank exponent, roundsTo rank c exponent = true) :
    (onGrid? rank exponent).isSome := by
  rw [onGrid?, List.find?_isSome]
  exact h

/-- The search ends with a decimal that reads back if there is one on a grid that it gets to. -/
theorem roundsTo_search {tries steps : Nat} (hsteps : steps < tries) (h : (onGrid? rank (exponent - steps)).isSome) :
    roundsTo rank (search rank exponent tries).1 (search rank exponent tries).2 = true := by
  rw [search]
  generalize hhit : List.findSome? _ (List.range tries) = hit?
  cases hit? with
  | none =>
    rw [List.findSome?_eq_none_iff] at hhit
    have hmiss := hhit steps (List.mem_range.mpr hsteps)
    rw [Option.map_eq_none_iff.mp hmiss] at h
    contradiction
  | some decimal =>
    obtain ⟨finer, -, hfiner⟩ := List.exists_of_findSome?_eq_some hhit
    obtain ⟨c, hgrid, rfl⟩ := Option.map_eq_some_iff.mp hfiner
    exact roundsTo_of_onGrid? hgrid

/-- The shortest decimal of a number that is not zero reads back as the number. -/
theorem roundsTo_shortest (h : 0 < rank) : roundsTo rank (shortest rank).1 (shortest rank).2 = true :=
  roundsTo_search (by decide : 16 < 17) (onGrid?_isSome (exists_neighbour h (grid_le h)))

/-- Zero lies below the middle between a number and the one before it. -/
theorem roundsTo_zero (h : 0 < rank) : roundsTo rank 0 exponent = false := by
  have hmiddle := Nat.mul_pos (Nat.add_pos_right (units (rank - 1)) (units_pos h)) (scaled_snd_pos exponent)
  rw [roundsTo]
  simp only [scaled_fst 0, scaled_snd 0, Nat.zero_mul, Nat.mul_zero]
  split
  · simp only [Bool.and_eq_false_iff, decide_eq_false_iff_not]
    omega
  · simp only [Bool.and_eq_false_iff, decide_eq_false_iff_not]
    omega

theorem shortest_pos (h : 0 < rank) : 0 < (shortest rank).1 := by
  have hrounds := roundsTo_shortest h
  generalize shortest rank = decimal at hrounds
  apply Nat.pos_of_ne_zero
  intro hzero
  rw [hzero, roundsTo_zero h] at hrounds
  contradiction

end Criterion.Binary64
