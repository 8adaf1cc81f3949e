import Criterion.Proofs.Coercion
import Criterion.Proofs.Encoding
import Criterion.Proofs.Rounding

/-! Orderings of integers. Both operands go through decimal text to binary64, and the four orderings then agree with
the order of the rounded integers. Rounding keeps the order and is exact up to `2 ^ 53`, so integers never come out
the wrong way round; beyond it two integers close to each other may come out equal. -/
namespace Criterion

theorem Scientific.round_whole (negative : Bool) {m : Nat} (hm : m < 2 ^ 64) :
    Scientific.round ⟨negative, m, 0⟩ = .signed negative (Binary64.wholeRank m) := by
  have hone : Nat.pow 10 (0 : Int).toNat = 1 ∧ Nat.pow 10 (-0 : Int).toNat = 1 := ⟨rfl, rfl⟩
  rw [round]
  simp only [top, Int.add_zero, hone, Nat.mul_one]
  rcases Nat.eq_zero_or_pos m with rfl | hpos
  · simp [Binary64.wholeRank_zero]
  · have hlength : (Nat.toDigits 10 m).length ≤ 20 :=
      (Nat.length_toDigits_le_iff (by decide) (by decide)).mpr (by omega)
    rw [if_neg (by omega), if_neg (by omega), ← Binary64.wholeRank,
      Nat.min_eq_right (Binary64.wholeRank_lt_infinity hm).le]

namespace Numeral

variable {negative : Bool} {ds : List Char}

theorem isAlpha_of_digits (hds : Digits ds) : ∀ d ∈ ds.head?, d.isAlpha = false :=
  fun d hd => Text.isAlpha_of_isDigit (hds d (List.mem_of_mem_head? hd))

theorem magnitude?_of_digits (hds : Digits ds) (hne : ds ≠ []) :
    magnitude? negative ds = some (Scientific.round ⟨negative, Decimal.ofDigits ds, 0⟩) := by
  rw [magnitude?_of_not_alpha (isAlpha_of_digits hds), decimal?]
  simp [digitRun_of_digits hds, fraction, exponent?, hne, scientific]

/-- Without a sign or with a minus sign, digits are read as a whole number. -/
theorem read?_of_digits (hds : Digits ds) (hne : ds ≠ []) :
    read? ds = some (Scientific.round ⟨false, Decimal.ofDigits ds, 0⟩) ∧
      read? ('-' :: ds) = some (Scientific.round ⟨true, Decimal.ofDigits ds, 0⟩) := by
  have hadmits : admits ds = true := admits_iff.mpr (.inl (isAlpha_of_digits hds))
  constructor
  · rw [← magnitude?_of_digits hds hne, read?]
    unfold unsigned float?
    split
    · have := hds '+' (by simp)
      contradiction
    · have := hds '-' (by simp)
      contradiction
    · exact if_pos hadmits
  · rw [← magnitude?_of_digits hds hne]
    exact if_pos hadmits

/-- The text of an integer is read as the integer, rounded. -/
theorem read?_text {n : Int} (hn : n.natAbs < 2 ^ 64) :
    read? (Text.trim (Decimal.text n).toList) = some (.signed (n < 0) (Binary64.wholeRank n.natAbs)) := by
  obtain ⟨hplain, hminus⟩ := read?_of_digits (Number.digits_toDigits n.natAbs) Nat.toDigits_ne_nil
  rw [Decimal.ofDigits_toDigits, Scientific.round_whole _ hn] at hplain hminus
  rw [Decimal.text, trim_of_written (Number.written_digits n), Decimal.digits]
  split
  · rename_i hneg
    rw [hminus, decide_eq_true hneg]
  · rename_i hneg
    rw [hplain, decide_eq_false hneg]

end Numeral

namespace Expr

open Binary64 (wholePlace)

/-- An integer of the expression, or a variable that holds an integer of the document. The integer zero is held as a
double when it is written with a minus sign. -/
inductive Integral (document : Json) : Expr → Int → Prop
  | literal (value : Int64) : Integral document (.atom (.number value)) value.toInt
  | held {path : String} {n : Int} (hn : Json.Exact n)
    (h : (Path.ofString path).lookup? document = some (.number (.whole n))) : Integral document (.atom (.variable path)) n
  | minusZero {path : String}
    (h : (Path.ofString path).lookup? document = some (.number (.double (.signed true 0)))) :
    Integral document (.atom (.variable path)) 0

/-- The four orderings of two operands come out as those of two integers. -/
structure Ordered (document : Json) (left right : Expr) (a b : Int) : Prop where
  less : evaluate document (.binary .less left right) = .ok (decide (a < b))
  atMost : evaluate document (.binary .atMost left right) = .ok (decide (a ≤ b))
  greater : evaluate document (.binary .greater left right) = .ok (decide (a > b))
  atLeast : evaluate document (.binary .atLeast left right) = .ok (decide (a ≥ b))

section Integers

variable {document : Json} {op : Operator} {e left right : Expr} {a b n : Int}

/-- As an operand of an ordering an integer stands where it rounds to. -/
theorem numeric_of_integral (op : Operator) (h : Integral document e n) :
    ∃ x, numeric op e (resolve document e) = .ok x ∧ x.place? = some (wholePlace n) := by
  have hplace (n : Int) :
      (Binary64.signed (n < 0) (Binary64.wholeRank n.natAbs)).place? = some (wholePlace n) := by
    by_cases hn : n < 0 <;> simp [hn, Binary64.place?, wholePlace]
  have hrange {n : Int} (hn : Json.Exact n) : n.natAbs < 2 ^ 64 := by
    have hlow : Int64.minValue.toInt = -2 ^ 63 := rfl
    have : n < 2 ^ 64 := hn.2
    have := hn.1
    omega
  cases h with
  | literal value =>
    exact ⟨_, numeric_of_read? rfl (Numeral.read?_text (hrange (exact_toInt value))), hplace _⟩
  | held hn hlookup => exact ⟨_, numeric_of_read? (resolve_held hlookup) (Numeral.read?_text (hrange hn)), hplace _⟩
  | minusZero hlookup =>
    have hzero : Numeral.read? (Text.trim (Number.text (.double (.signed true 0))).toList) = some (.signed true 0) := by
      decide +kernel
    exact ⟨_, numeric_of_read? (resolve_held hlookup) hzero, congrArg some Binary64.wholePlace_zero.symm⟩

theorem evaluate_integral (hop : op.isOrdering = true) (hleft : Integral document left a)
    (hright : Integral document right b) :
    evaluate document (.binary op left right) = .ok (ordering op (wholePlace a) (wholePlace b)) := by
  obtain ⟨x, hx, hxplace⟩ := numeric_of_integral op hleft
  obtain ⟨y, hy, hyplace⟩ := numeric_of_integral op hright
  rw [evaluate_ordering hop, hx, hy]
  simp [Binary64.compareWith, hxplace, hyplace, ok_bind]

theorem ordered_places (hleft : Integral document left a) (hright : Integral document right b) :
    Ordered document left right (wholePlace a) (wholePlace b) :=
  ⟨evaluate_integral rfl hleft hright, evaluate_integral rfl hleft hright, evaluate_integral rfl hleft hright,
    evaluate_integral rfl hleft hright⟩

theorem Ordered.congr {a' b' : Int} (h : Ordered document left right a b) (hlt : a < b ↔ a' < b')
    (hgt : b < a ↔ b' < a') : Ordered document left right a' b' where
  less := by rw [h.less, decide_eq_decide.mpr hlt]
  atMost := by rw [h.atMost, decide_eq_decide.mpr (show a ≤ b ↔ a' ≤ b' by omega)]
  greater := by rw [h.greater, decide_eq_decide.mpr hgt]
  atLeast := by rw [h.atLeast, decide_eq_decide.mpr (show b ≤ a ↔ b' ≤ a' by omega)]

/-- Integers that do not share a place come out in their order. -/
theorem ordered_of_places (hleft : Integral document left a) (hright : Integral document right b)
    (h : wholePlace a = wholePlace b → a = b) : Ordered document left right a b := by
  have hplace {m n : Int} (hne : wholePlace m = wholePlace n → m = n) : wholePlace m < wholePlace n ↔ m < n := by
    constructor
    · intro hlt
      by_contra hle
      exact absurd (Binary64.wholePlace_mono (Int.not_lt.mp hle)) (Int.not_le.mpr hlt)
    · intro hlt
      exact lt_of_le_of_ne (Binary64.wholePlace_mono hlt.le) fun heq => hlt.ne (hne heq)
  exact (ordered_places hleft hright).congr (hplace h) (hplace fun heq => (h heq.symm).symm)

/-- Integers are never ordered the wrong way round: up to `2 ^ 53` they are ordered exactly, and beyond it the one
deviation is that two of them which differ by at most one part in `2 ^ 52` come out equal. -/
theorem integers_ordered (hleft : Integral document left a) (hright : Integral document right b) :
    (a.natAbs ≤ 2 ^ 53 → b.natAbs ≤ 2 ^ 53 → Ordered document left right a b) ∧
    (a ≤ b →
      evaluate document (.binary .atMost left right) = .ok true ∧
      evaluate document (.binary .atLeast right left) = .ok true ∧
      evaluate document (.binary .greater left right) = .ok false ∧
      evaluate document (.binary .less right left) = .ok false) ∧
    (Ordered document left right a b ∨
      a ≠ b ∧ 2 ^ 52 * (a - b).natAbs ≤ a.natAbs ∧ 2 ^ 52 * (a - b).natAbs ≤ b.natAbs ∧
        Ordered document left right a a) := by
  refine ⟨fun ha hb => ?_, fun hle => ?_, ?_⟩
  · refine ordered_of_places hleft hright fun heq => ?_
    rcases Int.lt_trichotomy a b with hlt | rfl | hgt
    · exact absurd heq (Binary64.wholePlace_lt hlt ha hb).ne
    · rfl
    · exact absurd heq (Binary64.wholePlace_lt hgt hb ha).ne'
  · have hplace := Binary64.wholePlace_mono hle
    have hforward := ordered_places hleft hright
    have hbackward := ordered_places hright hleft
    refine ⟨?_, ?_, ?_, ?_⟩
    · rw [hforward.atMost, decide_eq_true hplace]
    · rw [hbackward.atLeast, decide_eq_true hplace]
    · rw [hforward.greater, decide_eq_false (Int.not_lt.mpr hplace)]
    · rw [hbackward.less, decide_eq_false (Int.not_lt.mpr hplace)]
  · by_cases h : wholePlace a = wholePlace b → a = b
    · exact .inl (ordered_of_places hleft hright h)
    · obtain ⟨heq, hne⟩ := Classical.not_imp.mp h
      obtain ⟨ha, hb⟩ := Binary64.wholePlace_close hne heq
      exact .inr ⟨hne, ha, hb, (ordered_places hleft hright).congr (by omega) (by omega)⟩

/-- The integer after `2 ^ 53` comes out equal to it, and the two in front of them come out in their order. -/
theorem integers_ordered_next :
    let document := Json.object [("edge", .number (.whole (2 ^ 53))), ("next", .number (.whole (2 ^ 53 + 1)))]
    let last := Expr.atom (.number 9007199254740991)
    let edge := Expr.atom (.variable "edge")
    let next := Expr.atom (.variable "next")
    Ordered document last edge (2 ^ 53 - 1) (2 ^ 53) ∧
      evaluate document (.binary .atMost edge next) = .ok true ∧
      evaluate document (.binary .less next edge) = .ok false ∧
      evaluate document (.binary .less edge next) = .ok false := by
  intro document last edge next
  have hlast : Integral document last (2 ^ 53 - 1) := .literal 9007199254740991
  have hedge : Integral document edge (2 ^ 53) := .held ⟨by decide, by decide⟩ rfl
  have hnext : Integral document next (2 ^ 53 + 1) := .held ⟨by decide, by decide⟩ rfl
  obtain ⟨hatMost, -, -, hless⟩ := (integers_ordered hedge hnext).2.1 (by decide)
  exact ⟨(integers_ordered hlast hedge).1 (by decide) (by decide), hatMost, hless, by decide +kernel⟩

end Integers

end Expr

end Criterion
