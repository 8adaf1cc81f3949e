import Criterion.Numeral
import Criterion.Proofs.Decimal
import Criterion.Proofs.Text

/-! The grammar of the texts that an ordering takes for numbers: white space, at most one sign, then one of two
words or a decimal. The reader takes the longest run of digits at each place, and what the grammar lets follow a run
never begins with a digit, so the reader finds the parts of every text that the grammar has. Of the words that it
would read in any case, the two spellings are admitted and no other, since a decimal does not begin with a letter. -/
namespace Criterion.Numeral

def Digits (cs : List Char) : Prop := ∀ c ∈ cs, c.isDigit = true

/-- Digits with a point behind them, in front of them, between them or without one. -/
inductive Significand : List Char → Prop
  | whole {ds : List Char} (hds : Digits ds) (hne : ds ≠ []) : Significand ds
  | point {ds es : List Char} (hds : Digits ds) (hne : ds ≠ []) (hes : Digits es) : Significand (ds ++ '.' :: es)
  | part {ds es : List Char} (hds : Digits ds) (hes : Digits es) (hne : es ≠ []) : Significand (ds ++ '.' :: es)

/-- A mark, at most one sign and digits, or nothing. -/
inductive Power : List Char → Prop
  | none : Power []
  | unsigned {mark : Char} {ds : List Char} (hmark : mark = 'e' ∨ mark = 'E') (hds : Digits ds) (hne : ds ≠ []) :
    Power (mark :: ds)
  | signed {mark sign : Char} {ds : List Char} (hmark : mark = 'e' ∨ mark = 'E') (hsign : sign = '+' ∨ sign = '-')
    (hds : Digits ds) (hne : ds ≠ []) : Power (mark :: sign :: ds)

inductive Magnitude : List Char → Prop
  | infinity : Magnitude "Infinity".toList
  | nan : Magnitude "NaN".toList
  | decimal {front back : List Char} (hfront : Significand front) (hback : Power back) : Magnitude (front ++ back)

inductive Written : List Char → Prop
  | unsigned {cs : List Char} (h : Magnitude cs) : Written cs
  | signed {sign : Char} {cs : List Char} (hsign : sign = '+' ∨ sign = '-') (h : Magnitude cs) : Written (sign :: cs)

/-- The text is a numeral between white spaces. -/
def Reads (text : String) : Prop :=
  ∃ before core after, text.toList = before ++ core ++ after ∧ (∀ c ∈ before, Text.isWhite c = true) ∧
    (∀ c ∈ after, Text.isWhite c = true) ∧ Written core

section Runs

variable {cs ds rest : List Char}

theorem digits_digitRun (cs : List Char) : Digits (digitRun cs) := fun _ hc => List.mem_takeWhile_imp hc

theorem digitRun_append (hds : Digits ds) (hrest : ∀ c ∈ rest.head?, c.isDigit = false) :
    digitRun (ds ++ rest) = ds := by
  have hnone : rest.takeWhile Char.isDigit = [] := by
    cases rest with
    | nil => rfl
    | cons c cs => simp [hrest c (by simp)]
  rw [digitRun, List.takeWhile_append_of_pos hds, hnone, List.append_nil]

theorem digitRun_of_digits (hds : Digits ds) : digitRun ds = ds := List.takeWhile_eq_self_iff.mpr hds

theorem digitRun_append_drop (cs : List Char) : digitRun cs ++ cs.drop (digitRun cs).length = cs :=
  List.prefix_iff_eq_append.mp (List.takeWhile_prefix _)

/-- A text as long as the run of digits in front of it is all digits. -/
theorem digits_of_length (h : (digitRun cs).length = cs.length) : Digits cs := by
  have hrun : digitRun cs = cs := (List.takeWhile_prefix _).eq_of_length h
  rw [← hrun]
  exact digits_digitRun cs

end Runs

section Exponents

variable {mark sign : Char} {cs ds : List Char} {value : Int}

theorem isMark_iff : (mark = 'e' || mark = 'E') = true ↔ mark = 'e' ∨ mark = 'E' := by simp

/-- The digits of an exponent are taken as a whole: there is one, and no other character behind it. -/
theorem taken_iff {front : Nat} :
    (∃ exponent, (if (digitRun ds).isEmpty then none else some (value, (digitRun ds).length + front)) =
      some (exponent, ds.length + front)) ↔ Digits ds ∧ ds ≠ [] := by
  constructor
  · rintro ⟨exponent, h⟩
    split at h
    · contradiction
    · rename_i hne
      simp only [Option.some.injEq, Prod.mk.injEq, Nat.add_right_cancel_iff] at h
      refine ⟨digits_of_length h.2, ?_⟩
      rintro rfl
      exact hne rfl
  · rintro ⟨hds, hne⟩
    rw [digitRun_of_digits hds, if_neg (by simpa using hne)]
    exact ⟨value, rfl⟩

/-- What an exponent comes to is up to its digits. -/
theorem exponent?_signed (hmark : mark = 'e' ∨ mark = 'E') (hsign : sign = '+' ∨ sign = '-') :
    ∃ value : List Char → Int, ∀ ds, exponent? (mark :: sign :: ds) =
      if (digitRun ds).isEmpty then none else some (value (digitRun ds), (digitRun ds).length + 2) := by
  rcases hsign with rfl | rfl
  · refine ⟨fun ds => Decimal.ofDigits ds, fun ds => ?_⟩
    rw [exponent?, if_pos (isMark_iff.mpr hmark)]
  · refine ⟨fun ds => -Decimal.ofDigits ds, fun ds => ?_⟩
    rw [exponent?, if_pos (isMark_iff.mpr hmark)]

theorem exponent?_unsigned (hmark : mark = 'e' ∨ mark = 'E') :
    ∃ value : List Char → Int, ∀ ds, (∀ c ∈ ds.head?, c ≠ '+' ∧ c ≠ '-') → exponent? (mark :: ds) =
      if (digitRun ds).isEmpty then none else some (value (digitRun ds), (digitRun ds).length + 1) := by
  refine ⟨fun ds => Decimal.ofDigits ds, fun ds hsign => ?_⟩
  rw [exponent?, if_pos (isMark_iff.mpr hmark)]
  · rintro _ rfl
    exact (hsign '-' rfl).2 rfl
  · rintro _ rfl
    exact (hsign '+' rfl).1 rfl

theorem exponent?_of_ne (hmark : ¬ (mark = 'e' ∨ mark = 'E')) : exponent? (mark :: cs) = some (0, 0) := by
  unfold exponent?
  exact if_neg (mt isMark_iff.mp hmark)

/-- An exponent that takes all of a text. -/
theorem exponent?_iff : (∃ exponent, exponent? cs = some (exponent, cs.length)) ↔ Power cs := by
  constructor
  · rintro ⟨exponent, h⟩
    cases cs with
    | nil => exact .none
    | cons mark cs =>
      by_cases hmark : mark = 'e' ∨ mark = 'E'
      · by_cases hsign : ∃ sign ds, (sign = '+' ∨ sign = '-') ∧ cs = sign :: ds
        · obtain ⟨sign, ds, hsign, rfl⟩ := hsign
          obtain ⟨value, hvalue⟩ := exponent?_signed hmark hsign
          obtain ⟨hds, hne⟩ := taken_iff.mp ⟨exponent, (hvalue ds).symm.trans h⟩
          exact .signed hmark hsign hds hne
        · have hhead : ∀ c ∈ cs.head?, c ≠ '+' ∧ c ≠ '-' := by
            intro c hc
            obtain ⟨ds, rfl⟩ := List.head?_eq_some_iff.mp hc
            exact not_or.mp fun hc => hsign ⟨c, ds, hc, rfl⟩
          obtain ⟨value, hvalue⟩ := exponent?_unsigned hmark
          obtain ⟨hds, hne⟩ := taken_iff.mp ⟨exponent, (hvalue cs hhead).symm.trans h⟩
          exact .unsigned hmark hds hne
      · rw [exponent?_of_ne hmark] at h
        simp at h
  · intro h
    cases h with
    | none => exact ⟨0, rfl⟩
    | @unsigned mark ds hmark hds hne =>
      have hhead : ∀ c ∈ ds.head?, c ≠ '+' ∧ c ≠ '-' := by
        intro c hc
        have hdigit := hds c (List.mem_of_mem_head? hc)
        constructor
        · rintro rfl
          contradiction
        · rintro rfl
          contradiction
      obtain ⟨value, hvalue⟩ := exponent?_unsigned hmark
      rw [hvalue ds hhead]
      exact taken_iff.mpr ⟨hds, hne⟩
    | @signed mark sign ds hmark hsign hds hne =>
      obtain ⟨value, hvalue⟩ := exponent?_signed hmark hsign
      rw [hvalue]
      exact taken_iff.mpr ⟨hds, hne⟩

end Exponents

section Decimals

variable {negative : Bool} {cs ds es back : List Char}

theorem fraction_cases (cs : List Char) :
    (∃ tail, cs = '.' :: tail ∧ fraction cs = (digitRun tail, (digitRun tail).length + 1)) ∨
      fraction cs = ([], 0) := by
  unfold fraction
  split
  · exact .inl ⟨_, rfl, rfl⟩
  · exact .inr rfl

theorem fraction_of_ne (h : ∀ c ∈ cs.head?, c ≠ '.') : fraction cs = ([], 0) := by
  rcases fraction_cases cs with ⟨tail, rfl, -⟩ | hnone
  · exact absurd rfl (h '.' rfl)
  · exact hnone

/-- A decimal is taken apart into the digits before the point, those after it and the exponent. -/
theorem decimal?_isSome_iff {whole part rest : List Char} {length : Nat} (hwhole : digitRun cs = whole)
    (hpart : fraction (cs.drop whole.length) = (part, length)) (hrest : cs.drop (whole.length + length) = rest) :
    (decimal? negative cs).isSome ↔ (whole ≠ [] ∨ part ≠ []) ∧ Power rest := by
  rw [← exponent?_iff, decimal?]
  simp only [hwhole, hpart, hrest]
  split
  · rename_i hnone
    simp only [Bool.and_eq_true, List.isEmpty_iff] at hnone
    simp [hnone]
  · rename_i hsome
    simp only [Bool.and_eq_true, List.isEmpty_iff, not_and_or] at hsome
    cases hexponent : exponent? rest with
    | none => simp
    | some found =>
      obtain ⟨exponent, taken⟩ := found
      by_cases htaken : taken = rest.length
      · simp [htaken, hsome]
      · simp [htaken]

/-- No digit, point or sign begins what stands behind the digits of a decimal. -/
theorem head_of_power {c : Char} (h : Power back) (hc : c ∈ back.head?) : c = 'e' ∨ c = 'E' := by
  cases h with
  | none => contradiction
  | unsigned hmark =>
    obtain rfl := Option.some.inj hc
    exact hmark
  | signed hmark =>
    obtain rfl := Option.some.inj hc
    exact hmark

theorem not_isDigit_of_power (h : Power back) : ∀ c ∈ back.head?, c.isDigit = false := by
  intro c hc
  rcases head_of_power h hc with rfl | rfl
  · rfl
  · rfl

theorem fraction_of_power (h : Power back) : fraction back = ([], 0) := by
  refine fraction_of_ne fun c hc => ?_
  rcases head_of_power h hc with rfl | rfl
  · decide
  · decide

theorem decimal?_whole (hds : Digits ds) (hback : Power back) :
    (decimal? negative (ds ++ back)).isSome ↔ ds ≠ [] := by
  have hpart : fraction ((ds ++ back).drop ds.length) = ([], 0) := by
    rw [List.drop_left, fraction_of_power hback]
  rw [decimal?_isSome_iff (digitRun_append hds (not_isDigit_of_power hback)) hpart List.drop_left]
  simp [hback]

theorem decimal?_point (hds : Digits ds) (hes : Digits es) (hback : Power back) :
    (decimal? negative (ds ++ '.' :: es ++ back)).isSome ↔ ds ≠ [] ∨ es ≠ [] := by
  have hwhole : digitRun (ds ++ '.' :: (es ++ back)) = ds := digitRun_append hds (by simp)
  have hpart : fraction ((ds ++ '.' :: (es ++ back)).drop ds.length) = (es, es.length + 1) := by
    rw [List.drop_left, fraction, digitRun_append hes (not_isDigit_of_power hback)]
  have hrest : (ds ++ '.' :: (es ++ back)).drop (ds.length + (es.length + 1)) = back := by
    rw [← List.drop_drop, List.drop_left, List.drop_succ_cons, List.drop_left]
  rw [List.append_assoc, List.cons_append, decimal?_isSome_iff hwhole hpart hrest]
  simp [hback]

theorem decimal?_iff :
    (decimal? negative cs).isSome ↔ ∃ front back, cs = front ++ back ∧ Significand front ∧ Power back := by
  constructor
  · intro h
    have hcs := digitRun_append_drop cs
    have hdigits := digits_digitRun cs
    rcases fraction_cases (cs.drop (digitRun cs).length) with ⟨tail, htail, hpart⟩ | hpart
    · have hback : cs.drop ((digitRun cs).length + ((digitRun tail).length + 1)) =
          tail.drop (digitRun tail).length := by
        rw [← List.drop_drop, htail, List.drop_succ_cons]
      obtain ⟨hne, hpower⟩ := (decimal?_isSome_iff rfl hpart hback).mp h
      refine ⟨digitRun cs ++ '.' :: digitRun tail, _, ?_, ?_, hpower⟩
      · rw [List.append_assoc, List.cons_append, digitRun_append_drop, ← htail, hcs]
      · rcases hne with hne | hne
        · exact .point hdigits hne (digits_digitRun tail)
        · exact .part hdigits (digits_digitRun tail) hne
    · obtain ⟨hne, hpower⟩ := (decimal?_isSome_iff rfl hpart rfl).mp h
      exact ⟨digitRun cs, _, hcs.symm, .whole hdigits (by simpa using hne), hpower⟩
  · rintro ⟨front, back, rfl, hfront, hback⟩
    cases hfront with
    | whole hds hne => exact (decimal?_whole hds hback).mpr hne
    | point hds hne hes => exact (decimal?_point hds hes hback).mpr (.inl hne)
    | part hds hes hne => exact (decimal?_point hds hes hback).mpr (.inr hne)

end Decimals

section Reading

variable {negative : Bool} {sign : Char} {cs : List Char}

theorem head_of_significand (h : Significand cs) : ∃ c tail, cs = c :: tail ∧ (c.isDigit = true ∨ c = '.') := by
  cases h with
  | whole hds hne =>
    obtain ⟨d, ds, rfl⟩ := List.exists_cons_of_ne_nil hne
    exact ⟨d, ds, rfl, .inl (hds d (by simp))⟩
  | @point ds es hds hne hes =>
    obtain ⟨d, ds, rfl⟩ := List.exists_cons_of_ne_nil hne
    exact ⟨d, _, rfl, .inl (hds d (by simp))⟩
  | @part ds es hds hes hne =>
    cases ds with
    | nil => exact ⟨'.', es, rfl, .inr rfl⟩
    | cons d ds => exact ⟨d, _, rfl, .inl (hds d (by simp))⟩

/-- The case of a letter is all that lowering changes. -/
theorem isAlpha_of_toLower {c : Char} (h : c.toLower.isAlpha = true) : c.isAlpha = true := by
  cases hupper : c.isUpper with
  | true =>
    have halpha : (c.isUpper || c.isLower) = true := by rw [hupper, Bool.true_or]
    exact halpha
  | false =>
    have hsame : c.toLower = c := dif_neg (of_decide_eq_false hupper)
    rwa [hsame] at h

/-- A text that does not begin with a letter is no word, in whatever case. -/
theorem lower_ne_cons {c : Char} {word : List Char} (hc : c.isAlpha = true) (h : ∀ d ∈ cs.head?, d.isAlpha = false) :
    cs.map Char.toLower ≠ c :: word := by
  intro hword
  obtain ⟨d, ds, rfl, rfl, rfl⟩ := List.map_eq_cons_iff.mp hword
  have hd := h d rfl
  rw [isAlpha_of_toLower hc] at hd
  contradiction

theorem magnitude?_of_not_alpha (h : ∀ d ∈ cs.head?, d.isAlpha = false) :
    magnitude? negative cs = decimal? negative cs := by
  have hinf : cs.map Char.toLower ≠ "inf".toList := lower_ne_cons (by decide) h
  have hinfinity : cs.map Char.toLower ≠ "infinity".toList := lower_ne_cons (by decide) h
  have hnan : cs.map Char.toLower ≠ "nan".toList := lower_ne_cons (by decide) h
  rw [magnitude?]
  simp only [hinf, hinfinity, hnan, or_self, if_false]

theorem admits_iff : admits cs = true ↔
    (∀ d ∈ cs.head?, d.isAlpha = false) ∨ cs = "Infinity".toList ∨ cs = "NaN".toList := by
  cases cs with
  | nil => simp [admits]
  | cons c cs => simp [admits, or_assoc]

/-- What is admitted and read is a magnitude of the grammar. -/
theorem admitted_iff : (admits cs = true ∧ (magnitude? negative cs).isSome) ↔ Magnitude cs := by
  constructor
  · rintro ⟨hadmits, h⟩
    rcases admits_iff.mp hadmits with halpha | rfl | rfl
    · rw [magnitude?_of_not_alpha halpha, decimal?_iff] at h
      obtain ⟨front, back, rfl, hfront, hback⟩ := h
      exact .decimal hfront hback
    · exact .infinity
    · exact .nan
  · intro h
    cases h with
    | infinity => exact ⟨admits_iff.mpr (.inr (.inl rfl)), rfl⟩
    | nan => exact ⟨admits_iff.mpr (.inr (.inr rfl)), rfl⟩
    | @decimal front back hfront hback =>
      obtain ⟨c, tail, rfl, hc⟩ := head_of_significand hfront
      have halpha : ∀ d ∈ (c :: tail ++ back).head?, d.isAlpha = false := by
        intro d hd
        obtain rfl := Option.some.inj hd
        rcases hc with hc | rfl
        · exact Text.isAlpha_of_isDigit hc
        · rfl
      rw [magnitude?_of_not_alpha halpha, decimal?_iff]
      exact ⟨admits_iff.mpr (.inl halpha), c :: tail, back, rfl, hfront, hback⟩

/-- The sign of a text is no part of its magnitude. -/
theorem not_magnitude_cons (hsign : sign = '+' ∨ sign = '-') : ¬ Magnitude (sign :: cs) := by
  intro h
  generalize htext : sign :: cs = text at h
  cases h with
  | infinity => rcases hsign with rfl | rfl <;> simp at htext
  | nan => rcases hsign with rfl | rfl <;> simp at htext
  | decimal hfront =>
    obtain ⟨c, tail, rfl, hc⟩ := head_of_significand hfront
    obtain rfl := (List.cons.inj htext).1
    rcases hsign with rfl | rfl <;> simp at hc

theorem written_cons_iff (hsign : sign = '+' ∨ sign = '-') : Written (sign :: cs) ↔ Magnitude cs := by
  constructor
  · intro h
    cases h with
    | unsigned h => exact absurd h (not_magnitude_cons hsign)
    | signed _ h => exact h
  · exact .signed hsign

theorem written_iff_of_unsigned (hplus : ∀ tail, cs ≠ '+' :: tail) (hminus : ∀ tail, cs ≠ '-' :: tail) :
    Written cs ↔ Magnitude cs := by
  constructor
  · intro h
    cases h with
    | unsigned h => exact h
    | signed hsign _ =>
      rcases hsign with rfl | rfl
      · exact absurd rfl (hplus _)
      · exact absurd rfl (hminus _)
  · exact .unsigned

/-- The sign is dropped for the words that are admitted, and the text is then read with its sign. -/
theorem read?_iff : (read? cs).isSome ↔ Written cs := by
  have hguard (bare : List Char) (x? : Option Binary64) :
      (if admits bare then x? else none).isSome ↔ admits bare = true ∧ x?.isSome := by
    split <;> simp [*]
  rw [read?, hguard]
  unfold unsigned float?
  split
  · rw [admitted_iff, written_cons_iff (.inl rfl)]
  · rw [admitted_iff, written_cons_iff (.inr rfl)]
  · rename_i hplus hminus
    rw [admitted_iff, written_iff_of_unsigned hplus hminus]

end Reading

section White

variable {cs : List Char}

theorem isWhite_of_significand (h : Significand cs) : ∀ c ∈ cs, Text.isWhite c = false := by
  have hpoint {ds es : List Char} (hds : Digits ds) (hes : Digits es) :
      ∀ c ∈ ds ++ '.' :: es, Text.isWhite c = false := by
    intro c hc
    rcases List.mem_append.mp hc with hc | hc
    · exact Text.isWhite_of_isDigit (hds c hc)
    · rcases List.mem_cons.mp hc with rfl | hc
      · rfl
      · exact Text.isWhite_of_isDigit (hes c hc)
  cases h with
  | whole hds => exact fun c hc => Text.isWhite_of_isDigit (hds c hc)
  | point hds _ hes => exact hpoint hds hes
  | part hds hes => exact hpoint hds hes

theorem isWhite_of_sign {sign : Char} (hsign : sign = '+' ∨ sign = '-') : Text.isWhite sign = false := by
  rcases hsign with rfl | rfl
  · rfl
  · rfl

theorem isWhite_of_mark {mark : Char} (hmark : mark = 'e' ∨ mark = 'E') : Text.isWhite mark = false := by
  rcases hmark with rfl | rfl
  · rfl
  · rfl

theorem isWhite_of_power (h : Power cs) : ∀ c ∈ cs, Text.isWhite c = false := by
  cases h with
  | none => exact List.forall_mem_nil _
  | unsigned hmark hds =>
    exact List.forall_mem_cons.mpr ⟨isWhite_of_mark hmark, fun c hc => Text.isWhite_of_isDigit (hds c hc)⟩
  | signed hmark hsign hds =>
    refine List.forall_mem_cons.mpr ⟨isWhite_of_mark hmark, List.forall_mem_cons.mpr ⟨isWhite_of_sign hsign, ?_⟩⟩
    exact fun c hc => Text.isWhite_of_isDigit (hds c hc)

theorem isWhite_of_magnitude (h : Magnitude cs) : ∀ c ∈ cs, Text.isWhite c = false := by
  cases h with
  | infinity => simp [Text.isWhite, Text.inRanges, Text.whiteSpace]
  | nan => simp [Text.isWhite, Text.inRanges, Text.whiteSpace]
  | decimal hfront hback =>
    exact List.forall_mem_append.mpr ⟨isWhite_of_significand hfront, isWhite_of_power hback⟩

/-- White space is no part of a numeral. -/
theorem isWhite_of_written (h : Written cs) : ∀ c ∈ cs, Text.isWhite c = false := by
  cases h with
  | unsigned h => exact isWhite_of_magnitude h
  | signed hsign h => exact List.forall_mem_cons.mpr ⟨isWhite_of_sign hsign, isWhite_of_magnitude h⟩

theorem trim_of_written (h : Written cs) : Text.trim (String.ofList cs).toList = cs := by
  have hnothing : ∀ c ∈ ([] : List Char), Text.isWhite c = true := by simp
  simpa using Text.trim_append hnothing (isWhite_of_written h) hnothing

/-- An ordering trims a text before it reads it, and so it reads the numerals between white spaces. -/
theorem read?_trim_iff (text : String) : (read? (Text.trim text.toList)).isSome ↔ Reads text := by
  rw [read?_iff]
  constructor
  · intro h
    obtain ⟨before, after, htext, hbefore, hafter⟩ := Text.exists_eq_append_trim text.toList
    exact ⟨before, _, after, htext, hbefore, hafter, h⟩
  · rintro ⟨before, core, after, htext, hbefore, hafter, h⟩
    rw [htext, Text.trim_append hbefore (isWhite_of_written h) hafter]
    exact h

instance (text : String) : Decidable (Reads text) := decidable_of_iff _ (read?_trim_iff text)

theorem reads_of_written {cs : List Char} (h : Written cs) : Reads (String.ofList cs) :=
  ⟨[], cs, [], by simp, by simp, by simp, h⟩

end White

end Criterion.Numeral
