import Criterion.Proofs.Json.Reading

/-! Reading with a limit on the nesting. The lexemes of a value that nests deeper than the limit are refused at the
container that does not fit. -/
namespace Criterion.Json

variable {most : Nat}

theorem not_withinLimit {frames : List Frame} (h : frames.length = most) :
    withinLimit (some most) frames = false := by
  simp [withinLimit, h]

theorem withinLimit_of_lt {frames : List Frame} (h : frames.length < most) :
    withinLimit (some most) frames = true := by
  simp [withinLimit, h]

theorem room_of_le {frames : List Frame} {depth : Nat} (h : frames.length + depth ≤ most) :
    Room (some most) frames depth := by
  intro bound hbound
  obtain rfl := Option.some.inj hbound
  exact h

mutual

/-- The lexemes of a value that does not fit are refused, whatever is still open. -/
theorem feed_lexemes_of_deep (v : Json) (frames : List Frame) (ls : List Lexeme) (hfit : frames.length ≤ most)
    (hdeep : most < frames.length + nesting v) :
    feed (some most) (.more (.value frames)) (lexemes v ++ ls) = none := by
  match v with
  | .null | .bool _ | .number _ | .string _ =>
    simp only [nesting] at hdeep
    omega
  | .array items =>
    rcases Nat.eq_or_lt_of_le hfit with hfull | hroom
    · simp [lexemes, feed, step, beginValue, not_withinLimit hfull]
    · have hopen : step (some most) (.value frames) .leftBracket = some (.more (.firstItem frames)) := by
        simp [step, beginValue, withinLimit_of_lt hroom]
      have hne : items ≠ [] := by
        rintro rfl
        simp only [nesting, nestingItems] at hdeep
        omega
      rw [lexemes, List.cons_append, feed_cons hopen, List.append_assoc, feed_firstItem items hne]
      refine feed_itemLexemes_of_deep items [] frames _ hroom ?_
      simp only [nesting] at hdeep
      omega
  | .object members =>
    rcases Nat.eq_or_lt_of_le hfit with hfull | hroom
    · simp [lexemes, feed, step, beginValue, not_withinLimit hfull]
    · have hopen : step (some most) (.value frames) .leftBrace = some (.more (.firstKey frames)) := by
        simp [step, beginValue, withinLimit_of_lt hroom]
      have hne : members ≠ [] := by
        rintro rfl
        simp only [nesting, nestingMembers] at hdeep
        omega
      rw [lexemes, List.cons_append, feed_cons hopen, List.append_assoc, feed_firstKey members hne]
      refine feed_memberLexemes_of_deep members [] frames _ hroom ?_
      simp only [nesting] at hdeep
      omega

/-- Of the items, the first one that does not fit is refused. -/
theorem feed_itemLexemes_of_deep (items before : List Json) (frames : List Frame) (ls : List Lexeme)
    (hfit : frames.length < most) (hdeep : most < frames.length + 1 + nestingItems items) :
    feed (some most) (.more (.value (.item before :: frames))) (itemLexemes items ++ ls) = none := by
  match items with
  | [] =>
    simp only [nestingItems] at hdeep
    omega
  | [v] =>
    simp only [nestingItems, Nat.max_zero] at hdeep
    exact feed_lexemes_of_deep v (.item before :: frames) ls hfit hdeep
  | v :: w :: vs =>
    rw [itemLexemes, List.append_assoc, List.cons_append]
    by_cases hv : most < frames.length + 1 + nesting v
    · exact feed_lexemes_of_deep v (.item before :: frames) _ hfit hv
    · have hvs : most < frames.length + 1 + nestingItems (w :: vs) := by
        rw [nestingItems] at hdeep
        omega
      rw [feed_lexemes v _ _ (room_of_le (by simpa using hv))]
      exact (feed_cons rfl _).trans (feed_itemLexemes_of_deep (w :: vs) (v :: before) frames ls hfit hvs)

theorem feed_memberLexemes_of_deep (members before : List (String × Json)) (frames : List Frame) (ls : List Lexeme)
    (hfit : frames.length < most) (hdeep : most < frames.length + 1 + nestingMembers members) :
    feed (some most) (.more (.key before frames)) (memberLexemes members ++ ls) = none := by
  match members with
  | [] =>
    simp only [nestingMembers] at hdeep
    omega
  | [(k, v)] =>
    simp only [nestingMembers, Nat.max_zero] at hdeep
    rw [memberLexemes, List.cons_append, List.cons_append]
    refine (feed_cons rfl _).trans ((feed_cons rfl _).trans ?_)
    exact feed_lexemes_of_deep v (.member before k :: frames) ls hfit hdeep
  | (k, v) :: m :: ms =>
    rw [memberLexemes, List.cons_append, List.cons_append, List.append_assoc, List.cons_append]
    refine (feed_cons rfl _).trans ((feed_cons rfl _).trans ?_)
    by_cases hv : most < frames.length + 1 + nesting v
    · exact feed_lexemes_of_deep v (.member before k :: frames) _ hfit hv
    · have hms : most < frames.length + 1 + nestingMembers (m :: ms) := by
        rw [nestingMembers] at hdeep
        omega
      rw [feed_lexemes v _ _ (room_of_le (by simpa using hv))]
      exact (feed_cons rfl _).trans (feed_memberLexemes_of_deep (m :: ms) ((k, v) :: before) frames ls hfit hms)

end

end Criterion.Json
