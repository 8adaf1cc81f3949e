import Criterion.Proofs.Boundary

/-! Where a text is refused. The scan stops at a character that no lexeme begins with, and whatever lexeme ends in
front of that character is found there also when the text is cut off at it. -/
namespace Criterion.Token

open String (utf8Len)

/-- The error names the first character of the text at which neither a lexeme nor a space stands. -/
structure Stuck (text : String) (e : LexicalError) (before : String) (c : Char) (after : String) : Prop where
  split : text = before ++ String.singleton c ++ after
  pos : before.utf8ByteSize = e.pos
  front : ∃ tokens, tokenize before = .ok tokens
  unspaced : isSpace c = false
  barren : ∀ kind cs, OfKind kind cs → ¬ cs <+: c :: after.toList
  unterminated : (∃ pos, e = .unterminatedText pos) ↔ c = '"'
  unclosed : c = '"' → '"' ∉ after.toList
  unexpected : c ≠ '"' → e = .unexpectedCharacter c e.pos

variable {c : Char} {cs ls rest : List Char} {kind : Kind} {pos skip : Nat} {e : LexicalError}

/-- Where a lexeme begins, the scan takes one. -/
theorem exists_scan?_eq_some (h : OfKind kind ls) : ∃ found, scan? (ls ++ rest) = some found := by
  have hpath {ls : List Char} (hls : OfKind .variable ls) : ∃ found, scan? (ls ++ rest) = some found := by
    obtain ⟨first, segments, rfl, hsegments⟩ := hls
    match first, hsegments first (by simp) with
    | d :: ds, ⟨hd, _⟩ =>
      rw [Text.intercalate_cons, List.cons_append, List.cons_append, scan?_letter hd]
      exact ⟨_, rfl⟩
  cases kind with
  | operator op =>
    obtain rfl := h
    cases op with
    | and | or => exact hpath (ofKind_variable_of_keyword (by decide))
    | equal | unequal | atMost | atLeast => exact ⟨_, rfl⟩
    | less | greater =>
      by_cases hnext : rest.head? = some '='
      · obtain ⟨rest, rfl⟩ := List.head?_eq_some_iff.mp hnext
        exact ⟨_, rfl⟩
      · exact ⟨_, scan?_mark (p := []) (by decide) (by decide) (by decide) (by simpa using hnext)⟩
  | leftParen | rightParen =>
    obtain rfl := h
    exact ⟨_, rfl⟩
  | «variable» => exact hpath h
  | text =>
    obtain ⟨body, hquote, rfl⟩ := h
    rw [List.cons_append, List.append_assoc]
    exact ⟨_, quoted?_append hquote⟩
  | number =>
    obtain ⟨hne, hdigits⟩ := h
    obtain ⟨d, ds, rfl⟩ := List.exists_cons_of_ne_nil hne
    rw [List.cons_append, scan?_digit (hdigits d (by simp))]
    exact ⟨_, rfl⟩
  | truth b =>
    cases b
    all_goals
      obtain rfl := h
      exact hpath (ofKind_variable_of_keyword (by decide))
  | null =>
    obtain rfl := h
    exact hpath (ofKind_variable_of_keyword (by decide))

theorem not_prefix_of_scan?_eq_none (h : scan? cs = none) (hls : OfKind kind ls) : ¬ ls <+: cs := by
  rintro ⟨rest, rfl⟩
  obtain ⟨found, hfound⟩ : ∃ found, scan? (ls ++ rest) = some found := exists_scan?_eq_some hls
  rw [hfound] at h
  contradiction

/-- The text is scanned up to a character that no lexeme begins with. -/
theorem stuck_of_scanFrom (h : scanFrom pos skip cs = .error e) :
    ∃ before c after, cs = before ++ c :: after ∧ skip ≤ before.length ∧ (∃ tokens, scanFrom pos skip before = .ok tokens) ∧
      e = refusal c (pos + utf8Len before) ∧ isSpace c = false ∧ scan? (c :: after) = none := by
  induction pos, skip, cs using scanFrom.induct with
  | case1 => contradiction
  | case2 pos skip c cs ih =>
    obtain ⟨before, d, after, rfl, hskip, htokens, rfl, hstuck⟩ := ih h
    exact ⟨c :: before, d, after, rfl, Nat.succ_le_succ hskip, htokens, by rw [add_utf8Len], hstuck⟩
  | case3 pos c cs hspace ih =>
    rw [scanFrom, if_pos hspace] at h
    obtain ⟨before, d, after, rfl, hskip, htokens, rfl, hstuck⟩ := ih h
    refine ⟨c :: before, d, after, rfl, Nat.zero_le _, ?_, by rw [add_utf8Len], hstuck⟩
    rwa [scanFrom, if_pos hspace]
  | case4 pos c cs hspace hscan =>
    rw [scanFrom, if_neg hspace, hscan] at h
    obtain rfl := Except.error.inj h
    exact ⟨[], c, cs, rfl, Nat.zero_le _, ⟨[], rfl⟩, rfl, by simpa using hspace, hscan⟩
  | case5 pos c cs hspace kind length hscan ih =>
    rw [scanFrom, if_neg hspace, hscan] at h
    obtain hlater | ⟨later, -, hdone⟩ := bind_eq_error_iff.mp h
    · obtain ⟨before, d, after, rfl, hskip, ⟨later, hbefore⟩, rfl, hstuck⟩ := ih hlater
      -- The lexeme ends in front of the character, so it is also found in what stands in front of it.
      have hlength : length ≤ (c :: before).length := Nat.le_add_of_sub_le hskip
      have hfront : scan? (c :: before) = some (kind, length) := scan?_of_append hscan hlength
      refine ⟨c :: before, d, after, rfl, Nat.zero_le _, ?_, by rw [add_utf8Len], hstuck⟩
      rw [scanFrom, if_neg hspace, hfront]
      exact ⟨_, bind_eq_ok_iff.mpr ⟨later, hbefore, rfl⟩⟩
    · contradiction

theorem pos_refusal (c : Char) (pos : Nat) : (refusal c pos).pos = pos := by
  unfold refusal
  split <;> rfl

/-- A text that is refused is refused at the first character that starts nothing, and what stands in front of it is
a text that is not. -/
theorem tokenize_refused {text : String} (h : tokenize text = .error e) :
    ∃ before c after, Stuck text e before c after := by
  obtain ⟨before, c, after, htext, -, ⟨tokens, htokens⟩, rfl, hspace, hscan⟩ := stuck_of_scanFrom h
  have hpos : (refusal c (0 + utf8Len before)).pos = utf8Len before := by rw [pos_refusal, Nat.zero_add]
  have hquote : c = '"' → '"' ∉ after := by
    rintro rfl hmem
    obtain ⟨body, rest, rfl, hbody⟩ := List.eq_append_cons_of_mem hmem
    have hclosed : OfKind .text ('"' :: (body ++ ['"'])) := ⟨body, hbody, rfl⟩
    exact not_prefix_of_scan?_eq_none hscan hclosed ⟨rest, by simp⟩
  refine ⟨String.ofList before, c, String.ofList after, ?_, ?_, ⟨tokens, ?_⟩, hspace, ?_, ?_, ?_, ?_⟩
  · rw [← String.toList_inj, htext]
    simp
  · rw [hpos, String.utf8ByteSize_ofList]
  · rwa [tokenize, String.toList_ofList]
  · intro kind cs hcs
    rw [String.toList_ofList]
    exact not_prefix_of_scan?_eq_none hscan hcs
  · by_cases hc : c = '"' <;> simp [refusal, hc]
  · simpa using hquote
  · intro hc
    rw [hpos, refusal, if_neg hc, Nat.zero_add]

/-- Cut off in front of the last letter, the text ends with a keyword. -/
theorem tokenize_refused_behind_keyword :
    tokenize "\"é\" == nullß" = .error (.unexpectedCharacter 'ß' 12) ∧
      ∃ before c after, Stuck "\"é\" == nullß" (.unexpectedCharacter 'ß' 12) before c after :=
  ⟨rfl, tokenize_refused rfl⟩

end Criterion.Token
