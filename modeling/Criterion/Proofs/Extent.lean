import Criterion.Proofs.Lexing

/-! Where the tokens of a text stand. A text that is cut into tokens is made of their characters and of spaces,
in the order of the tokens and with nothing left over, and no token could have been longer: what is tried first
is also what reaches furthest, since a keyword in front of a dot stops the scan at the dot. -/
namespace Criterion

/-- A lexeme as it stands in a text. -/
def Lexeme.spelling (l : Lexeme) : String :=
  match l.kind with
  | .text => "\"" ++ l.text ++ "\""
  | _ => l.text

namespace Token

open String (utf8Len)

/-- The byte after the last one of the token; the two quotes of a text are not in its characters. -/
def stop (t : Token) : Nat := t.pos + t.text.utf8ByteSize + if t.kind = .text then 2 else 0

/-- The characters are a lexeme of the kind, taken by itself. -/
def OfKind (kind : Kind) (cs : List Char) : Prop :=
  match kind with
  | .operator op => cs = op.symbol.toList
  | .leftParen => cs = ['(']
  | .rightParen => cs = [')']
  | .variable => ∃ first rest, cs = ['.'].intercalate (first :: rest) ∧ ∀ s ∈ first :: rest, Segment s
  | .text => ∃ body, '"' ∉ body ∧ cs = '"' :: (body ++ ['"'])
  | .number => cs ≠ [] ∧ ∀ d ∈ cs, d.isDigit = true
  | .truth true => cs = "true".toList
  | .truth false => cs = "false".toList
  | .null => cs = "null".toList

/-- The tokens are all that the text has besides spaces, and each is as long as it can be. -/
structure Exhausts (text : String) (tokens : List Token) : Prop where
  apart : tokens.Pairwise fun s t => s.stop ≤ t.pos
  placed : ∀ t ∈ tokens, ∃ before after : String, text = before ++ t.spelling ++ after ∧
    before.utf8ByteSize = t.pos ∧ (before ++ t.spelling).utf8ByteSize = t.stop ∧ OfKind t.kind t.spelling.toList ∧
    ∀ kind cs, OfKind kind cs → cs <+: (t.spelling ++ after).toList → cs.length ≤ t.spelling.length
  unquoted : ∀ t ∈ tokens, t.kind = .text → '"' ∉ t.text.toList
  spaced : ∀ (before after : String) (c : Char), text = before ++ String.singleton c ++ after →
    isSpace c = true ∨ ∃ t ∈ tokens, t.pos ≤ before.utf8ByteSize ∧ before.utf8ByteSize < t.stop
  named : ∀ t ∈ tokens, t.kind = .variable → t.text.toList.takeWhile (· ≠ '.') ∉ keywords

section Lexemes

variable {c : Char} {cs rest : List Char} {kind other : Kind} {length : Nat}

theorem ne_nil_of_ofKind (h : OfKind kind cs) : cs ≠ [] := by
  cases kind with
  | operator op =>
    obtain rfl := h
    cases op <;> decide
  | «variable» =>
    obtain ⟨first, rest, rfl, hs⟩ := h
    have hfirst : Segment first := hs first (by simp)
    rw [Text.intercalate_cons]
    cases first with
    | nil => contradiction
    | cons d ds => simp
  | text =>
    obtain ⟨body, -, rfl⟩ := h
    simp
  | number => exact h.1
  | truth b =>
    cases b
    all_goals
      obtain rfl := h
      decide
  | leftParen | rightParen | null =>
    obtain rfl := h
    decide

theorem spelling_content (h : OfKind kind cs) :
    (⟨kind, String.ofList (content kind cs)⟩ : Lexeme).spelling.toList = cs := by
  cases kind with
  | text =>
    obtain ⟨body, -, rfl⟩ := h
    simp [Lexeme.spelling, content]
  | _ => simp [Lexeme.spelling, content]

theorem ofKind_keyword (h : keyword? cs = some kind) : OfKind kind cs := by
  unfold keyword? at h
  split at h <;> first | contradiction | (obtain rfl := Option.some.inj h; rfl)

theorem ofKind_word (hc : isLetter c = true) (h : word c cs = (kind, length)) :
    OfKind kind ((c :: cs).take length) := by
  have hspelled := spelled_word hc h
  rcases word_cases h with ⟨hkey, rfl⟩ | ⟨-, rfl, rfl⟩
  · rw [List.take_succ_cons, take_length_takeWhile]
    exact ofKind_keyword hkey
  · obtain ⟨first, segments, heq, hsegments, -⟩ := hspelled
    rw [String.toList_ofList] at heq
    exact ⟨first, segments, heq, hsegments⟩

theorem ofKind_quoted (h : quoted? cs = some (kind, length)) : OfKind kind (('"' :: cs).take length) := by
  obtain ⟨body, rest, rfl, hquote, rfl, rfl⟩ := exists_of_quoted? h
  refine ⟨body, hquote, ?_⟩
  rw [List.take_succ_cons, List.take_length_add_append, List.take_succ_cons, List.take_zero]

theorem ofKind_mark (h : mark? kind = some cs) : OfKind kind cs := by
  cases kind with
  | operator op => cases op <;> first | contradiction | exact (Option.some.inj h).symm
  | leftParen | rightParen => exact (Option.some.inj h).symm
  | _ => contradiction

/-- What is cut off is a lexeme of the kind that it is cut off as. -/
theorem ofKind_of_scan? (h : scan? (c :: cs) = some (kind, length)) : OfKind kind ((c :: cs).take length) := by
  cases front_of_scan? h with
  | mark hmark hcs hlength =>
    rw [hcs, hlength, List.take_left]
    exact ofKind_mark hmark
  | quoted h => exact ofKind_quoted h
  | word hc h => exact ofKind_word hc h
  | number hc =>
    have hspelled := @spelled_digits _ cs hc
    rwa [Spelled, String.toList_ofList] at hspelled

theorem length_pos_of_scan? (h : scan? (c :: cs) = some (kind, length)) : 0 < length := by
  apply Nat.pos_of_ne_zero
  rintro rfl
  exact ne_nil_of_ofKind (ofKind_of_scan? h) rfl

end Lexemes

section Reach

variable {c : Char} {cs ls rest : List Char} {kind other : Kind} {length : Nat}

theorem drop_length_takeWhile (p : Char → Bool) (cs : List Char) :
    cs.drop (cs.takeWhile p).length = cs.dropWhile p := by
  have hdrop : (cs.takeWhile p ++ cs.dropWhile p).drop (cs.takeWhile p).length = cs.dropWhile p := List.drop_left
  rwa [List.takeWhile_append_dropWhile] at hdrop

/-- Where no dot follows the first word, the path is the word. -/
theorem pathTail_of_ne_dot (h : (cs.dropWhile isWordChar).head? ≠ some '.') :
    pathTail cs = (cs.takeWhile isWordChar).length := by
  have hends : Ends (cs.dropWhile isWordChar) := by
    intro d hd
    have hword := List.head?_dropWhile_not isWordChar cs
    rw [hd] at hword
    refine ⟨by simpa using hword, ?_⟩
    rintro rfl
    exact h hd
  have hword : ∀ d ∈ cs.takeWhile isWordChar, isWordChar d = true := fun d hd => List.mem_takeWhile_imp hd
  have happend : pathTail (cs.takeWhile isWordChar ++ cs.dropWhile isWordChar) =
      (cs.takeWhile isWordChar).length + pathTail (cs.dropWhile isWordChar) := pathTail_append hword
  rwa [List.takeWhile_append_dropWhile, pathTail_of_ends hends, Nat.add_zero] at happend

/-- A word reaches as far as its path unless a dot stops it. -/
theorem length_of_word (h : word c cs = (kind, length)) (hdot : ((c :: cs).drop length).head? ≠ some '.') :
    length = pathTail cs + 1 := by
  rcases word_cases h with ⟨-, rfl⟩ | ⟨-, -, rfl⟩
  · rw [List.drop_succ_cons, drop_length_takeWhile] at hdot
    rw [pathTail_of_ne_dot hdot]
  · rfl

theorem length_le_of_path (hls : OfKind .variable ls) (h : scan? (ls ++ rest) = some (kind, length))
    (hdot : ((ls ++ rest).drop length).head? ≠ some '.') : ls.length ≤ length := by
  obtain ⟨first, segments, rfl, hsegments⟩ := hls
  match first, hsegments first (by simp) with
  | c :: ds, ⟨hc, hds⟩ =>
    rw [Text.intercalate_cons, List.cons_append, List.cons_append] at h hdot
    rw [scan?_letter hc] at h
    have hlength := length_of_word (Option.some.inj h) hdot
    rw [List.append_assoc, pathTail_append hds,
      pathTail_segments fun s hs => hsegments s (List.mem_cons_of_mem _ hs)] at hlength
    rw [Text.intercalate_cons, List.cons_append, List.length_cons, List.length_append]
    omega

/-- Keywords are paths of one segment. -/
theorem ofKind_variable_of_keyword (hls : ls ∈ keywords) : OfKind .variable ls := by
  refine ⟨ls, [], by simp, ?_⟩
  simp only [keywords, List.mem_cons, List.not_mem_nil, or_false] at hls
  rcases hls with rfl | rfl | rfl | rfl | rfl <;> simp [Segment] <;> decide

/-- Whatever lexeme a text begins with, the scan takes no less, unless it ends at a dot. -/
theorem length_le_of_scan? (hls : OfKind other ls) (h : scan? (ls ++ rest) = some (kind, length))
    (hdot : ((ls ++ rest).drop length).head? ≠ some '.') : ls.length ≤ length := by
  have hkeyword (hmem : ls ∈ keywords) : ls.length ≤ length :=
    length_le_of_path (ofKind_variable_of_keyword hmem) h hdot
  cases other with
  | operator op =>
    obtain rfl := hls
    cases op with
    | and | or => exact hkeyword (by decide)
    | equal | unequal | atMost | atLeast =>
      obtain ⟨-, rfl⟩ := Prod.mk.inj (Option.some.inj h)
      decide
    | less | greater => exact length_pos_of_scan? h
  | leftParen | rightParen =>
    obtain rfl := hls
    exact length_pos_of_scan? h
  | «variable» => exact length_le_of_path hls h hdot
  | text =>
    obtain ⟨body, hquote, rfl⟩ := hls
    rw [List.cons_append, List.append_assoc] at h
    have hquoted := (quoted?_append hquote).symm.trans h
    obtain ⟨-, rfl⟩ := Prod.mk.inj (Option.some.inj hquoted)
    simp
  | number =>
    obtain ⟨hne, hdigits⟩ := hls
    obtain ⟨d, ds, rfl⟩ := List.exists_cons_of_ne_nil hne
    rw [List.cons_append, scan?_digit (hdigits d (by simp)),
      List.takeWhile_append_of_pos fun e he => hdigits e (by simp [he])] at h
    obtain ⟨-, rfl⟩ := Prod.mk.inj (Option.some.inj h)
    simp
  | truth b =>
    cases b
    all_goals
      obtain rfl := hls
      exact hkeyword (by decide)
  | null =>
    obtain rfl := hls
    exact hkeyword (by decide)

end Reach

section Layout

variable {c : Char} {cs before after : List Char} {pos skip : Nat} {tokens : List Token}

/-- No lexeme that the text begins with is longer than the one in front of the rest. -/
structure Longest (l : Lexeme) (rest : List Char) : Prop where
  ofKind : OfKind l.kind l.spelling.toList
  longest : ∀ kind cs, OfKind kind cs → cs <+: l.spelling.toList ++ rest → cs.length ≤ l.spelling.length

/-- The text, which begins at byte `pos`, is made of spaces and of these tokens. -/
inductive Laid : Nat → List Char → List Token → Prop
  | done {pos : Nat} : Laid pos [] []
  | space {pos : Nat} {c : Char} {cs : List Char} {tokens : List Token} (hspace : isSpace c = true)
      (h : Laid (pos + c.utf8Size) cs tokens) : Laid pos (c :: cs) tokens
  | token {pos : Nat} {l : Lexeme} {rest : List Char} {tokens : List Token} (hl : Longest l rest)
      (h : Laid (pos + l.spelling.utf8ByteSize) rest tokens) : Laid pos (l.spelling.toList ++ rest) (⟨l, pos⟩ :: tokens)

/-- The scan does not go on at a dot. -/
theorem head?_drop_ne_dot (h : scanFrom pos skip cs = .ok tokens) : (cs.drop skip).head? ≠ some '.' := by
  induction cs generalizing pos skip with
  | nil => simp
  | cons c cs ih =>
    cases skip with
    | zero =>
      rw [List.drop_zero, List.head?_cons]
      intro hc
      obtain rfl := Option.some.inj hc
      contradiction
    | succ skip => exact ih h

theorem longest_of_scan? {kind : Kind} {length : Nat} (h : scan? (c :: cs) = some (kind, length))
    (hdot : ((c :: cs).drop length).head? ≠ some '.') :
    Longest ⟨kind, String.ofList (content kind ((c :: cs).take length))⟩ ((c :: cs).drop length) := by
  have hkind : OfKind kind ((c :: cs).take length) := ofKind_of_scan? h
  have hspelling := spelling_content hkind
  refine ⟨by rwa [hspelling], fun other ls hls hprefix => ?_⟩
  rw [hspelling, List.take_append_drop] at hprefix
  rw [← String.length_toList, hspelling, List.length_take]
  apply Nat.le_min.mpr
  refine ⟨?_, hprefix.length_le⟩
  obtain ⟨rest, hrest⟩ := hprefix
  rw [← hrest] at h hdot
  exact length_le_of_scan? hls h hdot

theorem laid_of_scanFrom (h : scanFrom pos skip cs = .ok tokens) :
    Laid (pos + utf8Len (cs.take skip)) (cs.drop skip) tokens := by
  induction pos, skip, cs using scanFrom.induct generalizing tokens with
  | case1 =>
    obtain rfl := Except.ok.inj h
    simpa using Laid.done
  | case2 pos skip c cs ih =>
    have hlaid := ih h
    rwa [add_utf8Len] at hlaid
  | case3 pos c cs hspace ih =>
    rw [scanFrom, if_pos hspace] at h
    have hlaid := ih h
    exact .space hspace hlaid
  | case4 pos c cs hspace hscan =>
    rw [scanFrom, if_neg hspace, hscan] at h
    contradiction
  | case5 pos c cs hspace kind length hscan ih =>
    rw [scanFrom, if_neg hspace, hscan] at h
    obtain ⟨later, hlater, htokens⟩ := bind_eq_ok_iff.mp h
    obtain rfl := Except.ok.inj htokens
    obtain ⟨n, rfl⟩ := Nat.exists_eq_add_one.mpr (length_pos_of_scan? hscan)
    have hdot : ((c :: cs).drop (n + 1)).head? ≠ some '.' := head?_drop_ne_dot hlater
    have hspelling := spelling_content (ofKind_of_scan? hscan)
    have hlaid := ih hlater
    rw [Nat.add_sub_cancel, add_utf8Len, ← List.take_succ_cons, ← hspelling, String.utf8Len_toList] at hlaid
    have htoken := Laid.token (longest_of_scan? hscan hdot) hlaid
    rwa [hspelling, List.take_append_drop] at htoken

/-- There are no more tokens than characters, since no token is empty. -/
theorem Laid.length_le (h : Laid pos cs tokens) : tokens.length ≤ cs.length := by
  induction h with
  | done => exact Nat.le_refl _
  | space _ _ ih => exact Nat.le_succ_of_le ih
  | token hl _ ih =>
    have hspelling := List.length_pos_of_ne_nil (ne_nil_of_ofKind hl.ofKind)
    rw [List.length_cons, List.length_append]
    omega

theorem stop_eq (t : Token) : t.stop = t.pos + t.spelling.utf8ByteSize := by
  obtain ⟨⟨kind, text⟩, pos⟩ := t
  cases kind with
  | text =>
    have hquote : "\"".utf8ByteSize = 1 := rfl
    simp only [stop, Lexeme.spelling, String.utf8ByteSize_append, hquote, if_pos]
    omega
  | _ => simp [stop, Lexeme.spelling]

theorem Laid.placed (h : Laid pos cs tokens) :
    ∀ t ∈ tokens, ∃ before after, cs = before ++ t.spelling.toList ++ after ∧ pos + utf8Len before = t.pos ∧
      Longest t.toLexeme after := by
  induction h with
  | done => simp
  | @space pos c cs tokens _ _ ih =>
    intro t ht
    obtain ⟨before, after, rfl, hpos, hlongest⟩ := ih t ht
    exact ⟨c :: before, after, by simp, by rw [← add_utf8Len, hpos], hlongest⟩
  | @token pos l rest tokens hl _ ih =>
    intro t ht
    rcases List.mem_cons.mp ht with rfl | ht
    · exact ⟨[], rest, by simp, by simp, hl⟩
    · obtain ⟨before, after, rfl, hpos, hlongest⟩ := ih t ht
      refine ⟨l.spelling.toList ++ before, after, by simp, ?_, hlongest⟩
      rw [String.utf8Len_append, String.utf8Len_toList]
      omega

theorem Laid.apart (h : Laid pos cs tokens) : tokens.Pairwise fun s t => s.stop ≤ t.pos := by
  induction h with
  | done => exact .nil
  | space _ _ ih => exact ih
  | token _ hrest ih =>
    refine List.pairwise_cons.mpr ⟨fun t ht => ?_, ih⟩
    obtain ⟨before, -, -, hpos, -⟩ := hrest.placed t ht
    rw [stop_eq, ← hpos]
    exact Nat.le_add_right _ _

/-- Every character is a space or belongs to one of the tokens. -/
theorem Laid.spaced (h : Laid pos cs tokens) (hcs : cs = before ++ c :: after) :
    isSpace c = true ∨ ∃ t ∈ tokens, t.pos ≤ pos + utf8Len before ∧ pos + utf8Len before < t.stop := by
  induction h generalizing before with
  | done => simp at hcs
  | @space pos d cs tokens hspace _ ih =>
    cases before with
    | nil =>
      obtain ⟨rfl, -⟩ := List.cons.inj hcs
      exact .inl hspace
    | cons e before =>
      obtain ⟨rfl, htail⟩ := List.cons.inj hcs
      rw [← add_utf8Len]
      exact ih htail
  | @token pos l rest tokens _ _ ih =>
    have hlater {front : List Char} (hbefore : before = l.spelling.toList ++ front) (hrest : rest = front ++ c :: after) :
        isSpace c = true ∨ ∃ t ∈ ⟨l, pos⟩ :: tokens, t.pos ≤ pos + utf8Len before ∧ pos + utf8Len before < t.stop := by
      rw [hbefore, String.utf8Len_append, String.utf8Len_toList, ← Nat.add_assoc]
      rcases ih hrest with hspace | ⟨t, ht, hcover⟩
      · exact .inl hspace
      · exact .inr ⟨t, List.mem_cons_of_mem _ ht, hcover⟩
    rcases List.append_eq_append_iff.mp hcs with ⟨front, hbefore, hrest⟩ | ⟨back, hspelling, hback⟩
    · exact hlater hbefore hrest
    · cases back with
      | nil =>
        rw [List.append_nil] at hspelling
        exact @hlater [] (by simp [hspelling]) hback.symm
      | cons d back =>
        obtain ⟨rfl, -⟩ := List.cons.inj hback
        have hbytes : l.spelling.utf8ByteSize = utf8Len before + (utf8Len back + c.utf8Size) := by
          rw [← String.utf8Len_toList, hspelling, String.utf8Len_append, String.utf8Len_cons]
        have hsize : 0 < c.utf8Size := c.utf8Size_pos
        refine .inr ⟨⟨l, pos⟩, by simp, Nat.le_add_right _ _, ?_⟩
        rw [stop_eq, hbytes]
        show pos + utf8Len before < pos + (utf8Len before + (utf8Len back + c.utf8Size))
        omega

end Layout

/-- The first segment of a path of a token is no keyword. -/
theorem takeWhile_dotted {cs : List Char} (h : Dotted cs) : cs.takeWhile (· ≠ '.') ∉ keywords := by
  obtain ⟨first, rest, rfl, hs, hfirst⟩ := h
  have hword : ∀ d ∈ first, decide (d ≠ '.') = true := by
    intro d hd
    have hsegment := hs first (by simp)
    rw [decide_eq_true_eq]
    apply ne_dot_of_isWordChar
    match first, hsegment with
    | c :: ds, ⟨hc, hds⟩ =>
      rcases List.mem_cons.mp hd with rfl | hd
      · exact isWordChar_of_isLetter hc
      · exact hds d hd
  rw [Text.intercalate_cons, List.takeWhile_append_of_pos hword]
  cases rest with
  | nil => simpa using hfirst
  | cons s rest => simpa using hfirst

/-- Nothing of a text that can be cut into tokens is lost, and every token is the longest lexeme at its place. -/
theorem tokenize_exhausts {text : String} {tokens : List Token} (h : tokenize text = .ok tokens) :
    Exhausts text tokens := by
  have hlaid : Laid 0 text.toList tokens := by simpa using laid_of_scanFrom h
  have hspelled : ∀ t ∈ tokens, Spelled t.toLexeme := spelled_of_scanFrom h
  refine ⟨hlaid.apart, fun t ht => ?_, fun t ht hkind => ?_, fun before after c htext => ?_, fun t ht hkind => ?_⟩
  · obtain ⟨before, after, htext, hpos, hlongest⟩ := hlaid.placed t ht
    have hbytes : (String.ofList before).utf8ByteSize = t.pos := by
      rw [String.utf8ByteSize_ofList, ← hpos, Nat.zero_add]
    refine ⟨String.ofList before, String.ofList after, ?_, hbytes, ?_, hlongest.ofKind, fun kind cs hcs hprefix => ?_⟩
    · rw [← String.toList_inj, htext]
      simp
    · rw [String.utf8ByteSize_append, hbytes, stop_eq]
    · rw [String.toList_append, String.toList_ofList] at hprefix
      exact hlongest.longest kind cs hcs hprefix
  · have hbody := hspelled t ht
    rwa [Spelled, hkind] at hbody
  · have hcs : text.toList = before.toList ++ c :: after.toList := by simp [htext]
    simpa using hlaid.spaced hcs
  · have hpath := hspelled t ht
    rw [Spelled, hkind] at hpath
    exact takeWhile_dotted hpath

theorem tokenize_exhausts_paths :
    ∃ tokens, tokenize "a.b>=\"é\" AND true" = .ok tokens ∧ tokens.map Token.pos = [0, 3, 5, 10, 14] ∧
      Exhausts "a.b>=\"é\" AND true" tokens := by
  refine ⟨[⟨⟨.variable, "a.b"⟩, 0⟩, ⟨⟨.operator .atLeast, ">="⟩, 3⟩, ⟨⟨.text, "é"⟩, 5⟩, ⟨⟨.operator .and, "AND"⟩, 10⟩,
    ⟨⟨.truth true, "true"⟩, 14⟩], rfl, rfl, ?_⟩
  exact tokenize_exhausts rfl

end Token

end Criterion
