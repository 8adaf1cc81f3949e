import Criterion.Proofs.Extent
import Mathlib.Algebra.Ring.Parity

/-! Where a text can be taken apart. Behind a finished text, which is not in the middle of a name, of a literal
or of a symbol, what follows is cut as if it stood by itself, and does not change how the text is cut. And a lexeme
that is found in a text is found there also when the text is cut off behind it. -/
namespace Criterion.Token

open String (utf8Len utf8Len_append)

/-- The text ends neither with a name nor with a name and a dot, either of which a letter would continue. -/
def Finished (cs : List Char) : Prop := ∀ name, Segment name → ¬ name <:+ cs ∧ ¬ name ++ ['.'] <:+ cs

/-- No lexeme of the two texts together reaches from the one into the other. -/
structure Boundary (p x : List Char) : Prop where
  finished : Ends x ∨ Finished p
  closed : Even (p.count '"')
  begun : ∀ c ∈ x.head?, c.isDigit = false ∧ c ≠ '='

section Words

variable {c : Char} {p x : List Char}

theorem finished_nil : Finished [] := by
  intro name hname
  cases name with
  | nil => exact hname.elim
  | cons c cs => simp

theorem finished_of_suffix {cs ds : List Char} (h : Finished cs) (hsuffix : ds <:+ cs) : Finished ds :=
  fun name hname => ⟨fun hds => (h name hname).1 (hds.trans hsuffix), fun hds => (h name hname).2 (hds.trans hsuffix)⟩

theorem segment_append {w ds : List Char} (hw : Segment w) (hd : ∀ d ∈ ds, isWordChar d = true) : Segment (w ++ ds) := by
  match w, hw with
  | c :: cs, ⟨hc, hcs⟩ => exact ⟨hc, fun d hmem => (List.mem_append.mp hmem).elim (hcs d) (hd d)⟩

theorem pathTail_dot_of_ends (hx : Ends x) : pathTail ('.' :: x) = 0 := by
  cases x with
  | nil => rfl
  | cons c cs =>
    have hletter : ¬ isLetter c = true := fun hc => by
      simpa [isWordChar_of_isLetter hc] using (hx c (by simp)).1
    rw [pathTail, if_neg hletter]

/-- Only behind a dot that ends the text may a path go on where it stops. -/
theorem pathTail_append_of_stopped {d : Char} {cs : List Char} (hdot : ∀ e es, d = '.' → cs = e :: es → False)
    (hd : ¬ isWordChar d = true) (hlast : ¬ (d = '.' ∧ cs = [])) : pathTail (d :: cs ++ x) = 0 := by
  have hdot' : ∀ e es, d = '.' → cs ++ x = e :: es → False := by
    intro e es heq _
    obtain ⟨b, bs, hcs⟩ := List.exists_cons_of_ne_nil fun hnil => hlast ⟨heq, hnil⟩
    exact hdot b bs heq hcs
  rw [List.cons_append, pathTail.eq_3 _ _ hdot', if_neg hd]

/-- A path goes no further than the text it is in. -/
theorem pathTail_append_of_finished {w : List Char} (hw : Segment w) (h : Ends x ∨ Finished (w ++ p)) :
    pathTail (p ++ x) = pathTail p := by
  induction p using pathTail.induct generalizing w with
  | case1 =>
    rcases h with hends | hfinished
    · exact pathTail_of_ends hends
    · exact absurd (by simp) (hfinished w hw).1
  | case2 d cs hd ih =>
    have hsegment : Segment [d] := ⟨hd, by simp⟩
    have hrest : [d] ++ cs <:+ w ++ '.' :: d :: cs := ⟨w ++ ['.'], by simp⟩
    simp only [List.cons_append, pathTail, if_pos hd, ih hsegment (h.imp_right fun h => finished_of_suffix h hrest)]
  | case3 d cs hd => simp [pathTail, hd]
  | case4 d cs hdot hd ih =>
    have hsegment : Segment (w ++ [d]) := segment_append hw (by simpa using hd)
    rw [List.cons_append, pathTail_cons_of_word hd, pathTail_cons_of_word hd, ih hsegment (by simpa using h)]
  | case5 d cs hdot hd =>
    rw [pathTail.eq_3 d cs hdot, if_neg hd]
    by_cases hlast : d = '.' ∧ cs = []
    · obtain ⟨rfl, rfl⟩ := hlast
      rcases h with hends | hfinished
      · exact pathTail_dot_of_ends hends
      · exact absurd (by simp) (hfinished w hw).2
    · exact pathTail_append_of_stopped hdot hd hlast

theorem takeWhile_append_of_finished (hc : isLetter c = true) (h : Ends x ∨ Finished (c :: p)) :
    (p ++ x).takeWhile isWordChar = p.takeWhile isWordChar := by
  rw [List.takeWhile_append]
  split
  · rename_i hall
    have hword : p.takeWhile isWordChar = p := (List.takeWhile_prefix _).eq_of_length hall
    rcases h with hends | hfinished
    · rw [takeWhile_isWordChar_of_ends hends, hword, List.append_nil]
    · have hsegment : Segment (c :: p) := ⟨hc, fun d hd => List.mem_takeWhile_imp (hword.symm ▸ hd)⟩
      exact absurd (List.suffix_refl _) (hfinished _ hsegment).1
  · rfl

theorem takeWhile_of_append {f : Char → Bool} (h : ((p ++ x).takeWhile f).length ≤ p.length) :
    (p ++ x).takeWhile f = p.takeWhile f := by
  rw [List.takeWhile_append] at h ⊢
  split at h
  · rename_i hall
    have hp : p.takeWhile f = p := (List.takeWhile_prefix _).eq_of_length hall
    rw [List.length_append] at h
    have hx : x.takeWhile f = [] := List.eq_nil_of_length_eq_zero (by omega)
    rw [if_pos hall, hx, hp, List.append_nil]
  · rename_i hall
    rw [if_neg hall]

/-- A path that ends within a text does not depend on what follows. -/
theorem pathTail_of_append (h : pathTail (p ++ x) ≤ p.length) : pathTail (p ++ x) = pathTail p := by
  induction p using pathTail.induct with
  | case1 => exact Nat.le_zero.mp h
  | case2 d cs hd ih =>
    simp only [List.cons_append, pathTail, if_pos hd] at h ⊢
    rw [ih (Nat.le_of_add_le_add_right h)]
  | case3 d cs hd => simp [pathTail, hd]
  | case4 d cs hdot hd ih =>
    rw [List.cons_append, pathTail_cons_of_word hd] at h ⊢
    rw [pathTail_cons_of_word hd, ih (Nat.le_of_succ_le_succ h)]
  | case5 d cs hdot hd =>
    rw [pathTail.eq_3 d cs hdot, if_neg hd]
    by_cases hlast : d = '.' ∧ cs = []
    · obtain ⟨rfl, rfl⟩ := hlast
      cases x with
      | nil => rfl
      | cons e x =>
        by_cases he : isLetter e = true
        · simp [pathTail, he] at h
        · simp [pathTail, he]
    · exact pathTail_append_of_stopped hdot hd hlast

theorem length_takeWhile_le_pathTail (cs : List Char) : (cs.takeWhile isWordChar).length ≤ pathTail cs := by
  obtain ⟨rest, -, htake⟩ := take_pathTail cs
  have hlength := congrArg List.length htake
  rw [List.length_take, List.length_append] at hlength
  omega

theorem word_of_append {kind : Kind} {length : Nat} (h : word c (p ++ x) = (kind, length))
    (hlength : length ≤ (c :: p).length) : word c p = (kind, length) := by
  rcases word_cases h with ⟨hkey, rfl⟩ | ⟨hnone, rfl, rfl⟩
  · rw [takeWhile_of_append (Nat.le_of_succ_le_succ hlength)] at hkey ⊢
    simp only [word, hkey, List.length_cons]
  · have hpath : pathTail (p ++ x) ≤ p.length := Nat.le_of_succ_le_succ hlength
    rw [takeWhile_of_append ((length_takeWhile_le_pathTail _).trans hpath)] at hnone
    simp only [word, hnone, pathTail_of_append hpath]

theorem word_append (hc : isLetter c = true) (h : Ends x ∨ Finished (c :: p)) : word c (p ++ x) = word c p := by
  have hsegment : Segment [c] := ⟨hc, by simp⟩
  rw [word, word, takeWhile_append_of_finished hc h, pathTail_append_of_finished hsegment h]

end Words

section Scanning

variable {c : Char} {cs p x : List Char} {kind : Kind} {length : Nat}

theorem quoted?_append_of_mem (h : '"' ∈ p) : quoted? (p ++ x) = quoted? p := by
  obtain ⟨body, rest, rfl, hquote⟩ := List.eq_append_cons_of_mem h
  rw [List.append_assoc, List.cons_append, quoted?_append hquote, quoted?_append hquote]

/-- For what is no word, no number and no literal it matters only whether a sign of equality comes next. -/
theorem scan?_mark (hletter : ¬ isLetter c = true) (hdigit : ¬ c.isDigit = true) (hquote : c ≠ '"')
    (h : cs.head? = some '=' ↔ p.head? = some '=') : scan? (c :: cs) = scan? (c :: p) := by
  rw [List.head?_eq_some_iff, List.head?_eq_some_iff] at h
  unfold scan?
  split <;> split <;> grind

/-- Only a word can run on into a text that begins with neither a digit nor a sign of equality. -/
theorem scan?_append_of_not_letter (hletter : ¬ isLetter c = true) (hclosed : Even ((c :: p).count '"'))
    (hbegun : ∀ d ∈ x.head?, d.isDigit = false ∧ d ≠ '=') : scan? (c :: p ++ x) = scan? (c :: p) := by
  rw [List.cons_append]
  by_cases hdigit : c.isDigit = true
  · have hx : x.takeWhile Char.isDigit = [] := by
      cases x with
      | nil => rfl
      | cons d x => simp [(hbegun d (by simp)).1]
    rw [scan?_digit hdigit, scan?_digit hdigit, List.takeWhile_append, hx]
    split <;> simp_all
  by_cases hquote : c = '"'
  · subst hquote
    have hcount : Even (p.count '"' + 1) := by simpa using hclosed
    have hmem : '"' ∈ p := by
      rw [← List.count_pos_iff]
      grind
    exact quoted?_append_of_mem hmem
  · refine scan?_mark hletter hdigit hquote ?_
    cases p with
    | cons d p => simp
    | nil => simpa using fun heq => (hbegun '=' heq).2 rfl

theorem scan?_append (h : Boundary (c :: p) x) : scan? (c :: p ++ x) = scan? (c :: p) := by
  by_cases hletter : isLetter c = true
  · rw [List.cons_append, scan?_letter hletter, scan?_letter hletter, word_append hletter h.finished]
  · exact scan?_append_of_not_letter hletter h.closed h.begun

theorem quoted?_of_append (h : quoted? (p ++ x) = some (kind, length)) (hlength : length ≤ p.length + 1) :
    quoted? p = some (kind, length) := by
  obtain ⟨body, rest, heq, hquote, rfl, rfl⟩ := exists_of_quoted? h
  have hclosed : body ++ ['"'] <+: p ++ x := ⟨rest, by rw [heq, List.append_assoc, List.cons_append, List.nil_append]⟩
  have hshort : (body ++ ['"']).length ≤ p.length := by
    rw [List.length_append, List.length_singleton]
    omega
  obtain ⟨left, rfl⟩ := List.prefix_of_prefix_length_le hclosed (List.prefix_append _ _) hshort
  rw [List.append_assoc, List.cons_append, quoted?_append hquote]

/-- A lexeme that ends within a text does not depend on what follows. -/
theorem scan?_of_append (h : scan? (c :: p ++ x) = some (kind, length)) (hlength : length ≤ (c :: p).length) :
    scan? (c :: p) = some (kind, length) := by
  rw [List.cons_append] at h
  by_cases hletter : isLetter c = true
  · rw [scan?_letter hletter] at h ⊢
    rw [word_of_append (Option.some.inj h) hlength]
  by_cases hdigit : c.isDigit = true
  · rw [scan?_digit hdigit] at h ⊢
    obtain ⟨rfl, rfl⟩ := Prod.mk.inj (Option.some.inj h)
    rw [takeWhile_of_append (Nat.le_of_succ_le_succ hlength)]
  by_cases hquote : c = '"'
  · subst hquote
    exact quoted?_of_append h hlength
  by_cases hnext : p = [] ∧ x.head? = some '='
  · -- A mark and a sign of equality that make one lexeme are longer than the mark.
    obtain ⟨rfl, hx⟩ := hnext
    obtain ⟨x, rfl⟩ := List.head?_eq_some_iff.mp hx
    unfold scan? at h
    split at h <;> grind [scan?]
  · rwa [scan?_mark hletter hdigit hquote (p := p)] at h
    cases p with
    | nil => simpa using hnext
    | cons d p => simp

end Scanning

section Taking

variable {c : Char} {cs p x : List Char} {kind : Kind} {length : Nat}

theorem pathTail_le (cs : List Char) : pathTail cs ≤ cs.length := by
  fun_induction pathTail cs <;> simp <;> omega

/-- What is cut off is not longer than the text. -/
theorem scan?_length_le (h : scan? (c :: cs) = some (kind, length)) : length ≤ (c :: cs).length := by
  cases front_of_scan? h with
  | mark hmark hcs hlength =>
    rw [hcs, hlength, List.length_append]
    exact Nat.le_add_right _ _
  | quoted h =>
    obtain ⟨body, rest, rfl, -, -, rfl⟩ := exists_of_quoted? h
    simp
  | word hc h =>
    rcases word_cases h with ⟨-, rfl⟩ | ⟨-, -, rfl⟩
    · exact Nat.succ_le_succ (List.takeWhile_prefix _).length_le
    · exact Nat.succ_le_succ (pathTail_le cs)
  | number hc => exact Nat.succ_le_succ (List.takeWhile_prefix _).length_le

theorem head?_drop_pathTail (cs : List Char) : ∀ d ∈ (cs.drop (pathTail cs)).head?, isWordChar d = false := by
  fun_induction pathTail cs with
  | case1 => simp
  | case2 c cs hc ih => simpa using ih
  | case3 c cs hc => simp; decide
  | case4 c cs hdot hc ih => simpa using ih
  | case5 c cs hdot hc => simpa using hc

/-- No word goes on behind a lexeme that is one. -/
theorem head?_drop_word (hc : isLetter c = true) (hscan : scan? (c :: p) = some (kind, length)) :
    ∀ d ∈ ((c :: p).drop length).head?, isWordChar d = false := by
  rcases word_cases (word_of_scan? hc hscan) with ⟨-, rfl⟩ | ⟨-, -, rfl⟩
  · rw [List.drop_succ_cons, drop_length_takeWhile]
    intro d hd
    have hhead := List.head?_dropWhile_not isWordChar p
    rw [hd] at hhead
    simpa using hhead
  · exact head?_drop_pathTail p

theorem isWordChar_of_segment {s : List Char} (h : Segment s) : ∀ d ∈ s, isWordChar d = true := by
  match s, h with
  | c :: cs, ⟨hc, hcs⟩ => exact List.forall_mem_cons.mpr ⟨isWordChar_of_isLetter hc, hcs⟩

theorem quote_not_mem_segment {s : List Char} (h : Segment s) : '"' ∉ s := fun hmem =>
  absurd (isWordChar_of_segment h _ hmem) (by decide)

/-- The quotes of a lexeme come in pairs. -/
theorem even_quotes (h : OfKind kind cs) : Even (cs.count '"') := by
  cases kind with
  | operator op =>
    obtain rfl := h
    cases op <;> decide
  | «variable» =>
    obtain ⟨first, rest, rfl, hs⟩ := h
    have hnone : '"' ∉ ['.'].intercalate (first :: rest) := by
      rw [Text.intercalate_cons, List.mem_append, List.mem_flatMap]
      rintro (hmem | ⟨s, hs', hmem⟩)
      · exact quote_not_mem_segment (hs first (by simp)) hmem
      · exact quote_not_mem_segment (hs s (by simp [hs'])) (by simpa using hmem)
    rw [List.count_eq_zero_of_not_mem hnone]
    exact Even.zero
  | text =>
    obtain ⟨body, hbody, rfl⟩ := h
    have hcount : ('"' :: (body ++ ['"'])).count '"' = 2 := by simp [List.count_eq_zero_of_not_mem hbody]
    rw [hcount]
    decide
  | number =>
    have hnone : '"' ∉ cs := fun hmem => absurd (h.2 _ hmem) (by decide)
    rw [List.count_eq_zero_of_not_mem hnone]
    exact Even.zero
  | truth b =>
    cases b
    all_goals
      obtain rfl := h
      decide
  | leftParen | rightParen | null =>
    obtain rfl := h
    decide

theorem even_quotes_drop (h : Even ((c :: p).count '"')) (hscan : scan? (c :: p) = some (kind, length)) :
    Even (((c :: p).drop length).count '"') := by
  have hcount : ((c :: p).take length).count '"' + ((c :: p).drop length).count '"' = (c :: p).count '"' := by
    rw [← List.count_append, List.take_append_drop]
  have htaken : Even (((c :: p).take length).count '"') := even_quotes (ofKind_of_scan? hscan)
  exact (Nat.even_add.mp (hcount ▸ h)).mp htaken

theorem count_quote_of_space (hc : isSpace c = true) : (c :: p).count '"' = p.count '"' := by
  have hquote : c ≠ '"' := by
    rintro rfl
    contradiction
  exact List.count_cons_of_ne hquote

theorem Boundary.drop (h : Boundary (c :: p) x) (hscan : scan? (c :: p) = some (kind, length)) :
    Boundary ((c :: p).drop length) x :=
  ⟨h.finished.imp_right fun hfinished => finished_of_suffix hfinished (List.drop_suffix _ _),
    even_quotes_drop h.closed hscan, h.begun⟩

theorem Boundary.of_space (h : Boundary (c :: p) x) (hc : isSpace c = true) : Boundary p x :=
  ⟨h.finished.imp_right fun hfinished => finished_of_suffix hfinished (List.suffix_cons c p),
    count_quote_of_space hc ▸ h.closed, h.begun⟩

end Taking

section Cutting

variable {c : Char} {cs p x : List Char} {ls : List Lexeme}

/-- The scan goes on behind the lexeme that it finds. -/
theorem scanFrom_lexeme {kind : Kind} {length : Nat} (hc : isSpace c = false)
    (hscan : scan? (c :: cs) = some (kind, length)) (pos : Nat) :
    scanFrom pos 0 (c :: cs) = (do
      let later ← scanFrom (pos + utf8Len ((c :: cs).take length)) 0 ((c :: cs).drop length)
      return ⟨⟨kind, String.ofList (content kind ((c :: cs).take length))⟩, pos⟩ :: later) := by
  obtain ⟨n, rfl⟩ := Nat.exists_eq_add_one.mpr (length_pos_of_scan? hscan)
  have hskip := scanFrom_skip (pos + c.utf8Size) (cs.take n) (cs.drop n)
  rw [List.take_append_drop, List.length_take_of_le (Nat.le_of_succ_le_succ (scan?_length_le hscan))] at hskip
  rw [scanFrom, if_neg (by simp [hc]), hscan, List.take_succ_cons, List.drop_succ_cons, ← add_utf8Len, ← hskip]
  rfl

theorem cut_cons_iff (hc : isSpace c = false) :
    Cut (c :: cs) ls ↔ ∃ kind length later, scan? (c :: cs) = some (kind, length) ∧ Cut ((c :: cs).drop length) later ∧
      ls = ⟨kind, String.ofList (content kind ((c :: cs).take length))⟩ :: later := by
  constructor
  · intro h
    obtain ⟨tokens, hscan, rfl⟩ := h 0
    cases hlexeme : scan? (c :: cs) with
    | none =>
      rw [scanFrom, if_neg (by simp [hc]), hlexeme] at hscan
      contradiction
    | some found =>
      obtain ⟨kind, length⟩ := found
      rw [scanFrom_lexeme hc hlexeme] at hscan
      obtain ⟨later, hlater, htokens⟩ := bind_eq_ok_iff.mp hscan
      obtain rfl := Except.ok.inj htokens
      exact ⟨kind, length, _, rfl, cut_of_scanFrom hlater, rfl⟩
  · rintro ⟨kind, length, later, hlexeme, hlater, rfl⟩ pos
    obtain ⟨tokens, hscan, rfl⟩ := hlater (pos + utf8Len ((c :: cs).take length))
    refine ⟨⟨⟨kind, String.ofList (content kind ((c :: cs).take length))⟩, pos⟩ :: tokens, ?_, rfl⟩
    rw [scanFrom_lexeme hc hlexeme, hscan]
    rfl

/-- A text that is cut does not begin with a dot. -/
theorem ne_dot_of_cut (h : Cut (c :: cs) ls) : c ≠ '.' := by
  rintro rfl
  obtain ⟨kind, length, later, hscan, -⟩ := (cut_cons_iff (by decide)).mp h
  contradiction

theorem head?_ne_dot_of_cut (h : Cut cs ls) : cs.head? ≠ some '.' := by
  intro hhead
  obtain ⟨rest, rfl⟩ := List.head?_eq_some_iff.mp hhead
  exact ne_dot_of_cut h rfl

/-- What follows a keyword is cut as if it stood by itself, unless the word goes on. -/
theorem cut_keyword_iff {kind : Kind} (hkey : keyword? (c :: p) = some kind) (hcontent : content kind (c :: p) = c :: p)
    (hc : isLetter c = true) (hp : p.all isWordChar = true) (hx : ∀ d ∈ x.head?, isWordChar d = false) :
    Cut (c :: p ++ x) ls ↔ ∃ later, Cut x later ∧ ls = ⟨kind, String.ofList (c :: p)⟩ :: later := by
  have hscan := scan?_keyword hkey hc hp hx
  have hspace : isSpace c = false := isSpace_of_isWordChar (isWordChar_of_isLetter hc)
  rw [List.cons_append] at hscan ⊢
  rw [cut_cons_iff hspace, hscan]
  simp [hcontent]

/-- At a boundary the first part is scanned by itself, and the scan goes on with the second. -/
theorem scanFrom_append {p x : List Char} (h : Boundary p x) (pos : Nat) :
    scanFrom pos 0 (p ++ x) = (do
      let front ← scanFrom pos 0 p
      let back ← scanFrom (pos + utf8Len p) 0 x
      return front ++ back) := by
  match p with
  | [] => simp [scanFrom]
  | c :: p =>
    cases hspace : isSpace c with
    | true =>
      rw [List.cons_append, scanFrom, if_pos hspace, scanFrom_append (h.of_space hspace), scanFrom, if_pos hspace,
        add_utf8Len]
    | false =>
      have hsame : scan? (c :: (p ++ x)) = scan? (c :: p) := scan?_append h
      cases hscan : scan? (c :: p) with
      | none =>
        rw [hscan] at hsame
        rw [List.cons_append, scanFrom, if_neg (by simp [hspace]), hsame, scanFrom, if_neg (by simp [hspace]), hscan]
        rfl
      | some found =>
        obtain ⟨kind, length⟩ := found
        have hlength : length ≤ (c :: p).length := scan?_length_le hscan
        have hpos : 0 < length := length_pos_of_scan? hscan
        have hbytes : utf8Len ((c :: p).take length) + utf8Len ((c :: p).drop length) = utf8Len (c :: p) := by
          rw [← utf8Len_append, List.take_append_drop]
        rw [hscan] at hsame
        rw [scanFrom_lexeme hspace hscan, List.cons_append, scanFrom_lexeme hspace hsame, ← List.cons_append,
          List.take_append_of_le_length hlength, List.drop_append_of_le_length hlength, scanFrom_append (h.drop hscan),
          Nat.add_assoc, hbytes]
        simp only [bind_assoc, pure_bind, List.cons_append]
termination_by p.length

/-- At a boundary the two parts are cut each by itself. -/
theorem cut_append_iff {p x : List Char} {ls : List Lexeme} (h : Boundary p x) :
    Cut (p ++ x) ls ↔ ∃ front later, Cut p front ∧ Cut x later ∧ ls = front ++ later := by
  constructor
  · intro hcut
    obtain ⟨tokens, hscan, rfl⟩ := hcut 0
    rw [scanFrom_append h] at hscan
    obtain ⟨front, hfront, hscan⟩ := bind_eq_ok_iff.mp hscan
    obtain ⟨back, hback, hscan⟩ := bind_eq_ok_iff.mp hscan
    obtain rfl := Except.ok.inj hscan
    exact ⟨_, _, cut_of_scanFrom hfront, cut_of_scanFrom hback, List.map_append⟩
  · rintro ⟨front, later, hfront, hlater, rfl⟩ pos
    obtain ⟨tokens, hscan, rfl⟩ := hfront pos
    obtain ⟨back, hback, rfl⟩ := hlater (pos + utf8Len p)
    refine ⟨tokens ++ back, ?_, List.map_append⟩
    rw [scanFrom_append h, hscan, ok_bind, hback]
    rfl

end Cutting

end Criterion.Token
