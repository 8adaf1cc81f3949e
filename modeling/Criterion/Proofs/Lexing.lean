import Criterion.Proofs.Failure
import Criterion.Proofs.Text
import Criterion.Token
import Mathlib.Data.String.Basic

/-! Lexemes and the texts they stand for. Whatever is cut off the front of a text is spelled as its kind
demands, and a text that is put together from such spellings is cut into them again, as long as what follows
each one does not continue it. -/
namespace Criterion

/-- The error, further on by `n` bytes. -/
def LexicalError.shift (n : Nat) : LexicalError → LexicalError
  | .unexpectedCharacter c pos => .unexpectedCharacter c (pos + n)
  | .unterminatedText pos => .unterminatedText (pos + n)

namespace Token

/-- The token, further on by `n` bytes. -/
def shift (n : Nat) (t : Token) : Token := { t with pos := t.pos + n }

/-- What is read of a text that stands further on by `n` bytes. -/
def shifted (n : Nat) : Except LexicalError (List Token) → Except LexicalError (List Token)
  | .ok tokens => .ok (tokens.map (shift n))
  | .error e => .error (e.shift n)

/-- The words that are no variables. -/
def keywords : List (List Char) :=
  ["AND".toList, "OR".toList, "null".toList, "true".toList, "false".toList]

/-- A letter and then letters and digits; the underscore counts as a letter. -/
def Segment : List Char → Prop
  | [] => False
  | c :: cs => isLetter c = true ∧ ∀ d ∈ cs, isWordChar d = true

/-- Segments joined by dots, the first of them no keyword. -/
def Dotted (cs : List Char) : Prop :=
  ∃ first rest, cs = ['.'].intercalate (first :: rest) ∧ (∀ s ∈ first :: rest, Segment s) ∧ first ∉ keywords

/-- The characters are those of a lexeme of the kind, the quotes of a text left out. -/
def Spelled (l : Lexeme) : Prop :=
  match l.kind with
  | .variable => Dotted l.text.toList
  | .text => '"' ∉ l.text.toList
  | .number => l.text.toList ≠ [] ∧ ∀ d ∈ l.text.toList, d.isDigit = true
  | _ => True

section Words

theorem keyword?_eq_none_iff {cs : List Char} : keyword? cs = none ↔ cs ∉ keywords := by
  constructor
  · intro h hmem
    simp only [keywords, List.mem_cons, List.not_mem_nil, or_false] at hmem
    rcases hmem with rfl | rfl | rfl | rfl | rfl <;> contradiction
  · intro h
    unfold keyword?
    split <;> first | rfl | exact absurd (by decide) h

theorem isWordChar_of_isLetter {c : Char} (h : isLetter c = true) : isWordChar c = true := by
  simp only [isLetter, isWordChar, Char.isAlphanum, Bool.or_eq_true] at h ⊢
  rcases h with h | h
  · exact .inl (.inl h)
  · exact .inr h

theorem isWordChar_of_isDigit {c : Char} (h : c.isDigit = true) : isWordChar c = true := by
  simp [isWordChar, Char.isAlphanum, h]

theorem isLetter_of_isDigit {c : Char} (h : c.isDigit = true) : isLetter c = false := by
  have hunderscore : c ≠ '_' := by
    rintro rfl
    contradiction
  simp [isLetter, Text.isAlpha_of_isDigit h, hunderscore]

theorem isSpace_of_isWordChar {c : Char} (h : isWordChar c = true) : isSpace c = false := by
  rw [← Bool.not_eq_true]
  intro hspace
  simp only [isSpace, Bool.or_eq_true, decide_eq_true_eq] at hspace
  rcases hspace with ((((rfl | rfl) | rfl) | rfl) | rfl) | rfl <;> contradiction

theorem ne_dot_of_isWordChar {c : Char} (h : isWordChar c = true) : c ≠ '.' := by
  rintro rfl
  contradiction

/-- What is counted as a path is the rest of its first segment and then whole segments. -/
theorem take_pathTail (cs : List Char) :
    ∃ rest : List (List Char), (∀ s ∈ rest, Segment s) ∧
      cs.take (pathTail cs) = cs.takeWhile isWordChar ++ rest.flatMap ('.' :: ·) := by
  induction cs using pathTail.induct with
  | case1 => exact ⟨[], by simp, rfl⟩
  | case2 c cs hc ih =>
    obtain ⟨rest, hrest, htake⟩ := ih
    have hsegment : Segment (c :: cs.takeWhile isWordChar) := ⟨hc, fun d hd => List.mem_takeWhile_imp hd⟩
    refine ⟨(c :: cs.takeWhile isWordChar) :: rest, by simpa [hsegment] using hrest, ?_⟩
    have hdot : isWordChar '.' = false := rfl
    simp [pathTail, hc, htake, hdot]
  | case3 c cs hc =>
    have hdot : isWordChar '.' = false := rfl
    exact ⟨[], by simp, by simp [pathTail, hc, hdot]⟩
  | case4 c cs hdot hc ih =>
    obtain ⟨rest, hrest, htake⟩ := ih
    exact ⟨rest, hrest, by simp [pathTail, hc, htake]⟩
  | case5 c cs hdot hc => exact ⟨[], by simp, by simp [pathTail, hc]⟩

/-- The text continues neither a word nor a path that stands in front of it. -/
def Ends (rest : List Char) : Prop := ∀ c ∈ rest.head?, isWordChar c = false ∧ c ≠ '.'

theorem ends_nil : Ends [] := by simp [Ends]

theorem ends_cons {c : Char} (rest : List Char) (h : isWordChar c = false ∧ c ≠ '.') : Ends (c :: rest) := by
  simpa [Ends] using h

variable {rest : List Char}

theorem takeWhile_isWordChar_of_head? (hr : ∀ c ∈ rest.head?, isWordChar c = false) :
    rest.takeWhile isWordChar = [] := by
  cases rest with
  | nil => rfl
  | cons c cs => simp [hr c (by simp)]

theorem takeWhile_isWordChar_of_ends (hr : Ends rest) : rest.takeWhile isWordChar = [] :=
  takeWhile_isWordChar_of_head? fun c hc => (hr c hc).1

theorem pathTail_of_ends (hr : Ends rest) : pathTail rest = 0 := by
  cases rest with
  | nil => rfl
  | cons c cs =>
    obtain ⟨hword, hdot⟩ := hr c (by simp)
    rw [pathTail.eq_3 c cs (fun _ _ h _ => hdot h), hword]
    rfl

theorem pathTail_cons_of_word {c : Char} (hc : isWordChar c = true) (cs : List Char) :
    pathTail (c :: cs) = pathTail cs + 1 := by
  rw [pathTail.eq_3 _ _ (fun _ _ h _ => ne_dot_of_isWordChar hc h), if_pos hc]

theorem pathTail_append {ds : List Char} (hd : ∀ d ∈ ds, isWordChar d = true) :
    pathTail (ds ++ rest) = ds.length + pathTail rest := by
  induction ds with
  | nil => simp
  | cons d ds ih =>
    rw [List.cons_append, pathTail_cons_of_word (hd d (by simp)), ih fun e he => hd e (by simp [he]), List.length_cons]
    omega

theorem pathTail_segments {segments : List (List Char)} (hs : ∀ s ∈ segments, Segment s) :
    pathTail (segments.flatMap ('.' :: ·) ++ rest) = (segments.flatMap ('.' :: ·)).length + pathTail rest := by
  induction segments with
  | nil => simp
  | cons s segments ih =>
    have hsegment : Segment s := hs s (by simp)
    match s with
    | c :: ds =>
      obtain ⟨hc, hds⟩ := hsegment
      have htail := ih fun t ht => hs t (by simp [ht])
      rw [List.flatMap_cons, List.append_assoc, List.cons_append, List.cons_append, pathTail, if_pos hc,
        pathTail_append hds, htail]
      simp only [List.length_append, List.length_cons]
      omega

end Words

section Scanning

variable {c : Char} {cs rest : List Char} {kind : Kind} {length : Nat}

theorem take_length_takeWhile (p : Char → Bool) (cs : List Char) :
    cs.take (cs.takeWhile p).length = cs.takeWhile p :=
  (List.prefix_iff_eq_take.mp (List.takeWhile_prefix p)).symm

theorem spelled_keyword (h : keyword? cs = some kind) (text : String) : Spelled ⟨kind, text⟩ := by
  unfold keyword? at h
  split at h <;> first | contradiction | (obtain rfl := Option.some.inj h; exact trivial)

/-- A word is a keyword, or it is a path. -/
theorem word_cases (h : word c cs = (kind, length)) :
    keyword? (c :: cs.takeWhile isWordChar) = some kind ∧ length = (cs.takeWhile isWordChar).length + 1 ∨
      keyword? (c :: cs.takeWhile isWordChar) = none ∧ kind = .variable ∧ length = pathTail cs + 1 := by
  unfold word at h
  dsimp only at h
  split at h
  · rename_i found hfound
    obtain ⟨rfl, rfl⟩ := Prod.mk.inj h
    exact .inl ⟨hfound, rfl⟩
  · rename_i hnone
    obtain ⟨rfl, rfl⟩ := Prod.mk.inj h
    exact .inr ⟨hnone, rfl, rfl⟩

theorem spelled_word (hc : isLetter c = true) (h : word c cs = (kind, length)) :
    Spelled ⟨kind, String.ofList (content kind ((c :: cs).take length))⟩ := by
  rcases word_cases h with ⟨hkey, -⟩ | ⟨hnone, rfl, rfl⟩
  · exact spelled_keyword hkey _
  · obtain ⟨segments, hsegments, htake⟩ := take_pathTail cs
    have hfirst : Segment (c :: cs.takeWhile isWordChar) := ⟨hc, fun d hd => List.mem_takeWhile_imp hd⟩
    refine ⟨c :: cs.takeWhile isWordChar, segments, ?_, ?_, keyword?_eq_none_iff.mp hnone⟩
    · rw [Text.intercalate_cons, String.toList_ofList, content, List.take_succ_cons, htake, List.cons_append]
      simp
    · simpa [hfirst] using hsegments

theorem quoted?_append {body : List Char} (hquote : '"' ∉ body) :
    quoted? (body ++ '"' :: rest) = some (.text, body.length + 2) := by
  have hall : ∀ d ∈ body, decide (d ≠ '"') = true := fun d hd => by
    rw [decide_eq_true_eq]
    rintro rfl
    exact hquote hd
  have hbody : (body ++ '"' :: rest).takeWhile (· ≠ '"') = body := by
    rw [List.takeWhile_append_of_pos hall]
    simp
  rw [quoted?, hbody]
  simp

/-- What is taken for a text literal is closed by the first quote. -/
theorem exists_of_quoted? (h : quoted? cs = some (kind, length)) :
    ∃ body rest, cs = body ++ '"' :: rest ∧ '"' ∉ body ∧ kind = .text ∧ length = body.length + 2 := by
  unfold quoted? at h
  dsimp only at h
  split at h
  · rename_i hlt
    obtain ⟨rfl, rfl⟩ := Prod.mk.inj (Option.some.inj h)
    have hsplit : cs.takeWhile (· ≠ '"') ++ cs.dropWhile (· ≠ '"') = cs := List.takeWhile_append_dropWhile
    have hquote : '"' ∉ cs.takeWhile (· ≠ '"') := fun hmem => by simpa using List.mem_takeWhile_imp hmem
    have hhead := List.head?_dropWhile_not (· ≠ '"') cs
    cases hdrop : cs.dropWhile (· ≠ '"') with
    | nil =>
      rw [hdrop, List.append_nil] at hsplit
      rw [hsplit] at hlt
      exact absurd hlt (Nat.lt_irrefl _)
    | cons d ds =>
      rw [hdrop] at hsplit hhead
      obtain rfl : d = '"' := by simpa using hhead
      exact ⟨_, ds, hsplit.symm, hquote, rfl, rfl⟩
  · contradiction

theorem spelled_quoted (h : quoted? cs = some (kind, length)) :
    Spelled ⟨kind, String.ofList (content kind (('"' :: cs).take length))⟩ := by
  obtain ⟨body, rest, rfl, hquote, rfl, rfl⟩ := exists_of_quoted? h
  have hcontent : content .text (('"' :: (body ++ '"' :: rest)).take (body.length + 2)) = body := by
    rw [List.take_succ_cons, List.take_length_add_append, List.take_succ_cons, List.take_zero]
    simp [content]
  rw [hcontent]
  simpa [Spelled] using hquote

theorem spelled_digits (hc : c.isDigit = true) :
    Spelled ⟨.number, String.ofList ((c :: cs).take ((cs.takeWhile Char.isDigit).length + 1))⟩ := by
  rw [List.take_succ_cons, take_length_takeWhile]
  refine ⟨by simp, fun d hd => ?_⟩
  rw [String.toList_ofList, List.mem_cons] at hd
  rcases hd with rfl | hd
  · exact hc
  · exact List.mem_takeWhile_imp hd

/-- The symbol of a kind that is written with no letters. -/
def mark? : Kind → Option (List Char)
  | .operator op => if op.isLogical then none else some op.symbol.toList
  | .leftParen => some ['(']
  | .rightParen => some [')']
  | _ => none

/-- What can be cut off the front of a text. -/
inductive Front : List Char → Kind → Nat → Prop
  | mark {kind : Kind} {length : Nat} {cs m rest : List Char} (hmark : mark? kind = some m) (hcs : cs = m ++ rest)
      (hlength : length = m.length) : Front cs kind length
  | quoted {kind : Kind} {length : Nat} {cs : List Char} (h : quoted? cs = some (kind, length)) :
      Front ('"' :: cs) kind length
  | word {kind : Kind} {length : Nat} {c : Char} {cs : List Char} (hc : isLetter c = true)
      (h : word c cs = (kind, length)) : Front (c :: cs) kind length
  | number {c : Char} {cs : List Char} (hc : c.isDigit = true) :
      Front (c :: cs) .number ((cs.takeWhile Char.isDigit).length + 1)

theorem front_of_scan? (h : scan? cs = some (kind, length)) : Front cs kind length := by
  unfold scan? at h
  split at h
  all_goals first
    | (obtain ⟨rfl, rfl⟩ := Prod.mk.inj (Option.some.inj h); exact .mark rfl rfl rfl)
    | skip
  · exact .quoted h
  · split at h
    · rename_i hletter
      exact .word hletter (Option.some.inj h)
    · split at h
      · rename_i hdigit
        obtain ⟨rfl, rfl⟩ := Prod.mk.inj (Option.some.inj h)
        exact .number hdigit
      · contradiction
  · contradiction

theorem spelled_of_scan? (h : scan? (c :: cs) = some (kind, length)) :
    Spelled ⟨kind, String.ofList (content kind ((c :: cs).take length))⟩ := by
  cases front_of_scan? h with
  | mark hmark =>
    -- A mark has no spelling to be looked at.
    cases kind <;> first | exact trivial | contradiction
  | quoted h => exact spelled_quoted h
  | word hc h => exact spelled_word hc h
  | number hc => exact spelled_digits hc

theorem spelled_of_scanFrom {pos skip : Nat} {tokens : List Token} (h : scanFrom pos skip cs = .ok tokens) :
    ∀ t ∈ tokens, Spelled t.toLexeme := by
  induction pos, skip, cs using scanFrom.induct generalizing tokens with
  | case1 =>
    obtain rfl := Except.ok.inj h
    simp
  | case2 pos skip c cs ih => exact ih h
  | case3 pos c cs hspace ih =>
    rw [scanFrom, if_pos hspace] at h
    exact ih h
  | case4 pos c cs hspace hscan =>
    rw [scanFrom, if_neg hspace, hscan] at h
    contradiction
  | case5 pos c cs hspace kind length hscan ih =>
    rw [scanFrom, if_neg hspace, hscan] at h
    obtain ⟨later, hlater, htokens⟩ := bind_eq_ok_iff.mp h
    obtain rfl := Except.ok.inj htokens
    intro t ht
    rcases List.mem_cons.mp ht with rfl | ht
    · exact spelled_of_scan? hscan
    · exact ih hlater t ht

end Scanning

section Cutting

variable {c : Char} {cs rest : List Char} {kind : Kind} {ls : List Lexeme}

/-- Where the text behind a character begins, counted with the character and without it. -/
theorem add_utf8Len (pos : Nat) (c : Char) (cs : List Char) :
    pos + c.utf8Size + String.utf8Len cs = pos + String.utf8Len (c :: cs) := by
  rw [String.utf8Len_cons, Nat.add_assoc, Nat.add_comm c.utf8Size]

theorem scanFrom_skip (pos : Nat) (cs rest : List Char) :
    scanFrom pos cs.length (cs ++ rest) = scanFrom (pos + String.utf8Len cs) 0 rest := by
  induction cs generalizing pos with
  | nil => rfl
  | cons c cs ih =>
    rw [List.length_cons, List.cons_append, scanFrom, ih, add_utf8Len]

/-- The text is cut into the lexemes, at whatever byte it begins. -/
def Cut (cs : List Char) (ls : List Lexeme) : Prop :=
  ∀ pos, ∃ tokens, scanFrom pos 0 cs = .ok tokens ∧ tokens.map Token.toLexeme = ls

theorem cut_nil : Cut [] [] := fun _ => ⟨[], rfl, rfl⟩

theorem refusal_add (c : Char) (pos n : Nat) : refusal c (pos + n) = (refusal c pos).shift n := by
  unfold refusal
  split <;> rfl

/-- The byte that the text begins at only moves what is read. -/
theorem scanFrom_add (n pos skip : Nat) (cs : List Char) :
    scanFrom (pos + n) skip cs = shifted n (scanFrom pos skip cs) := by
  induction pos, skip, cs using scanFrom.induct with
  | case1 => rfl
  | case2 pos skip c cs ih => rw [scanFrom, scanFrom, Nat.add_right_comm, ih]
  | case3 pos c cs hspace ih => rw [scanFrom, scanFrom, if_pos hspace, if_pos hspace, Nat.add_right_comm, ih]
  | case4 pos c cs hspace hscan =>
    rw [scanFrom, scanFrom, if_neg hspace, if_neg hspace, hscan]
    exact congrArg Except.error (refusal_add c pos n)
  | case5 pos c cs hspace kind length hscan ih =>
    rw [scanFrom, scanFrom, if_neg hspace, if_neg hspace, hscan]
    dsimp only
    rw [Nat.add_right_comm, ih]
    cases scanFrom (pos + c.utf8Size) (length - 1) cs with
    | error e => rfl
    | ok tokens => rfl

theorem map_toLexeme_shift (n : Nat) (tokens : List Token) :
    (tokens.map (shift n)).map Token.toLexeme = tokens.map Token.toLexeme := by
  rw [List.map_map]
  rfl

theorem cut_of_scanFrom {pos : Nat} {tokens : List Token} (h : scanFrom pos 0 cs = .ok tokens) :
    Cut cs (tokens.map Token.toLexeme) := by
  intro start
  have hzero := scanFrom_add pos 0 0 cs
  rw [Nat.zero_add, h] at hzero
  have hstart := scanFrom_add start 0 0 cs
  rw [Nat.zero_add] at hstart
  cases hfirst : scanFrom 0 0 cs with
  | error e =>
    rw [hfirst] at hzero
    contradiction
  | ok first =>
    rw [hfirst] at hzero hstart
    obtain rfl := Except.ok.inj hzero
    exact ⟨_, hstart, by rw [map_toLexeme_shift, map_toLexeme_shift]⟩

theorem cut_space_iff (hc : isSpace c = true) : Cut (c :: cs) ls ↔ Cut cs ls := by
  constructor
  · intro h
    obtain ⟨tokens, hscan, rfl⟩ := h 0
    rw [scanFrom, if_pos hc] at hscan
    exact cut_of_scanFrom hscan
  · intro h pos
    rw [scanFrom, if_pos hc]
    exact h _

theorem cut_space (h : Cut rest ls) : Cut (' ' :: rest) ls := (cut_space_iff (by rfl)).mpr h

theorem cut_cons (hc : isSpace c = false) (hscan : scan? (c :: cs ++ rest) = some (kind, cs.length + 1))
    (h : Cut rest ls) : Cut (c :: cs ++ rest) (⟨kind, String.ofList (content kind (c :: cs))⟩ :: ls) := by
  intro pos
  obtain ⟨tokens, hrest, hlexemes⟩ := h (pos + c.utf8Size + String.utf8Len cs)
  have htake : (c :: cs ++ rest).take (cs.length + 1) = c :: cs := by simp
  refine ⟨⟨⟨kind, String.ofList (content kind (c :: cs))⟩, pos⟩ :: tokens, ?_, by simp [hlexemes]⟩
  rw [List.cons_append] at hscan htake ⊢
  rw [scanFrom, if_neg (by simp [hc]), hscan]
  simp only [Nat.add_sub_cancel, scanFrom_skip, hrest, htake, ok_bind]
  rfl

theorem scan?_letter (hc : isLetter c = true) : scan? (c :: cs) = some (word c cs) := by
  have hne {d : Char} (hd : isLetter d = false) : c ≠ d := by
    rintro rfl
    rw [hd] at hc
    contradiction
  unfold scan?
  split
  all_goals first
    | (rename_i heq; exact absurd (List.cons.inj heq).1 (hne rfl))
    | skip
  · rename_i heq
    obtain ⟨rfl, rfl⟩ := List.cons.inj heq
    rw [if_pos hc]
  · contradiction

theorem word_of_scan? {length : Nat} (hc : isLetter c = true) (h : scan? (c :: cs) = some (kind, length)) :
    word c cs = (kind, length) := Option.some.inj ((scan?_letter hc).symm.trans h)

theorem scan?_digit (hc : c.isDigit = true) :
    scan? (c :: cs) = some (.number, (cs.takeWhile Char.isDigit).length + 1) := by
  have hne {d : Char} (hd : d.isDigit = false) : c ≠ d := by
    rintro rfl
    rw [hd] at hc
    contradiction
  have hletter : isLetter c = false := isLetter_of_isDigit hc
  unfold scan?
  split
  all_goals first
    | (rename_i heq; exact absurd (List.cons.inj heq).1 (hne rfl))
    | skip
  · rename_i heq
    obtain ⟨rfl, rfl⟩ := List.cons.inj heq
    rw [if_neg (by simp [hletter]), if_pos hc]
  · contradiction

/-- A path that nothing continues is one lexeme. -/
theorem cut_dotted (hd : Dotted cs) (hr : Ends rest) (h : Cut rest ls) :
    Cut (cs ++ rest) (⟨.variable, String.ofList cs⟩ :: ls) := by
  obtain ⟨first, segments, rfl, hsegments, hfirst⟩ := hd
  match first, hsegments first (by simp) with
  | c :: ds, ⟨hc, hds⟩ =>
    have htail : pathTail (segments.flatMap ('.' :: ·) ++ rest) = (segments.flatMap ('.' :: ·)).length := by
      rw [pathTail_segments fun s hs => hsegments s (List.mem_cons_of_mem _ hs), pathTail_of_ends hr, Nat.add_zero]
    have hends : (segments.flatMap ('.' :: ·) ++ rest).takeWhile isWordChar = [] := by
      cases segments with
      | nil => exact takeWhile_isWordChar_of_ends hr
      | cons => rfl
    have hfront : (ds ++ (segments.flatMap ('.' :: ·) ++ rest)).takeWhile isWordChar = ds := by
      rw [List.takeWhile_append_of_pos hds, hends, List.append_nil]
    rw [Text.intercalate_cons, List.cons_append]
    refine cut_cons ?_ ?_ h
    · exact isSpace_of_isWordChar (isWordChar_of_isLetter hc)
    · rw [List.cons_append, scan?_letter hc, word, List.append_assoc, hfront]
      simp only [keyword?_eq_none_iff.mpr hfirst, pathTail_append hds, htail, List.length_append]

theorem scan?_keyword (hkey : keyword? (c :: cs) = some kind) (hc : isLetter c = true)
    (hcs : cs.all isWordChar = true) (hr : ∀ d ∈ rest.head?, isWordChar d = false) :
    scan? (c :: cs ++ rest) = some (kind, cs.length + 1) := by
  have hfront : (cs ++ rest).takeWhile isWordChar = cs := by
    rw [List.takeWhile_append_of_pos (List.all_eq_true.mp hcs), takeWhile_isWordChar_of_head? hr, List.append_nil]
  rw [List.cons_append, scan?_letter hc, word, hfront]
  simp only [hkey, List.length_cons]

/-- So is a keyword. -/
theorem cut_keyword (hkey : keyword? (c :: cs) = some kind) (hcontent : content kind (c :: cs) = c :: cs)
    (hc : isLetter c = true) (hcs : cs.all isWordChar = true) (hr : Ends rest) (h : Cut rest ls) :
    Cut (c :: cs ++ rest) (⟨kind, String.ofList (c :: cs)⟩ :: ls) := by
  have hscan := scan?_keyword hkey hc hcs fun d hd => (hr d hd).1
  have hcut := cut_cons (isSpace_of_isWordChar (isWordChar_of_isLetter hc)) hscan h
  rwa [hcontent] at hcut

theorem cut_digits (hne : cs ≠ []) (hd : ∀ d ∈ cs, d.isDigit = true) (hr : Ends rest) (h : Cut rest ls) :
    Cut (cs ++ rest) (⟨.number, String.ofList cs⟩ :: ls) := by
  obtain ⟨d, ds, rfl⟩ := List.exists_cons_of_ne_nil hne
  have hd' : d.isDigit = true := hd d (by simp)
  have hrest : rest.takeWhile Char.isDigit = [] := by
    cases rest with
    | nil => rfl
    | cons c cs =>
      have hc : c.isDigit = false := by
        rw [← Bool.not_eq_true]
        intro hc
        have := (hr c (by simp)).1
        rw [isWordChar_of_isDigit hc] at this
        contradiction
      simp [hc]
  have hfront : (ds ++ rest).takeWhile Char.isDigit = ds := by
    rw [List.takeWhile_append_of_pos fun e he => hd e (by simp [he]), hrest, List.append_nil]
  refine cut_cons (isSpace_of_isWordChar (isWordChar_of_isDigit hd')) ?_ h
  rw [List.cons_append, scan?_digit hd', hfront]

theorem cut_quoted (hquote : '"' ∉ cs) (h : Cut rest ls) :
    Cut ('"' :: (cs ++ '"' :: rest)) (⟨.text, String.ofList cs⟩ :: ls) := by
  have hscan : scan? ('"' :: (cs ++ ['"']) ++ rest) = some (.text, (cs ++ ['"']).length + 1) := by
    rw [List.cons_append, List.append_assoc, List.cons_append, List.nil_append, scan?, quoted?_append hquote]
    simp
  have hcut := cut_cons (by rfl) hscan h
  have hcontent : content .text ('"' :: (cs ++ ['"'])) = cs := by simp [content]
  rwa [hcontent, List.cons_append, List.append_assoc] at hcut

theorem cut_leftParen (h : Cut rest ls) : Cut ('(' :: rest) (⟨.leftParen, "("⟩ :: ls) := by
  have hscan : scan? (['('] ++ rest) = some (.leftParen, 1) := rfl
  exact cut_cons (by rfl) hscan h

theorem cut_rightParen (h : Cut rest ls) : Cut (')' :: rest) (⟨.rightParen, ")"⟩ :: ls) := by
  have hscan : scan? ([')'] ++ rest) = some (.rightParen, 1) := rfl
  exact cut_cons (by rfl) hscan h

/-- A symbol is one lexeme in front of a space. -/
theorem cut_symbol (op : Operator) (h : Cut rest ls) :
    Cut (op.symbol.toList ++ ' ' :: rest) (⟨.operator op, op.symbol⟩ :: ls) := by
  have hrest : Cut (' ' :: rest) ls := cut_space h
  have hends : Ends (' ' :: rest) := ends_cons rest (by decide)
  cases op with
  | and => exact cut_keyword (by rfl) (by rfl) (by rfl) (by rfl) hends hrest
  | or => exact cut_keyword (by rfl) (by rfl) (by rfl) (by rfl) hends hrest
  | equal | unequal | less | atMost | greater | atLeast => exact cut_cons (by rfl) (by rfl) hrest

end Cutting

end Token

end Criterion
