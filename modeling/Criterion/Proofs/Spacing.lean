import Criterion.Proofs.Fusion
import Criterion.Proofs.Rendering
import Criterion.Proofs.Respelling

/-! Spaces around the C spellings. A sign that stands apart from names is read as the keyword it is spelled as,
and spaces around it change nothing. -/
namespace Criterion.Registry

open Grammar Token

/-- What the C spellings stand for. -/
inductive Connective where
  | and
  | or
  deriving DecidableEq

namespace Connective

def op : Connective → Operator
  | .and => .and
  | .or => .or

def word (s : Connective) : List Char := s.op.symbol.toList

def spacedWord (s : Connective) : List Char := ' ' :: (s.word ++ [' '])

end Connective

inductive Mark where
  | char (c : Char)
  | sign (s : Connective)
  deriving DecidableEq

/-- The text from left to right, with each `&&` and each `||` taken for a sign. -/
def marks : List Char → List Mark
  | '&' :: '&' :: cs => .sign .and :: marks cs
  | '|' :: '|' :: cs => .sign .or :: marks cs
  | c :: cs => .char c :: marks cs
  | [] => []

def spell (spelling : Connective → List Char) : List Mark → List Char
  | [] => []
  | .char c :: ms => c :: spell spelling ms
  | .sign s :: ms => spelling s ++ spell spelling ms

/-- The text with its signs replaced as they are when it is compiled, but with a space on both sides. -/
def spaced (text : String) : String :=
  String.ofList (replaceDouble '|' " OR ".toList (replaceDouble '&' " AND ".toList text.toList))

/-- An even number of quotes is in front of each sign, so it is in no literal. -/
def Outside (ms : List Mark) : Prop :=
  ∀ before s after, ms = before ++ .sign s :: after → Even ((spell Connective.word before).count '"')

/-- No name, nor a name and a dot, ends in front of a sign, and no word goes on behind it. -/
def Apart (ms : List Mark) : Prop :=
  ∀ before s after, ms = before ++ .sign s :: after →
    Finished (spell Connective.word before) ∧ ∀ c ∈ (spell Connective.word after).head?, isWordChar c = false

section Marks

variable {spelling : Connective → List Char} {c : Char} {cs p : List Char} {ms us : List Mark}

/-- Replacing the one sign and then the other spells the marks. -/
theorem replaceDouble_eq_spell (spelling : Connective → List Char) (hor : '|' ∉ spelling .and)
    (hne : spelling .and ≠ []) (cs : List Char) :
    replaceDouble '|' (spelling .or) (replaceDouble '&' (spelling .and) cs) = spell spelling (marks cs) := by
  induction cs using marks.induct with
  | case1 cs ih =>
    have hfirst : replaceDouble '&' (spelling .and) ('&' :: '&' :: cs) =
        spelling .and ++ replaceDouble '&' (spelling .and) cs := rfl
    rw [hfirst, replaceDouble_append hor, ih]
    rfl
  | case2 cs ih =>
    have hfirst : replaceDouble '&' (spelling .and) ('|' :: '|' :: cs) =
        '|' :: '|' :: replaceDouble '&' (spelling .and) cs := by
      rw [replaceDouble_cons (by simp), replaceDouble_cons (by simp)]
    rw [hfirst, replaceDouble, if_pos ⟨rfl, rfl⟩, ih]
    rfl
  | case3 c cs hand hbar ih =>
    have hsecond : ¬ (c = '|' ∧ (replaceDouble '&' (spelling .and) cs).head? = some '|') := by
      rintro ⟨rfl, hhead⟩
      refine head?_replaceDouble_ne hne hor (fun hfirst => ?_) hhead
      obtain ⟨rest, rfl⟩ := List.head?_eq_some_iff.mp hfirst
      exact hbar rest rfl rfl
    have hfirst : ¬ (c = '&' ∧ cs.head? = some '&') := by
      rintro ⟨rfl, hhead⟩
      obtain ⟨rest, rfl⟩ := List.head?_eq_some_iff.mp hhead
      exact hand rest rfl rfl
    rw [replaceDouble_cons hfirst, replaceDouble_cons hsecond, ih, marks.eq_3 c cs hand hbar]
    rfl
  | case4 => rfl

theorem respell_eq_spell (cs : List Char) : respell cs = spell Connective.word (marks cs) :=
  replaceDouble_eq_spell Connective.word (by decide) (by decide) cs

theorem spaced_eq_spell (text : String) : (spaced text).toList = spell Connective.spacedWord (marks text.toList) := by
  rw [spaced, String.toList_ofList]
  exact replaceDouble_eq_spell Connective.spacedWord (by decide) (by decide) _

theorem spell_append (us ms : List Mark) : spell spelling (us ++ ms) = spell spelling us ++ spell spelling ms := by
  induction us with
  | nil => rfl
  | cons m us ih => cases m <;> simp [spell, ih]

theorem spell_char (p : List Char) : spell spelling (p.map .char) = p := by
  induction p with
  | nil => rfl
  | cons c p ih => rw [List.map_cons, spell, ih]

theorem quote_not_mem_word (s : Connective) : '"' ∉ s.word := by cases s <;> decide

/-- A sign is the first one, or it stands behind the first one. -/
theorem sign_cases {s t : Connective} {before after : List Mark}
    (h : p.map .char ++ .sign s :: ms = before ++ .sign t :: after) :
    (before = p.map .char ∧ after = ms) ∨ ∃ us, before = p.map .char ++ .sign s :: us ∧ ms = us ++ .sign t :: after := by
  induction p generalizing before with
  | nil =>
    cases before with
    | nil => exact .inl ⟨rfl, (List.cons.inj h).2.symm⟩
    | cons m us =>
      obtain ⟨rfl, hms⟩ := List.cons.inj h
      exact .inr ⟨us, rfl, hms⟩
  | cons c p ih =>
    cases before with
    | nil =>
      obtain ⟨hne, -⟩ := List.cons.inj h
      contradiction
    | cons m us =>
      obtain ⟨rfl, hrest⟩ := List.cons.inj h
      rcases ih hrest with ⟨rfl, rfl⟩ | ⟨vs, rfl, rfl⟩
      · exact .inl ⟨rfl, rfl⟩
      · exact .inr ⟨vs, rfl, rfl⟩

theorem ne_sign_of_char {s : Connective} {before after : List Mark} : p.map .char ≠ before ++ .sign s :: after := by
  intro heq
  have hmem : Mark.sign s ∈ p.map Mark.char := by simp [heq]
  simp at hmem

theorem outside_char (p : List Char) : Outside (p.map .char) := fun _ _ _ heq => absurd heq ne_sign_of_char

theorem outside_sign {s : Connective} (hp : Even (p.count '"')) (h : Outside ms) :
    Outside (p.map .char ++ .sign s :: ms) := by
  intro before t after heq
  rcases sign_cases heq with ⟨rfl, rfl⟩ | ⟨us, rfl, hms⟩
  · rwa [spell_char]
  · rw [spell_append, spell, spell_char, List.count_append, List.count_append,
      List.count_eq_zero_of_not_mem (quote_not_mem_word s), Nat.zero_add]
    exact hp.add (h us t after hms)

theorem outside_of_sign {s : Connective} (h : Outside (p.map .char ++ .sign s :: ms)) : Outside ms := by
  rintro before t after rfl
  have hfront := h (p.map .char) s _ rfl
  have hall := h (p.map .char ++ .sign s :: before) t after (by simp)
  rw [spell_append, spell, List.count_append, List.count_append, List.count_eq_zero_of_not_mem (quote_not_mem_word s),
    Nat.zero_add] at hall
  exact (Nat.even_add.mp hall).mp hfront

theorem apart_of_sign {s : Connective} (h : Apart (p.map .char ++ .sign s :: ms)) : Apart ms := by
  rintro before t after rfl
  obtain ⟨hfinished, hafter⟩ := h (p.map .char ++ .sign s :: before) t after (by simp)
  rw [spell_append, spell] at hfinished
  exact ⟨finished_of_suffix (finished_of_suffix hfinished (List.suffix_append _ _)) (List.suffix_append _ _), hafter⟩

end Marks

section Cutting

variable {x p : List Char} {ls : List Lexeme} {ms : List Mark}

theorem cut_word_iff (s : Connective) (hx : ∀ c ∈ x.head?, isWordChar c = false) :
    Cut (s.word ++ x) ls ↔ ∃ later, Cut x later ∧ ls = ⟨.operator s.op, s.op.symbol⟩ :: later := by
  cases s with
  | and => exact @cut_keyword_iff 'A' ['N', 'D'] x ls _ (by rfl) (by rfl) (by rfl) (by rfl) hx
  | or => exact @cut_keyword_iff 'O' ['R'] x ls _ (by rfl) (by rfl) (by rfl) (by rfl) hx

theorem cut_spacedWord_iff (s : Connective) :
    Cut (s.spacedWord ++ x) ls ↔ ∃ later, Cut x later ∧ ls = ⟨.operator s.op, s.op.symbol⟩ :: later := by
  have hspaced : s.spacedWord ++ x = ' ' :: (s.word ++ ' ' :: x) := by simp [Connective.spacedWord]
  rw [hspaced, cut_space_iff (by rfl), cut_word_iff s (by simp; decide)]
  simp only [cut_space_iff (show isSpace ' ' = true from rfl)]

theorem boundary_word {s : Connective} (hfinished : Finished p) (hclosed : Even (p.count '"')) :
    Boundary p (s.word ++ x) := by
  refine ⟨.inr hfinished, hclosed, ?_⟩
  cases s <;> simp [Connective.word, Connective.op, Operator.symbol]

theorem boundary_spacedWord {s : Connective} (hclosed : Even (p.count '"')) : Boundary p (s.spacedWord ++ x) := by
  refine ⟨.inl (ends_cons _ (by decide)), hclosed, ?_⟩
  simp [Connective.spacedWord]

/-- Where the signs stand apart, spaces around them do not change how the text is cut. -/
theorem cut_spell_iff (houtside : Outside (p.map .char ++ ms)) (hapart : Apart (p.map .char ++ ms)) :
    Cut (p ++ spell Connective.word ms) ls ↔ Cut (p ++ spell Connective.spacedWord ms) ls := by
  induction ms generalizing p ls with
  | nil => rfl
  | cons m ms ih =>
    cases m with
    | char c =>
      have hstep := @ih (p ++ [c]) ls (by simpa using houtside) (by simpa using hapart)
      simpa [spell] using hstep
    | sign s =>
      have hclosed : Even (p.count '"') := by simpa [spell_char] using houtside (p.map .char) s ms rfl
      obtain ⟨hfinished, hafter⟩ := hapart (p.map .char) s ms rfl
      rw [spell_char] at hfinished
      have hstep {later : List Lexeme} := @ih [] later (outside_of_sign houtside) (apart_of_sign hapart)
      rw [spell, spell, cut_append_iff (boundary_word hfinished hclosed), cut_append_iff (boundary_spacedWord hclosed)]
      simp only [cut_word_iff s hafter, cut_spacedWord_iff, List.nil_append] at hstep ⊢
      simp only [hstep]

/-- The word of a sign runs on into a word behind it. -/
theorem exists_cut_word (s : Connective) {later : List Lexeme} {d : Char} (hd : x.head? = some d)
    (hword : isWordChar d = true) (h : Cut x later) : ∃ ls, Cut (s.word ++ x) ls ∧ weight ls ≤ weight later := by
  have hx : ¬ Ends x := fun hends => by simpa [hword] using (hends d hd).1
  obtain ⟨x, rfl⟩ := List.head?_eq_some_iff.mp hd
  have hkey : keyword? (s.word ++ (d :: x).takeWhile isWordChar) = none := by
    rw [keyword?_eq_none_iff, List.takeWhile_cons_of_pos hword]
    cases s <;> simp [keywords, Connective.word, Connective.op, Operator.symbol]
  cases s with
  | and => exact @exists_cut_fused 'A' ['N', 'D'] _ later (by rfl) (by rfl) hkey hx h
  | or => exact @exists_cut_fused 'O' ['R'] _ later (by rfl) (by rfl) hkey hx h

theorem exists_head?_word (s : Connective) (x : List Char) :
    ∃ d, (s.word ++ x).head? = some d ∧ isLetter d = true ∧ ∀ k ∈ keywords, d ∉ k.tail := by
  cases s with
  | and => exact ⟨'A', rfl, rfl, by decide⟩
  | or => exact ⟨'O', rfl, rfl, by decide⟩

theorem apart_char (p : List Char) : Apart (p.map .char) := fun _ _ _ heq => absurd heq ne_sign_of_char

theorem apart_sign {s : Connective} (hp : Finished p) (hword : ∀ c ∈ (spell Connective.word ms).head?, isWordChar c = false)
    (hdot : (spell Connective.word ms).head? ≠ some '.') (h : Apart ms) : Apart (p.map .char ++ .sign s :: ms) := by
  intro before t after heq
  rcases sign_cases heq with ⟨rfl, rfl⟩ | ⟨us, rfl, hms⟩
  · rw [spell_char]
    exact ⟨hp, hword⟩
  · obtain ⟨hfinished, hafter⟩ := h us t after hms
    refine ⟨?_, hafter⟩
    rw [hms, spell_append] at hword hdot
    -- What stands between the two signs begins with a character that no name goes on over.
    cases hbetween : spell Connective.word us with
    | nil =>
      obtain ⟨d, hd, hletter, -⟩ := exists_head?_word t (spell Connective.word after)
      rw [hbetween, List.nil_append] at hword
      simpa [isWordChar_of_isLetter hletter] using hword d hd
    | cons d v =>
      rw [hbetween, List.cons_append, List.head?_cons] at hword hdot
      rw [hbetween] at hfinished
      rw [spell_append, spell, hbetween, ← List.append_assoc]
      exact finished_append_cons (hword d rfl) (fun heq => hdot (heq ▸ rfl)) hfinished _

/-- The word of a sign is a lexeme by itself, or it takes the place of another. -/
theorem exists_cut_sign (s : Connective) {later : List Lexeme} (h : Cut x later) :
    ∃ ls, Cut (s.word ++ x) ls ∧
      (weight ls ≤ weight later ∨ weight ls = weight later + 1 ∧ ∀ d ∈ x.head?, isWordChar d = false) := by
  by_cases hword : ∃ d ∈ x.head?, isWordChar d = true
  · obtain ⟨d, hd, hword⟩ := hword
    obtain ⟨ls, hls, hle⟩ := exists_cut_word s hd hword h
    exact ⟨ls, hls, .inl hle⟩
  · have hx : ∀ d ∈ x.head?, isWordChar d = false := by simpa using hword
    exact ⟨_, (cut_word_iff s hx).mpr ⟨later, h, rfl⟩, .inr ⟨weight_cons rfl, hx⟩⟩

/-- Without the spaces the text is cut too, but into fewer lexemes where a sign does not stand apart. -/
theorem exists_cut_spell (houtside : Outside (p.map .char ++ ms)) (h : Cut (p ++ spell Connective.spacedWord ms) ls) :
    ∃ rs, Cut (p ++ spell Connective.word ms) rs ∧
      (weight rs < weight ls ∨ weight rs = weight ls ∧ Apart (p.map .char ++ ms)) := by
  induction ms generalizing p ls with
  | nil => exact ⟨ls, h, .inr ⟨rfl, by simpa using apart_char p⟩⟩
  | cons m ms ih =>
    cases m with
    | char c =>
      have hstep := @ih (p ++ [c]) ls (by simpa using houtside) (by simpa [spell] using h)
      simpa [spell] using hstep
    | sign s =>
      have hclosed : Even (p.count '"') := by simpa [spell_char] using houtside (p.map .char) s ms rfl
      rw [spell, cut_append_iff (boundary_spacedWord hclosed)] at h
      obtain ⟨front, back, hfront, hback, rfl⟩ := h
      obtain ⟨later, hlater, rfl⟩ := (cut_spacedWord_iff s).mp hback
      obtain ⟨rest, hrest, hweight⟩ := @ih [] later (outside_of_sign houtside) hlater
      rw [List.nil_append] at hrest
      obtain ⟨xs, hxs, hsign⟩ := exists_cut_sign s hrest
      have hspaced : weight (front ++ ⟨.operator s.op, s.op.symbol⟩ :: later) = weight front + (weight later + 1) := by
        rw [weight_append, weight_cons rfl]
      rw [spell, hspaced]
      by_cases hp : Finished p
      · refine ⟨front ++ xs, (cut_append_iff (boundary_word hp hclosed)).mpr ⟨front, xs, hfront, hxs, rfl⟩, ?_⟩
        rw [weight_append]
        rcases hsign with hle | ⟨heq, hword⟩
        · exact .inl (by omega)
        rcases hweight with hless | ⟨hsame, hapart⟩
        · exact .inl (by omega)
        · have hdot : (spell Connective.word ms).head? ≠ some '.' := head?_ne_dot_of_cut hrest
          exact .inr ⟨by omega, apart_sign hp hword hdot hapart⟩
      · obtain ⟨d, hd, hletter, hkeys⟩ := exists_head?_word s (spell Connective.word ms)
        obtain ⟨rs, hrs, hless⟩ := exists_cut_of_not_finished hp hclosed hfront hd hletter hkeys hxs
        exact ⟨rs, hrs, .inl (by omega)⟩

end Cutting

section Compiling

variable {r : Registry} {text : String} {t : Expr}

theorem respell_spaced (text : String) : respell (spaced text).toList = (spaced text).toList := by
  obtain ⟨hand, hor⟩ := @not_doubled_replaced " AND ".toList " OR ".toList (by decide) (by decide) text.toList
  rw [spaced, String.toList_ofList]
  exact respell_of_not_doubled hand hor

theorem length_spell_le (ms : List Mark) :
    (spell Connective.word ms).length ≤ (spell Connective.spacedWord ms).length := by
  induction ms with
  | nil => exact Nat.le_refl _
  | cons m ms ih =>
    cases m with
    | char c => simpa [spell] using ih
    | sign s =>
      simp only [spell, Connective.spacedWord, List.length_append, List.length_cons, List.length_nil]
      omega

theorem compile_eq_ok_tree_iff :
    (r.compile text).map Compiled.tree = .ok t ↔
      (respell text.toList).length ≤ r.limit ∧ ∃ ls, Cut (respell text.toList) ls ∧ Expr.parse ls = .ok t := by
  constructor
  · intro h
    cases hc : r.compile text with
    | error e =>
      rw [hc] at h
      contradiction
    | ok c =>
      rw [hc] at h
      obtain rfl := Except.ok.inj h
      obtain ⟨hexpression, hlength, htree, -⟩ := compileWithin_eq_ok_iff.mp hc
      obtain ⟨tokens, htokens, hparse⟩ := Expr.compile_eq_ok_iff.mp htree
      rw [← hexpression]
      exact ⟨by rwa [String.length_toList], _, cut_of_scanFrom htokens, hparse⟩
  · rintro ⟨hlength, ls, hcut, hparse⟩
    obtain ⟨tokens, htokens, rfl⟩ := hcut 0
    have htree : Expr.compile (String.ofList (respell text.toList)) = .ok t :=
      Expr.compile_eq_ok_iff.mpr ⟨tokens, by rwa [tokenize, String.toList_ofList], hparse⟩
    have hc : r.compile text = .ok ⟨String.ofList (respell text.toList), t, t.encode⟩ :=
      compileWithin_eq_ok_iff.mpr ⟨String.toList_ofList, by simpa using hlength, htree, rfl⟩
    rw [hc]
    rfl

/-- Spaces around the signs change nothing where they stand apart. Where one does not, it has run on into a name,
and there is no tree that the text compiles to with the spaces and without. -/
theorem compile_spaced (houtside : Outside (marks text.toList)) (hfits : (spaced text).length ≤ r.limit) :
    (Apart (marks text.toList) → ∀ t,
      (r.compile text).map Compiled.tree = .ok t ↔ (r.compile (spaced text)).map Compiled.tree = .ok t) ∧
    (¬ Apart (marks text.toList) → ∀ t,
      ¬ ((r.compile text).map Compiled.tree = .ok t ∧ (r.compile (spaced text)).map Compiled.tree = .ok t)) := by
  have hspaced : (spell Connective.spacedWord (marks text.toList)).length ≤ r.limit := by
    rwa [← spaced_eq_spell, String.length_toList]
  have hshort := (length_spell_le (marks text.toList)).trans hspaced
  have hplain (t : Expr) : (r.compile text).map Compiled.tree = .ok t ↔
      ∃ ls, Cut (spell Connective.word (marks text.toList)) ls ∧ Expr.parse ls = .ok t := by
    rw [compile_eq_ok_tree_iff, respell_eq_spell, and_iff_right hshort]
  have hwide (t : Expr) : (r.compile (spaced text)).map Compiled.tree = .ok t ↔
      ∃ ls, Cut (spell Connective.spacedWord (marks text.toList)) ls ∧ Expr.parse ls = .ok t := by
    rw [compile_eq_ok_tree_iff, respell_spaced, spaced_eq_spell, and_iff_right hspaced]
  simp only [hplain, hwide]
  constructor
  · intro hapart t
    have hcut {ls : List Lexeme} := @cut_spell_iff [] ls _ houtside hapart
    simp only [List.nil_append] at hcut
    simp only [hcut]
  · rintro hapart t ⟨⟨rs, hrs, hparse⟩, ls, hls, hparse'⟩
    obtain ⟨others, hothers, hweight⟩ := @exists_cut_spell [] ls _ houtside hls
    obtain rfl : rs = others := cut_unique hrs hothers
    have hsame : weight rs = weight ls := by
      rw [weight_of_derives (sentence_of_parse hparse).1, weight_of_derives (sentence_of_parse hparse').1]
    rcases hweight with hless | ⟨-, htrue⟩
    · omega
    · exact hapart htrue

theorem compile_spaced_literals :
    let r : Registry := ⟨.inMemory, defaultLimit⟩
    let text := "k==\"a&b\"&&(n>=3||\"c\"<k.v)"
    let equality : Expr := .binary .equal (.atom (.variable "k")) (.atom (.text "a&b"))
    let bounds : Expr := .binary .or (.binary .atLeast (.atom (.variable "n")) (.atom (.number 3)))
      (.binary .less (.atom (.text "c")) (.atom (.variable "k.v")))
    Outside (marks text.toList) ∧ (spaced text).length ≤ r.limit ∧ Apart (marks text.toList) ∧
      (r.compile text).map Compiled.tree = .ok (.binary .and equality bounds) ∧
      (r.compile (spaced text)).map Compiled.tree = .ok (.binary .and equality bounds) := by
  intro r text equality bounds
  have hmarks : marks text.toList = "k==\"a&b\"".toList.map .char ++ .sign .and ::
      ("(n>=3".toList.map .char ++ .sign .or :: "\"c\"<k.v)".toList.map .char) := by decide +kernel
  have houtside : Outside (marks text.toList) := by
    rw [hmarks]
    exact outside_sign (by decide) (outside_sign (by decide) (outside_char _))
  have hapart : Apart (marks text.toList) := by
    have hquoted : Finished ("k==\"a&b".toList ++ ['"']) :=
      finished_append_cons (by decide) (by decide) (finished_cons (by decide) finished_nil) _
    have hnumber : Finished ("(n".toList ++ ['>', '=', '3']) :=
      finished_append_cons (by decide) (by decide) (@finished_append [] ['>', '=', '3'] (by rfl) finished_nil) _
    rw [hmarks]
    refine apart_sign hquoted ?_ (by decide) (apart_sign hnumber ?_ (by decide) (apart_char _))
    · rintro _ ⟨⟩
      rfl
    · rintro _ ⟨⟩
      rfl
  have hfits : (spaced text).length ≤ r.limit := by decide +kernel
  have hcompiled : (r.compile text).map Compiled.tree = .ok (.binary .and equality bounds) :=
    eq_ok_of_toOption (by decide +kernel)
  exact ⟨houtside, hfits, hapart, hcompiled, ((compile_spaced houtside hfits).1 hapart _).mp hcompiled⟩

/-- Without spaces the sign runs on into the names, and the text is one name. -/
theorem compile_fused :
    let r : Registry := ⟨.inMemory, defaultLimit⟩
    Outside (marks "a&&b".toList) ∧ (spaced "a&&b").length ≤ r.limit ∧
      (r.compile "a&&b").map Compiled.tree = .ok (.atom (.variable "aANDb")) ∧
      (r.compile (spaced "a&&b")).map Compiled.tree = .ok (.binary .and (.atom (.variable "a")) (.atom (.variable "b"))) ∧
      ¬ ∀ t, (r.compile "a&&b").map Compiled.tree = .ok t ↔ (r.compile (spaced "a&&b")).map Compiled.tree = .ok t := by
  intro r
  have hfused : (r.compile "a&&b").map Compiled.tree = .ok (.atom (.variable "aANDb")) :=
    eq_ok_of_toOption (by decide +kernel)
  have hspaced : (r.compile (spaced "a&&b")).map Compiled.tree =
      .ok (.binary .and (.atom (.variable "a")) (.atom (.variable "b"))) := eq_ok_of_toOption (by decide +kernel)
  refine ⟨outside_sign (p := ['a']) (by decide) (outside_char ['b']), by decide +kernel, hfused, hspaced, fun h => ?_⟩
  have hboth := (h _).mp hfused
  rw [hspaced] at hboth
  contradiction

end Compiling

end Criterion.Registry
