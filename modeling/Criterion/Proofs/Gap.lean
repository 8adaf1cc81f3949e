import Criterion.Expr.Parse
import Criterion.Proofs.Boundary
import Mathlib.Data.List.Chain

/-! Spaces between lexemes. What stands in front of a space is read as if the text ended there, so lexemes with spaces
between them come back one by one; and where two of them touch, only the first character of the second one matters
for the first, so what stands further on can be moved. -/
namespace Criterion

namespace Token

open String (utf8Len)

def Blank (s : String) : Prop := ∀ c ∈ s.toList, isSpace c = true

instance (s : String) : Decidable (Blank s) := decidable_of_iff (s.toList.all isSpace = true) List.all_eq_true

/-- The lexeme is one that a text can have. -/
structure Legal (l : Lexeme) : Prop where
  ofKind : OfKind l.kind l.spelling.toList
  named : l.kind = .variable → Dotted l.text.toList

/-- The lexemes in turn, each with the gap behind it. -/
def printed : List (Lexeme × String) → String
  | [] => ""
  | (l, gap) :: pieces => l.spelling ++ gap ++ printed pieces

/-- The first lexeme ends where the second one begins, at least in some text. -/
def Touching (l m : Lexeme) : Prop :=
  ∃ x, scan? (l.spelling.toList ++ (m.spelling.toList ++ x)) = some (l.kind, l.spelling.toList.length)

variable {c d : Char} {cs ds p w x y : List Char} {kind : Kind} {l m : Lexeme} {ls : List Lexeme} {pos skip : Nat}
  {t : Token} {tokens : List Token}

section Spaces

theorem isWordChar_of_isSpace (h : isSpace c = true) : isWordChar c = false := by
  rw [← Bool.not_eq_true]
  intro hword
  simp [isSpace_of_isWordChar hword] at h

/-- Spaces end whatever stands in front of them. -/
theorem boundary_spaces (hp : Even (p.count '"')) (hw : ∀ c ∈ w, isSpace c = true) (hne : w ≠ []) :
    Boundary p (w ++ x) := by
  obtain ⟨c, w, rfl⟩ := List.exists_cons_of_ne_nil hne
  have hc : isSpace c = true := hw c (by simp)
  have hword : isWordChar c = false := isWordChar_of_isSpace hc
  have hother {d : Char} (hd : isSpace d = false) : c ≠ d := by
    rintro rfl
    simp [hd] at hc
  have hdigit : c.isDigit = false := by
    rw [← Bool.not_eq_true]
    intro hdigit
    simp [isWordChar_of_isDigit hdigit] at hword
  exact ⟨.inl (ends_cons _ ⟨hword, hother (by decide)⟩), hp, by simpa using ⟨hdigit, hother (by decide)⟩⟩

theorem scanFrom_spaces (hw : ∀ c ∈ w, isSpace c = true) (pos : Nat) :
    scanFrom pos 0 (w ++ x) = scanFrom (pos + utf8Len w) 0 x := by
  induction w generalizing pos with
  | nil => rfl
  | cons c w ih =>
    rw [List.cons_append, scanFrom, if_pos (hw c (by simp)), ih fun d hd => hw d (by simp [hd]), add_utf8Len]

theorem cut_spaces (hw : ∀ c ∈ w, isSpace c = true) (h : Cut x ls) : Cut (w ++ x) ls := fun pos => by
  rw [scanFrom_spaces hw]
  exact h _

/-- The quotes of a text that can be read come in pairs. -/
theorem Laid.even_quotes (h : Laid pos cs tokens) : Even (cs.count '"') := by
  induction h with
  | done => exact Even.zero
  | space hspace _ ih => rwa [count_quote_of_space hspace]
  | token hl _ ih =>
    rw [List.count_append]
    exact (Token.even_quotes hl.ofKind).add ih

/-- Behind a text that can be read and spaces, the scan goes on as if nothing stood in front. -/
theorem tokenize_append_spaces {a gap b : String} {front : List Token} (hgap : Blank gap) (hne : gap ≠ "")
    (ha : tokenize a = .ok front) :
    tokenize (a ++ gap ++ b) = (shifted (a ++ gap).utf8ByteSize (tokenize b)).map (front ++ ·) := by
  have hlaid : Laid 0 a.toList front := by simpa using laid_of_scanFrom ha
  have hgap' : gap.toList ≠ [] := by simpa using hne
  have hbytes : 0 + utf8Len a.toList + utf8Len gap.toList = 0 + (a ++ gap).utf8ByteSize := by
    rw [String.utf8ByteSize_append, String.utf8Len_toList, String.utf8Len_toList, Nat.add_assoc]
  rw [tokenize] at ha
  rw [tokenize, String.toList_append, String.toList_append, List.append_assoc,
    scanFrom_append (boundary_spaces hlaid.even_quotes hgap hgap'), ha, ok_bind, scanFrom_spaces hgap, hbytes, scanFrom_add,
    tokenize]
  cases shifted (a ++ gap).utf8ByteSize (scanFrom 0 0 b.toList) with
  | error e => rfl
  | ok back => rfl

end Spaces

section Touch

theorem takeWhile_append_congr {f : Char → Bool} (h : ((p ++ d :: x).takeWhile f).length = p.length) :
    ((p ++ d :: y).takeWhile f).length = p.length := by
  rw [List.takeWhile_append] at h ⊢
  split at h
  · rename_i hall
    rw [if_pos hall]
    by_cases hd : f d = true <;> simp_all
  · contradiction

/-- Of what touches a lexeme only the first character matters. -/
theorem scan?_congr (h : scan? (c :: p ++ d :: x) = some (kind, (c :: p).length)) (hdot : d ≠ '.') (y : List Char) :
    scan? (c :: p ++ d :: y) = some (kind, (c :: p).length) := by
  rw [List.cons_append] at h ⊢
  by_cases hletter : isLetter c = true
  · have hword : isWordChar d = false := head?_drop_word hletter h d (by simp)
    have hends (z : List Char) : Ends (d :: z) := ends_cons z ⟨hword, hdot⟩
    rw [scan?_letter hletter, word_append hletter (.inl (hends _))] at h ⊢
    exact h
  by_cases hdigit : c.isDigit = true
  · rw [scan?_digit hdigit] at h ⊢
    obtain ⟨rfl, hlength⟩ := Prod.mk.inj (Option.some.inj h)
    rw [takeWhile_append_congr (Nat.succ.inj hlength), List.length_cons]
  by_cases hquote : c = '"'
  · subst hquote
    have hclosed : quoted? p = some (kind, p.length + 1) := quoted?_of_append h le_rfl
    obtain ⟨body, rest, rfl, -⟩ := exists_of_quoted? hclosed
    exact (quoted?_append_of_mem (by simp)).trans hclosed
  · rw [← h]
    refine scan?_mark hletter hdigit hquote ?_
    cases p <;> simp

theorem isSpace_of_scan? {found : Kind × Nat} (h : scan? (c :: cs) = some found) : isSpace c = false := by
  rw [← Bool.not_eq_true]
  intro hspace
  simp only [isSpace, Bool.or_eq_true, decide_eq_true_eq] at hspace
  rcases hspace with ((((rfl | rfl) | rfl) | rfl) | rfl) | rfl <;> contradiction

theorem content_spelling (l : Lexeme) : String.ofList (content l.kind l.spelling.toList) = l.text := by
  obtain ⟨kind, text⟩ := l
  cases kind <;> simp [content, Lexeme.spelling]

theorem Laid.begins (h : Laid pos cs (t :: tokens)) (hpos : t.pos = pos) : ∃ x, cs = t.spelling.toList ++ x := by
  cases h with
  | @space _ c cs _ _ h =>
    obtain ⟨before, -, -, hlater, -⟩ := h.placed t (by simp)
    have hsize : 0 < c.utf8Size := c.utf8Size_pos
    omega
  | token => exact ⟨_, rfl⟩

/-- Tokens with no byte between them touch. -/
theorem touching_of_scanFrom (h : scanFrom pos skip cs = .ok tokens) :
    tokens.IsChain fun s t => s.stop = t.pos → Touching s.toLexeme t.toLexeme := by
  induction pos, skip, cs using scanFrom.induct generalizing tokens with
  | case1 =>
    obtain rfl := Except.ok.inj h
    exact .nil
  | case2 pos skip c cs ih => exact ih h
  | case3 pos c cs hspace ih =>
    rw [scanFrom, if_pos hspace] at h
    exact ih h
  | case4 pos c cs hspace hscan =>
    rw [scanFrom, if_neg hspace, hscan] at h
    contradiction
  | case5 pos c cs hspace kind length hscan ih =>
    rw [scanFrom, if_neg hspace, hscan] at h
    obtain ⟨later, hlater, htokens⟩ := bind_eq_ok_iff.mp h
    obtain rfl := Except.ok.inj htokens
    obtain ⟨n, rfl⟩ := Nat.exists_eq_add_one.mpr (length_pos_of_scan? hscan)
    refine List.isChain_cons.mpr ⟨fun u hu hstop => ?_, ih hlater⟩
    obtain ⟨later, rfl⟩ := List.head?_eq_some_iff.mp hu
    have hlaid := laid_of_scanFrom hlater
    have hspelling := spelling_content (ofKind_of_scan? hscan)
    rw [Nat.add_sub_cancel] at hlaid
    rw [stop_eq, ← String.utf8Len_toList, hspelling, List.take_succ_cons, ← add_utf8Len] at hstop
    obtain ⟨x, hx⟩ := hlaid.begins hstop.symm
    refine ⟨x, ?_⟩
    rw [hspelling, ← hx, ← List.drop_succ_cons (a := c), List.take_append_drop, List.length_take_of_le (scan?_length_le hscan)]
    exact hscan

end Touch

section Printing

/-- A legal lexeme is the only one of its spelling. -/
theorem cut_legal (h : Legal l) : Cut l.spelling.toList [l] := by
  obtain ⟨kind, text⟩ := l
  obtain ⟨hkind, hnamed⟩ := h
  have hfixed {s : String} (htext : text.toList = s.toList) (hcut : Cut s.toList [⟨kind, s⟩]) :
      Cut text.toList [⟨kind, text⟩] := by
    obtain rfl := String.toList_inj.mp htext
    exact hcut
  cases kind with
  | operator op => exact hfixed hkind (by cases op <;> exact fun pos => ⟨_, rfl, rfl⟩)
  | leftParen => exact @hfixed "(" hkind fun pos => ⟨_, rfl, rfl⟩
  | rightParen => exact @hfixed ")" hkind fun pos => ⟨_, rfl, rfl⟩
  | «variable» => simpa [Lexeme.spelling] using cut_dotted (hnamed rfl) ends_nil cut_nil
  | text =>
    obtain ⟨body, hquote, hbody⟩ := hkind
    obtain rfl : text.toList = body := by simpa [Lexeme.spelling] using hbody
    rw [hbody]
    simpa using cut_quoted hquote cut_nil
  | number => simpa [Lexeme.spelling] using cut_digits hkind.1 hkind.2 ends_nil cut_nil
  | truth b => cases b <;> exact hfixed hkind fun pos => ⟨_, rfl, rfl⟩
  | null => exact hfixed hkind fun pos => ⟨_, rfl, rfl⟩

theorem cut_lexeme (hl : Legal l) (h : scan? (l.spelling.toList ++ x) = some (l.kind, l.spelling.toList.length))
    (hx : Cut x ls) : Cut (l.spelling.toList ++ x) (l :: ls) := by
  obtain ⟨c, ds, hs⟩ := List.exists_cons_of_ne_nil (ne_nil_of_ofKind hl.ofKind)
  rw [hs] at h
  have hcut := cut_cons (isSpace_of_scan? h) h hx
  rwa [← hs, content_spelling] at hcut

/-- What is behind two lexemes that touch does not matter for the first of them. -/
theorem cut_touching (hl : Legal l) (hm : Legal m) (h : Touching l m) (hx : Cut (m.spelling.toList ++ x) ls) :
    Cut (l.spelling.toList ++ (m.spelling.toList ++ x)) (l :: ls) := by
  obtain ⟨c, cs, hc⟩ := List.exists_cons_of_ne_nil (ne_nil_of_ofKind hl.ofKind)
  obtain ⟨d, ds, hd⟩ := List.exists_cons_of_ne_nil (ne_nil_of_ofKind hm.ofKind)
  have hdot : d ≠ '.' := ne_dot_of_cut (hd ▸ cut_legal hm)
  obtain ⟨y, hy⟩ := h
  refine cut_lexeme hl ?_ hx
  rw [hc, hd] at hy ⊢
  exact scan?_congr hy hdot _

theorem cut_printed {pieces : List (Lexeme × String)} (hlegal : ∀ p ∈ pieces, Legal p.1 ∧ Blank p.2)
    (hchain : pieces.IsChain fun p q => p.2 = "" → Touching p.1 q.1) :
    Cut (printed pieces).toList (pieces.map Prod.fst) := by
  induction pieces with
  | nil => exact cut_nil
  | cons piece pieces ih =>
    obtain ⟨l, gap⟩ := piece
    obtain ⟨⟨hl, hgap⟩, hlater⟩ := List.forall_mem_cons.mp hlegal
    have hrest : Cut (printed pieces).toList (pieces.map Prod.fst) := ih hlater hchain.tail
    rw [printed, String.toList_append, String.toList_append, List.append_assoc, List.map_cons]
    by_cases hne : gap = ""
    · -- Without a gap the lexeme is the last one, or it touches the next one.
      subst hne
      cases pieces with
      | nil => simpa [printed] using cut_legal hl
      | cons piece pieces =>
        obtain ⟨m, next⟩ := piece
        have hm : Legal m := (hlater (m, next) (by simp)).1
        have htouch : Touching l m := (List.isChain_cons_cons.mp hchain).1 rfl
        rw [printed, String.append_assoc, String.toList_append] at hrest ⊢
        exact cut_touching hl hm htouch hrest
    · have hboundary : Boundary l.spelling.toList (gap.toList ++ (printed pieces).toList) :=
        boundary_spaces (even_quotes hl.ofKind) hgap (by simpa using hne)
      exact (cut_append_iff hboundary).mpr ⟨[l], _, cut_legal hl, cut_spaces hgap hrest, rfl⟩

theorem legal_of_scanFrom (h : scanFrom pos skip cs = .ok tokens) : ∀ t ∈ tokens, Legal t.toLexeme := by
  intro t ht
  obtain ⟨_, _, -, -, hlongest⟩ := (laid_of_scanFrom h).placed t ht
  refine ⟨hlongest.ofKind, fun hkind => ?_⟩
  have hspelled := spelled_of_scanFrom h t ht
  rwa [Spelled, hkind] at hspelled

/-- Tokens keep to themselves when the gaps between them change, unless a gap is closed. -/
theorem cut_respaced {pieces : List (Token × String)} (h : scanFrom pos skip cs = .ok (pieces.map Prod.fst))
    (hgaps : ∀ p ∈ pieces, Blank p.2) (hchain : pieces.IsChain fun p q => p.2 = "" → p.1.stop = q.1.pos) :
    Cut (printed (pieces.map fun p => (p.1.toLexeme, p.2))).toList ((pieces.map Prod.fst).map Token.toLexeme) := by
  have hlegal : ∀ p ∈ pieces.map fun p => (p.1.toLexeme, p.2), Legal p.1 ∧ Blank p.2 := by
    intro piece hpiece
    obtain ⟨p, hp, rfl⟩ := List.mem_map.mp hpiece
    exact ⟨legal_of_scanFrom h p.1 (List.mem_map_of_mem hp), hgaps p hp⟩
  have htouching : pieces.IsChain fun p q => p.1.stop = q.1.pos → Touching p.1.toLexeme q.1.toLexeme :=
    (List.isChain_map _).mp (touching_of_scanFrom h)
  have hcut := cut_printed hlegal ((List.isChain_map _).mpr ?_)
  · rw [List.map_map] at hcut ⊢
    exact hcut
  · rw [List.isChain_iff_getElem] at hchain htouching ⊢
    exact fun i hi hgap => htouching i hi (hchain i hi hgap)

/-- The parser sees no positions. -/
theorem compile_congr {s t : String} (hs : Cut s.toList ls) (ht : Cut t.toList ls) :
    Expr.compile s = Expr.compile t := by
  obtain ⟨first, hfirst, rfl⟩ := hs 0
  obtain ⟨second, hsecond, heq⟩ := ht 0
  have hs' : tokenize s = .ok first := hfirst
  have ht' : tokenize t = .ok second := hsecond
  simp only [Expr.compile, hs', ht', heq]

end Printing

/-- Spaces separate lexemes and do nothing else. What stands in front of them is read by itself, and so is what follows,
only further on; legal lexemes that are printed with spaces between them come back; and gaps between the tokens of a
text can be widened, narrowed and, where two tokens touch, left out without a change to what is compiled. -/
theorem spaces_separate :
    (∀ (a gap b : String) (front : List Token), Blank gap → gap ≠ "" → tokenize a = .ok front →
      tokenize (a ++ gap ++ b) = (shifted (a ++ gap).utf8ByteSize (tokenize b)).map (front ++ ·)) ∧
    (∀ (lead : String) (pieces : List (Lexeme × String)), Blank lead → (∀ p ∈ pieces, Legal p.1 ∧ Blank p.2) →
      pieces.IsChain (fun p _ => p.2 ≠ "") →
      ∃ tokens, tokenize (lead ++ printed pieces) = .ok tokens ∧ tokens.map Token.toLexeme = pieces.map Prod.fst) ∧
    (∀ (text lead : String) (pieces : List (Token × String)), tokenize text = .ok (pieces.map Prod.fst) → Blank lead →
      (∀ p ∈ pieces, Blank p.2) → pieces.IsChain (fun p q => p.2 = "" → p.1.stop = q.1.pos) →
      Expr.compile (lead ++ printed (pieces.map fun p => (p.1.toLexeme, p.2))) = Expr.compile text) := by
  refine ⟨fun a gap b front hgap hne ha => tokenize_append_spaces hgap hne ha, ?_, ?_⟩
  · intro lead pieces hlead hlegal hchain
    have hcut : Cut (printed pieces).toList (pieces.map Prod.fst) :=
      cut_printed hlegal (hchain.imp fun _ _ hne hgap => absurd hgap hne)
    have hall := cut_spaces hlead hcut
    rw [← String.toList_append] at hall
    exact hall 0
  · intro text lead pieces htext hlead hgaps hchain
    have hcut := cut_spaces hlead (cut_respaced htext hgaps hchain)
    rw [← String.toList_append] at hcut
    exact compile_congr hcut (cut_of_scanFrom htext)

theorem spaces_separate_symbols :
    tokenize ("x" ++ "\n" ++ "é") = .error (.unexpectedCharacter 'é' 2) ∧
      (∃ tokens, tokenize ("\t" ++ printed [(⟨.text, "a b"⟩, " "), (⟨.operator .less, "<"⟩, " "), (⟨.number, "25"⟩, "")]) =
          .ok tokens ∧
        tokens.map Token.toLexeme = [⟨.text, "a b"⟩, ⟨.operator .less, "<"⟩, ⟨.number, "25"⟩]) ∧
      Expr.compile (" " ++ printed [(⟨.variable, "a"⟩, "\n\n"), (⟨.operator .atLeast, ">="⟩, ""), (⟨.number, "1"⟩, "\r")]) =
        Expr.compile "a >=1" := by
  obtain ⟨happend, hprinted, hrespaced⟩ := spaces_separate
  have hlegal : ∀ p ∈ [((⟨.text, "a b"⟩ : Lexeme), " "), (⟨.operator .less, "<"⟩, " "), (⟨.number, "25"⟩, "")],
      Legal p.1 ∧ Blank p.2 := by
    simp only [List.forall_mem_cons, List.not_mem_nil, false_imp_iff, implies_true, and_true]
    exact ⟨⟨⟨⟨"a b".toList, by decide, rfl⟩, nofun⟩, by decide⟩, ⟨⟨rfl, nofun⟩, by decide⟩,
      ⟨⟨⟨by decide, List.all_eq_true.mp rfl⟩, nofun⟩, by decide⟩⟩
  refine ⟨happend "x" "\n" "é" [⟨⟨.variable, "x"⟩, 0⟩] (by decide) (by decide) rfl,
    hprinted "\t" _ (by decide) hlegal (by simp), ?_⟩
  exact hrespaced "a >=1" " " [(⟨⟨.variable, "a"⟩, 0⟩, "\n\n"), (⟨⟨.operator .atLeast, ">="⟩, 2⟩, ""),
    (⟨⟨.number, "1"⟩, 4⟩, "\r")] rfl (by decide) (by decide) (by simp; rfl)

end Token

end Criterion
