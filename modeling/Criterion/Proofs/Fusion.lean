import Criterion.Proofs.Boundary
import Criterion.Proofs.Yield

/-! Where a text cannot be taken apart. A word runs on into the letters that follow it and takes in lexemes that
these would be by themselves, so the tree of the whole text has fewer nodes. -/
namespace Criterion

namespace Token

open Grammar

def weight (ls : List Lexeme) : Nat := ls.countP Lexeme.counts

section Weight

variable {l : Lexeme} {ls rs : List Lexeme}

theorem weight_append (ls rs : List Lexeme) : weight (ls ++ rs) = weight ls + weight rs := List.countP_append

theorem weight_cons (h : l.counts = true) : weight (l :: ls) = weight ls + 1 := List.countP_cons_of_pos h

theorem weight_cons_lt (l : Lexeme) {n : Nat} (h : weight ls < weight rs + n) :
    weight (l :: ls) < weight (l :: rs) + n := by
  simp only [weight, List.countP_cons] at h ⊢
  omega

/-- A tree has as many nodes as its text has lexemes that are no parentheses. -/
theorem weight_of_derives {n : Nonterminal} {e : Expr} (h : Derives n ls e) : weight ls = e.nodes := by
  rw [weight, List.countP_eq_length_filter, (stands_of_derives h).length_eq, Expr.length_items]

end Weight

section Ending

variable {c d : Char} {u v w : List Char}

/-- A name or a path that ends behind the text begins with a letter of it. -/
theorem finished_cons (hc : ¬ isLetter c = true) (h : Finished v) : Finished (c :: v) := by
  intro name hname
  match name, hname with
  | e :: es, ⟨he, hes⟩ =>
    have hne : e ≠ c := fun heq => hc (heq ▸ he)
    obtain ⟨hplain, hdot⟩ := h (e :: es) ⟨he, hes⟩
    simp only [List.suffix_cons_iff, List.cons_append, List.cons.injEq, hne, false_and, false_or]
    exact ⟨hplain, hdot⟩

theorem finished_append (hw : w.any isLetter = false) (h : Finished v) : Finished (w ++ v) := by
  induction w with
  | nil => exact h
  | cons c w ih =>
    obtain ⟨hc, hrest⟩ := Bool.or_eq_false_iff.mp hw
    exact finished_cons (by simp [hc]) (ih hrest)

/-- No name goes on over a character that belongs to none. -/
theorem finished_append_cons (hd : isWordChar d = false) (hdot : d ≠ '.') (h : Finished (d :: v)) (u : List Char) :
    Finished (u ++ d :: v) := by
  intro name hname
  have hword : ∀ e ∈ name, isWordChar e = true := isWordChar_of_segment hname
  have hnot : d ∉ name := fun hmem => by simp [hword d hmem] at hd
  have hshort {s : List Char} (hs : s <:+ u ++ d :: v) (hmem : d ∉ s) : s <:+ d :: v := by
    rcases List.suffix_or_suffix_of_suffix hs (List.suffix_append u (d :: v)) with hsuffix | hsuffix
    · exact hsuffix
    · exact absurd (hsuffix.subset (by simp)) hmem
  obtain ⟨hplain, hdotted⟩ := h name hname
  exact ⟨fun hs => hplain (hshort hs hnot), fun hs => hdotted (hshort hs (by simp [hnot, hdot]))⟩

/-- A lexeme that is no word ends no name. -/
theorem finished_lexeme {kind : Kind} (hc : ¬ isLetter c = true) (hkind : OfKind kind (c :: w)) (h : Finished v) :
    Finished (c :: w ++ v) := by
  cases kind with
  | operator op =>
    cases op with
    | and | or =>
      obtain ⟨rfl, -⟩ := List.cons.inj hkind
      exact absurd (by decide) hc
    | equal | unequal | less | atMost | greater | atLeast =>
      obtain ⟨rfl, rfl⟩ := List.cons.inj hkind
      exact finished_append (by rfl) h
  | leftParen | rightParen =>
    obtain ⟨rfl, rfl⟩ := List.cons.inj hkind
    exact finished_append (by rfl) h
  | «variable» =>
    obtain ⟨first, rest, heq, hs⟩ := hkind
    match first, hs first (by simp) with
    | d :: ds, ⟨hd, _⟩ =>
      rw [Text.intercalate_cons] at heq
      obtain ⟨rfl, -⟩ := List.cons.inj heq
      exact absurd hd hc
  | text =>
    obtain ⟨body, -, heq⟩ := hkind
    have hquote : Finished ('"' :: v) := finished_cons (by decide) h
    have hbody := finished_append_cons (by decide) (by decide) hquote ('"' :: body)
    rw [heq]
    simpa using hbody
  | number => exact finished_append (by simpa using fun d hd => isLetter_of_isDigit (hkind.2 d hd)) h
  | truth b =>
    cases b
    all_goals
      obtain ⟨rfl, -⟩ := List.cons.inj hkind
      exact absurd (by decide) hc
  | null =>
    obtain ⟨rfl, -⟩ := List.cons.inj hkind
    exact absurd (by decide) hc

end Ending

section Running

variable {c d : Char} {cs p x : List Char} {kind : Kind} {length : Nat} {later ls : List Lexeme}

theorem cut_unique {ls rs : List Lexeme} (hl : Cut cs ls) (hr : Cut cs rs) : ls = rs := by
  obtain ⟨tokens, hscan, rfl⟩ := hl 0
  obtain ⟨others, hscan', rfl⟩ := hr 0
  rw [Except.ok.inj (hscan.symm.trans hscan')]

/-- The path in front of a text is as long whatever follows it, and what follows may prolong it. -/
theorem pathTail_take_append (cs x : List Char) :
    pathTail (cs.take (pathTail cs) ++ x) = pathTail cs + pathTail x := by
  obtain ⟨segments, hsegments, htake⟩ := take_pathTail cs
  have hword : ∀ d ∈ cs.takeWhile isWordChar, isWordChar d = true := fun d hd => List.mem_takeWhile_imp hd
  have hlength : (cs.take (pathTail cs)).length = pathTail cs := List.length_take_of_le (pathTail_le cs)
  have happend := @pathTail_append (segments.flatMap ('.' :: ·) ++ x) _ hword
  rw [pathTail_segments hsegments, ← List.append_assoc, ← Nat.add_assoc, ← List.length_append, ← htake,
    hlength] at happend
  exact happend

theorem pathTail_drop_pathTail (cs : List Char) : pathTail (cs.drop (pathTail cs)) = 0 := by
  fun_induction pathTail cs with
  | case1 => rfl
  | case2 c cs hc ih => simpa using ih
  | case3 c cs hc => simp [pathTail, hc]
  | case4 c cs hdot hc ih => simpa using ih
  | case5 c cs hdot hc => rw [List.drop_zero, pathTail.eq_3 c cs hdot, if_neg hc]

theorem pathTail_drop_of_word (h : ∀ d ∈ cs.take length, isWordChar d = true) (hlength : length ≤ cs.length) :
    pathTail cs = length + pathTail (cs.drop length) := by
  have happend := @pathTail_append (cs.drop length) _ h
  rwa [List.take_append_drop, List.length_take_of_le hlength] at happend

theorem counts_of_keyword? (h : keyword? cs = some kind) (text : String) : Lexeme.counts ⟨kind, text⟩ = true := by
  unfold keyword? at h
  split at h <;> first | contradiction | (obtain rfl := Option.some.inj h; rfl)

/-- Where a path goes on, the lexemes of what it goes on over are no parentheses and end within the path. -/
theorem pathTail_of_scan? (hc : isWordChar c = true) (h : scan? (c :: cs) = some (kind, length)) :
    pathTail (c :: cs) = length + pathTail ((c :: cs).drop length) ∧
      ∀ text, Lexeme.counts ⟨kind, text⟩ = true := by
  by_cases hletter : isLetter c = true
  · rcases word_cases (word_of_scan? hletter h) with ⟨hkey, rfl⟩ | ⟨-, rfl, rfl⟩
    · refine ⟨pathTail_drop_of_word ?_ (scan?_length_le h), counts_of_keyword? hkey⟩
      rw [List.take_succ_cons, take_length_takeWhile]
      exact List.forall_mem_cons.mpr ⟨hc, fun d hd => List.mem_takeWhile_imp hd⟩
    · rw [List.drop_succ_cons, pathTail_drop_pathTail, pathTail_cons_of_word hc]
      exact ⟨rfl, fun _ => rfl⟩
  · have hdigit : c.isDigit = true := by
      simp only [isLetter, isWordChar, Char.isAlphanum, Bool.or_eq_true] at hletter hc
      tauto
    obtain ⟨rfl, rfl⟩ := Prod.mk.inj (Option.some.inj ((scan?_digit hdigit).symm.trans h))
    refine ⟨pathTail_drop_of_word ?_ (scan?_length_le h), fun _ => rfl⟩
    rw [List.take_succ_cons, take_length_takeWhile]
    exact List.forall_mem_cons.mpr ⟨hc, fun d hd => isWordChar_of_isDigit (List.mem_takeWhile_imp hd)⟩

/-- The rest of a path that a text begins with holds lexemes that the text would begin with by itself. -/
theorem exists_cut_drop_pathTail {x : List Char} {later : List Lexeme} (h : Cut x later) (hx : ¬ Ends x) :
    ∃ rest, Cut (x.drop (pathTail x)) rest ∧ weight rest < weight later := by
  match x with
  | [] => exact absurd ends_nil hx
  | c :: cs =>
    have hword : isWordChar c = true := by
      by_contra hword
      exact hx (ends_cons cs ⟨by simpa using hword, ne_dot_of_cut h⟩)
    obtain ⟨kind, length, rest, hscan, hrest, rfl⟩ := (cut_cons_iff (isSpace_of_isWordChar hword)).mp h
    obtain ⟨htail, hcounts⟩ := pathTail_of_scan? hword hscan
    have hpos : 0 < length := length_pos_of_scan? hscan
    rw [htail, ← List.drop_drop, weight_cons (hcounts _)]
    by_cases hends : Ends ((c :: cs).drop length)
    · rw [pathTail_of_ends hends, List.drop_zero]
      exact ⟨rest, hrest, Nat.lt_succ_self _⟩
    · obtain ⟨final, hfinal, hless⟩ := exists_cut_drop_pathTail hrest hends
      exact ⟨final, hfinal, hless.trans (Nat.lt_succ_self _)⟩
termination_by x.length

/-- A path that runs on takes in a lexeme of the text that follows. -/
theorem exists_cut_fused (hc : isLetter c = true) (hfull : pathTail p = p.length)
    (hkey : keyword? (c :: (p ++ x).takeWhile isWordChar) = none) (hx : ¬ Ends x) (h : Cut x later) :
    ∃ ls, Cut (c :: p ++ x) ls ∧ weight ls ≤ weight later := by
  obtain ⟨rest, hrest, hless⟩ := exists_cut_drop_pathTail h hx
  have htail : pathTail (p ++ x) = p.length + pathTail x := by simpa [hfull] using pathTail_take_append p x
  have hscan : scan? (c :: (p ++ x)) = some (.variable, p.length + pathTail x + 1) := by
    rw [scan?_letter hc, word]
    simp only [hkey, htail]
  have hspace : isSpace c = false := isSpace_of_isWordChar (isWordChar_of_isLetter hc)
  rw [List.cons_append]
  refine ⟨_, (cut_cons_iff hspace).mpr ⟨_, _, rest, hscan, ?_, rfl⟩, ?_⟩
  · rwa [List.drop_succ_cons, List.drop_length_add_append]
  · rw [weight_cons rfl]
    exact hless

/-- What a word makes with a letter that no keyword has behind its first is no keyword. -/
theorem keyword?_fused (hd : x.head? = some d) (hletter : isLetter d = true) (hkeys : ∀ k ∈ keywords, d ∉ k.tail)
    (h : (word c p).2 = p.length + 1) : keyword? (c :: (p ++ x).takeWhile isWordChar) = none := by
  obtain ⟨x, rfl⟩ := List.head?_eq_some_iff.mp hd
  rw [List.takeWhile_append]
  split
  · refine keyword?_eq_none_iff.mpr fun hmem => hkeys _ hmem ?_
    simp [isWordChar_of_isLetter hletter]
  · rename_i hpart
    cases hkey : keyword? (c :: p.takeWhile isWordChar) with
    | none => rfl
    | some kind =>
      rw [word, hkey] at h
      exact absurd (Nat.succ.inj h) hpart

/-- The first lexeme stays what it is, and so does what it does to names: only the rest can end with one. -/
structure Settled (c : Char) (p x : List Char) (length : Nat) : Prop where
  scan : scan? (c :: (p ++ x)) = scan? (c :: p)
  finished : Finished ((c :: p).drop length) → Finished (c :: p)

theorem settled_of_not_letter (hc : ¬ isLetter c = true) (hclosed : Even ((c :: p).count '"'))
    (hscan : scan? (c :: p) = some (kind, length)) (hd : x.head? = some d) (hletter : isLetter d = true) :
    Settled c p x length := by
  constructor
  · have hdigit : d.isDigit = false := by
      rw [← Bool.not_eq_true]
      intro hdigit
      simp [isLetter_of_isDigit hdigit] at hletter
    have hequal : d ≠ '=' := by
      rintro rfl
      contradiction
    rw [← List.cons_append, scan?_append_of_not_letter hc hclosed (by simp [hd, hdigit, hequal])]
  · intro h
    have hkind : OfKind kind ((c :: p).take length) := ofKind_of_scan? hscan
    obtain ⟨n, rfl⟩ := Nat.exists_eq_add_one.mpr (length_pos_of_scan? hscan)
    rw [← List.take_append_drop (n + 1) (c :: p)]
    exact finished_lexeme hc hkind h

/-- A word with something behind it does not run on. -/
theorem settled_of_drop (hc : isLetter c = true) (hscan : scan? (c :: p) = some (kind, length))
    (hback : Cut ((c :: p).drop length) later) (hne : (c :: p).drop length ≠ []) : Settled c p x length := by
  obtain ⟨e, rest, hdrop⟩ := List.exists_cons_of_ne_nil hne
  have hword : isWordChar e = false := head?_drop_word hc hscan e (by simp [hdrop])
  have hdot : e ≠ '.' := ne_dot_of_cut (hdrop ▸ hback)
  have hsplit : (c :: p).take length ++ (c :: p).drop length = c :: p := List.take_append_drop _ _
  constructor
  · obtain ⟨n, rfl⟩ := Nat.exists_eq_add_one.mpr (length_pos_of_scan? hscan)
    have hp : p = p.take n ++ e :: rest := by rw [← hdrop, List.drop_succ_cons, List.take_append_drop]
    have hends (rest : List Char) : Ends (e :: rest) := ends_cons rest ⟨hword, hdot⟩
    rw [scan?_letter hc, scan?_letter hc, hp, List.append_assoc, List.cons_append, word_append hc (.inl (hends _)),
      word_append hc (.inl (hends _))]
  · intro h
    rw [← hsplit]
    rw [hdrop] at h ⊢
    exact finished_append_cons hword hdot h _

/-- A word that is all there is runs on. -/
theorem exists_cut_of_whole (hc : isLetter c = true) (hscan : scan? (c :: p) = some (kind, length))
    (hdrop : (c :: p).drop length = []) (hd : x.head? = some d) (hletter : isLetter d = true)
    (hkeys : ∀ k ∈ keywords, d ∉ k.tail) (hlater : Cut x later) :
    ∃ ls, Cut (c :: p ++ x) ls ∧ weight ls ≤ weight later := by
  have hword : isWordChar c = true := isWordChar_of_isLetter hc
  obtain ⟨htail, -⟩ := pathTail_of_scan? hword hscan
  have hwhole : length = p.length + 1 := (scan?_length_le hscan).antisymm (List.drop_eq_nil_iff.mp hdrop)
  have hfull : pathTail p = p.length := by
    rw [hdrop, pathTail_cons_of_word hword, hwhole] at htail
    exact Nat.succ.inj htail
  have hlength : (word c p).2 = p.length + 1 := by
    rw [word_of_scan? hc hscan, hwhole]
  have hx : ¬ Ends x := fun h => by simpa [isWordChar_of_isLetter hletter] using (h d hd).1
  exact exists_cut_fused hc hfull (keyword?_fused hd hletter hkeys hlength) hx hlater

/-- What becomes of the rest becomes of the whole. -/
theorem Settled.exists_cut {n : Nat} {back : List Lexeme} (h : Settled c p x length)
    (hc : isSpace c = false) (hscan : scan? (c :: p) = some (kind, length))
    (hrest : ∃ ls, Cut ((c :: p).drop length ++ x) ls ∧ weight ls < weight back + n) :
    ∃ ls, Cut (c :: p ++ x) ls ∧
      weight ls < weight (⟨kind, String.ofList (content kind ((c :: p).take length))⟩ :: back) + n := by
  have hlength : length ≤ (c :: p).length := scan?_length_le hscan
  obtain ⟨ls, hls, hless⟩ := hrest
  rw [← List.drop_append_of_le_length hlength] at hls
  rw [List.cons_append]
  refine ⟨_, (cut_cons_iff hc).mpr ⟨kind, length, ls, h.scan.trans hscan, hls, rfl⟩, ?_⟩
  rw [← List.cons_append, List.take_append_of_le_length hlength]
  exact weight_cons_lt _ hless

/-- Where a name ends the text, what follows it takes the place of lexemes that it had by itself. -/
theorem exists_cut_of_not_finished {p x : List Char} {front later : List Lexeme} (hp : ¬ Finished p)
    (hclosed : Even (p.count '"')) (hfront : Cut p front) (hd : x.head? = some d) (hletter : isLetter d = true)
    (hkeys : ∀ k ∈ keywords, d ∉ k.tail) (hlater : Cut x later) :
    ∃ ls, Cut (p ++ x) ls ∧ weight ls < weight front + weight later := by
  match p with
  | [] => exact absurd finished_nil hp
  | c :: p =>
    cases hspace : isSpace c with
    | true =>
      have hc : ¬ isLetter c = true := fun hc => by
        simp [isSpace_of_isWordChar (isWordChar_of_isLetter hc)] at hspace
      rw [cut_space_iff hspace] at hfront
      simp only [List.cons_append, cut_space_iff hspace]
      exact exists_cut_of_not_finished (fun h => hp (finished_cons hc h)) (count_quote_of_space hspace ▸ hclosed) hfront hd
        hletter hkeys hlater
    | false =>
      obtain ⟨kind, length, back, hscan, hback, rfl⟩ := (cut_cons_iff hspace).mp hfront
      have hpos : 0 < length := length_pos_of_scan? hscan
      have hsettled (h : Settled c p x length) := h.exists_cut hspace hscan <|
        exists_cut_of_not_finished (fun hrest => hp (h.finished hrest)) (even_quotes_drop hclosed hscan) hback hd hletter
          hkeys hlater
      by_cases hc : isLetter c = true
      · by_cases hdrop : (c :: p).drop length = []
        · obtain ⟨ls, hls, hle⟩ := exists_cut_of_whole hc hscan hdrop hd hletter hkeys hlater
          refine ⟨ls, hls, ?_⟩
          rw [weight_cons ((pathTail_of_scan? (isWordChar_of_isLetter hc) hscan).2 _)]
          omega
        · exact hsettled (settled_of_drop hc hscan hback hdrop)
      · exact hsettled (settled_of_not_letter hc hclosed hscan hd hletter)
termination_by p.length

end Running

end Token

end Criterion
