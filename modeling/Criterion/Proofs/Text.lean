import Criterion.Text
import Mathlib.Data.List.TakeWhile
import Mathlib.Data.String.Basic

/-! Cutting and trimming. Cutting at a separator undoes joining with it, since no piece of a cut text holds the
separator, and trimming takes the white space at both ends and nothing else. The first bytes of a text are those of
its first characters. Digits are neither white space nor letters. -/
namespace Criterion.Text

/-- The pieces of a text that is cut at a separator. -/
def pieces (separator : Char) (text : String) : List String := (split separator text.toList).map String.ofList

section Digits

variable {c : Char}

theorem isWhite_of_isDigit (h : c.isDigit = true) : isWhite c = false := by
  have hrange : 48 ≤ c.toNat ∧ c.toNat ≤ 57 := Char.isDigit_iff_toNat.mp h
  simp only [isWhite, inRanges, whiteSpace, List.any_cons, List.any_nil, Bool.or_false,
    Bool.or_eq_false_iff, Bool.and_eq_false_iff, decide_eq_false_iff_not]
  omega

/-- The digits lie below all letters. -/
theorem isAlpha_of_isDigit (h : c.isDigit = true) : c.isAlpha = false := by
  have hnine : c.toNat ≤ 57 := (Char.isDigit_iff_toNat.mp h).2
  rw [← Bool.not_eq_true]
  intro halpha
  have hranges : (decide ('A'.val ≤ c.val ∧ c.val ≤ 'Z'.val) || (decide ('a'.val ≤ c.val) && decide (c.val ≤ 'z'.val))) =
      true := halpha
  simp only [Bool.or_eq_true, Bool.and_eq_true, decide_eq_true_eq, UInt32.le_iff_toNat_le,
    Char.toNat_val] at hranges
  have hbounds : 57 < 'A'.toNat ∧ 57 < 'a'.toNat := by decide
  rcases hranges with ⟨hupper, -⟩ | ⟨hlower, -⟩
  · omega
  · omega

end Digits

section Split

variable {separator : Char} {cs piece : List Char}

theorem split_eq_splitOn (separator : Char) (cs : List Char) : split separator cs = cs.splitOn separator := by
  induction cs with
  | nil => rfl
  | cons c cs ih =>
    rw [split, List.splitOn_cons_eq_if_modifyHead, ih]
    by_cases hc : c = separator
    · simp [hc]
    · obtain ⟨first, rest, hsplit⟩ := List.exists_cons_of_ne_nil (List.splitOn_ne_nil separator cs)
      rw [if_neg hc, if_neg (by simpa using hc), hsplit]
      rfl

theorem split_ne_nil : split separator cs ≠ [] := by
  rw [split_eq_splitOn]
  exact List.splitOn_ne_nil separator cs

theorem not_mem_of_mem_split (h : piece ∈ split separator cs) : separator ∉ piece := by
  induction cs generalizing piece with
  | nil =>
    obtain rfl := List.mem_singleton.mp h
    exact List.not_mem_nil
  | cons c cs ih =>
    rw [split] at h
    split at h
    · rcases List.mem_cons.mp h with rfl | h
      · exact List.not_mem_nil
      · exact ih h
    · rename_i hc
      split at h
      · obtain rfl := List.mem_singleton.mp h
        simpa using Ne.symm hc
      · rename_i first rest hsplit
        rcases List.mem_cons.mp h with rfl | h
        · have hfirst : separator ∉ first := ih (by simp [hsplit])
          simp [Ne.symm hc, hfirst]
        · exact ih (by simp [hsplit, h])

/-- A text without the separator ends at one place only. -/
theorem separated_unique {front front' back back' : List Char} (h : separator ∉ front) (h' : separator ∉ front')
    (heq : front ++ separator :: back = front' ++ separator :: back') : front = front' ∧ back = back' := by
  have hsplit := congrArg (List.splitOn separator) heq
  rw [List.splitOn_append_cons_self_of_not_mem h, List.splitOn_append_cons_self_of_not_mem h'] at hsplit
  obtain rfl : front = front' := (List.cons.inj hsplit).1
  exact ⟨rfl, (List.cons.inj (List.append_cancel_left heq)).2⟩

theorem intercalate_cons (separator : Char) (first : List Char) (rest : List (List Char)) :
    [separator].intercalate (first :: rest) = first ++ rest.flatMap (separator :: ·) := by
  induction rest generalizing first with
  | nil => simp
  | cons next rest ih => rw [List.intercalate_cons_cons, ih, List.flatMap_cons]; simp

/-- Nothing is in a piece that is not in the text. -/
theorem mem_of_mem_split {c : Char} (h : piece ∈ split separator cs) (hc : c ∈ piece) : c ∈ cs := by
  have hne : split separator cs ≠ [] := split_ne_nil
  obtain ⟨first, rest, hsplit⟩ := List.exists_cons_of_ne_nil hne
  have hjoined : first ++ rest.flatMap (separator :: ·) = cs := by
    rw [← intercalate_cons, ← hsplit, split_eq_splitOn, List.intercalate_splitOn]
  rw [← hjoined, List.mem_append, List.mem_flatMap]
  rcases List.mem_cons.mp (hsplit ▸ h) with rfl | hrest
  · exact .inl hc
  · exact .inr ⟨piece, hrest, List.mem_cons_of_mem _ hc⟩

end Split

section Pieces

variable {separator : Char}

theorem mem_pieces {text piece : String} :
    piece ∈ pieces separator text ↔ piece.toList ∈ split separator text.toList := by
  rw [pieces, List.mem_map]
  constructor
  · rintro ⟨cs, hcs, rfl⟩
    rwa [String.toList_ofList]
  · exact fun h => ⟨_, h, String.ofList_toList⟩

/-- Joined with the separator the pieces are the text again. -/
theorem intercalate_pieces (separator : Char) (text : String) :
    (String.singleton separator).intercalate (pieces separator text) = text := by
  rw [← String.toList_inj, String.toList_intercalate, String.toList_singleton, pieces, List.map_map]
  have hlists : String.toList ∘ String.ofList = id := funext fun cs => String.toList_ofList
  rw [hlists, List.map_id, split_eq_splitOn, List.intercalate_splitOn]

/-- Texts without the separator are the pieces of what they are joined to. -/
theorem pieces_intercalate {texts : List String} (hne : texts ≠ [])
    (h : ∀ text ∈ texts, separator ∉ text.toList) :
    pieces separator ((String.singleton separator).intercalate texts) = texts := by
  have hlists : ∀ cs ∈ texts.map String.toList, separator ∉ cs := by simpa using h
  have htexts : String.ofList ∘ String.toList = id := funext fun text => String.ofList_toList
  rw [pieces, String.toList_intercalate, String.toList_singleton, split_eq_splitOn,
    List.splitOn_intercalate separator hlists (by simpa using hne), List.map_map, htexts, List.map_id]

theorem pieces_append (separator : Char) (front back : String) :
    pieces separator (front ++ String.singleton separator ++ back) =
      pieces separator front ++ pieces separator back := by
  simp only [pieces, String.toList_append, String.toList_singleton, List.append_assoc, List.singleton_append,
    split_eq_splitOn, List.splitOn_append_cons_self, List.map_append]

end Pieces

section Trim

variable {before core after cs : List Char}

/-- What is trimmed off stands at the two ends and is white. -/
theorem exists_eq_append_trim (cs : List Char) :
    ∃ before after, cs = before ++ trim cs ++ after ∧ (∀ c ∈ before, isWhite c = true) ∧
      ∀ c ∈ after, isWhite c = true := by
  have hfront := List.takeWhile_append_dropWhile (p := isWhite) (l := cs)
  have hback := List.takeWhile_append_dropWhile (p := isWhite) (l := (cs.dropWhile isWhite).reverse)
  refine ⟨cs.takeWhile isWhite, ((cs.dropWhile isWhite).reverse.takeWhile isWhite).reverse, ?_, ?_, ?_⟩
  · rw [trim, List.append_assoc, ← List.reverse_append, hback, List.reverse_reverse, hfront]
  · intro c hc
    exact List.mem_takeWhile_imp hc
  · intro c hc
    exact List.mem_takeWhile_imp (List.mem_reverse.mp hc)

/-- A text without white space is what is left of it between white spaces. -/
theorem trim_append (hbefore : ∀ c ∈ before, isWhite c = true) (hcore : ∀ c ∈ core, isWhite c = false)
    (hafter : ∀ c ∈ after, isWhite c = true) : trim (before ++ core ++ after) = core := by
  have hkeep {text : List Char} (h : ∀ c ∈ text, isWhite c = false) : text.dropWhile isWhite = text := by
    cases text with
    | nil => rfl
    | cons c cs => simp [h c (by simp)]
  rw [trim, List.append_assoc, List.dropWhile_append_of_pos hbefore]
  cases core with
  | nil =>
    have hnothing : after.dropWhile isWhite = [] := List.dropWhile_eq_nil_iff.mpr hafter
    simp [hnothing]
  | cons c cs =>
    rw [List.cons_append, List.dropWhile_cons_of_neg (by simp [hcore c (by simp)]), ← List.cons_append,
      List.reverse_append, List.dropWhile_append_of_pos fun d hd => hafter d (List.mem_reverse.mp hd),
      hkeep fun d hd => hcore d (List.mem_reverse.mp hd), List.reverse_reverse]

end Trim

section Bytes

variable {n : Nat} {cs front rest : List Char}

theorem dropBytes?_eq_some (h : dropBytes? n cs = some rest) :
    ∃ front, cs = front ++ rest ∧ String.utf8Len front = n := by
  induction cs generalizing n with
  | nil =>
    cases n with
    | zero => exact ⟨[], Option.some.inj h, rfl⟩
    | succ n => contradiction
  | cons c cs ih =>
    cases n with
    | zero => exact ⟨[], Option.some.inj h, rfl⟩
    | succ n =>
      rw [dropBytes?] at h
      split at h
      · rename_i hfits
        obtain ⟨front, rfl, hbytes⟩ := ih h
        refine ⟨c :: front, rfl, ?_⟩
        rw [String.utf8Len_cons, hbytes]
        omega
      · contradiction

/-- What is taken stands in front, and it has so many bytes. -/
theorem takeBytes?_eq_some (h : takeBytes? n cs = some front) : ∃ rest, cs = front ++ rest ∧ String.utf8Len front = n := by
  obtain ⟨rest, hdrop, htake⟩ := Option.map_eq_some_iff.mp h
  obtain ⟨before, rfl, hbytes⟩ := dropBytes?_eq_some hdrop
  obtain rfl : before = front := by simpa using htake
  exact ⟨rest, rfl, hbytes⟩

end Bytes

end Criterion.Text
