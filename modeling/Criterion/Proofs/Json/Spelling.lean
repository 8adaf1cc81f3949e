import Criterion.Proofs.Json.Depth
import Criterion.Proofs.Json.Writing

/-! What is read is what the text spells. Every state of the reader keeps, in its open containers, the lexemes that have
led to it, so that a value that is done has been spelled in full. A text is therefore read as a value exactly if it
begins with the lexemes of this value, and a limit on the nesting refuses the values that nest deeper and no others. -/
namespace Criterion.Json

section Lengths

variable {c : Char} {cs tail s : List Char} {n : Nat}

/-- A scan that has taken `k` characters and goes on behind them. -/
theorem length_of_rest {k : Nat} (htail : tail.length + k = cs.length)
    (ih : ∀ {s n}, scanString tail = some (s, n) → 0 < n ∧ n ≤ tail.length)
    (h : ((scanString tail).map fun (s, n) => (c :: s, n + k)) = some (s, n)) : 0 < n ∧ n ≤ cs.length := by
  obtain ⟨⟨s', n'⟩, hscan, heq⟩ := Option.map_eq_some_iff.mp h
  obtain ⟨-, rfl⟩ := Prod.mk.inj heq
  have := ih hscan
  omega

theorem length_of_scanString (h : scanString cs = some (s, n)) : 0 < n ∧ n ≤ cs.length := by
  fun_induction scanString cs generalizing s n with
  | case1 | case3 | case4 | case6 | case7 | case8 | case10 | case12 => contradiction
  | case2 =>
    obtain ⟨-, rfl⟩ := Prod.mk.inj (Option.some.inj h)
    simp
  | case5 _ _ _ _ _ _ _ _ _ _ _ _ _ _ _ ih | case9 _ _ _ _ _ _ _ _ _ ih | case11 _ _ _ _ _ ih
  | case13 _ _ _ _ _ _ ih => exact length_of_rest (by simp) ih h

theorem length_digitRun_le (cs : List Char) : (Numeral.digitRun cs).length ≤ cs.length :=
  (List.takeWhile_prefix _).length_le

theorem length_fraction_le (cs : List Char) : (Numeral.fraction cs).2 ≤ cs.length := by
  rcases Numeral.fraction_cases cs with ⟨tail, rfl, hpart⟩ | hpart
  · rw [hpart]
    exact Nat.succ_le_succ (length_digitRun_le tail)
  · simp [hpart]

/-- The digits of an exponent and the `k` characters in front of them. -/
theorem length_of_digits {k : Nat} {value exponent : Int} (htail : tail.length + k = cs.length)
    (h : (if (Numeral.digitRun tail).isEmpty then none else some (value, (Numeral.digitRun tail).length + k)) =
      some (exponent, n)) : n ≤ cs.length := by
  split at h
  · contradiction
  · obtain ⟨-, rfl⟩ := Prod.mk.inj (Option.some.inj h)
    have := length_digitRun_le tail
    omega

theorem length_of_exponent? {exponent : Int} (h : Numeral.exponent? cs = some (exponent, n)) : n ≤ cs.length := by
  unfold Numeral.exponent? at h
  split at h
  · split at h
    · split at h
      · exact length_of_digits (by simp) h
      · exact length_of_digits (by simp) h
      · exact length_of_digits (by simp) h
    · obtain ⟨-, rfl⟩ := Prod.mk.inj (Option.some.inj h)
      exact Nat.zero_le _
  · obtain ⟨-, rfl⟩ := Prod.mk.inj (Option.some.inj h)
    exact Nat.zero_le _

/-- What a number takes: its digits, a fraction and an exponent. -/
theorem taken_of_scanUnsigned {negative : Bool} {x : Number} (h : scanUnsigned negative cs = some (x, n)) :
    ∃ part length exponent taken, Numeral.digitRun cs ≠ [] ∧
      Numeral.fraction (cs.drop (Numeral.digitRun cs).length) = (part, length) ∧
      Numeral.exponent? (cs.drop ((Numeral.digitRun cs).length + length)) = some (exponent, taken) ∧
      (Numeral.digitRun cs).length + length + taken = n := by
  unfold scanUnsigned at h
  dsimp -zeta only at h
  extract_lets whole at h
  split at h
  · contradiction
  · rename_i hguard
    have hne : whole ≠ [] := by
      rintro hnil
      simp [hnil] at hguard
    split at h
    · contradiction
    · rename_i exponent taken hexponent
      extract_lets found at h
      split at h
      · obtain ⟨-, htaken⟩ := Prod.mk.inj (Option.some.inj h)
        exact ⟨_, _, exponent, taken, hne, rfl, hexponent, htaken⟩
      · contradiction

theorem length_of_scanUnsigned {negative : Bool} {x : Number} (h : scanUnsigned negative cs = some (x, n)) :
    0 < n ∧ n ≤ cs.length := by
  obtain ⟨part, length, exponent, taken, hne, hpart, hexponent, htaken⟩ := taken_of_scanUnsigned h
  have hpos := List.length_pos_iff.mpr hne
  have hwhole := length_digitRun_le cs
  have hfraction := length_fraction_le (cs.drop (Numeral.digitRun cs).length)
  have hrest := length_of_exponent? hexponent
  rw [hpart] at hfraction
  simp only [List.length_drop] at hfraction hrest
  omega

theorem length_of_scanNumber {x : Number} (h : scanNumber cs = some (x, n)) : 0 < n ∧ n ≤ cs.length := by
  unfold scanNumber at h
  split at h
  · obtain ⟨⟨y, k⟩, hscan, heq⟩ := Option.map_eq_some_iff.mp h
    obtain ⟨-, rfl⟩ := Prod.mk.inj heq
    have := length_of_scanUnsigned hscan
    simp only [List.length_cons]
    omega
  · exact length_of_scanUnsigned h

/-- A lexeme takes at least one character, and no more than there are. -/
theorem length_of_scan? {l : Lexeme} (h : scan? cs = some (l, n)) : 0 < n ∧ n ≤ cs.length := by
  unfold scan? at h
  split at h
  -- All lexemes but strings and numbers are known by their first characters.
  all_goals try (obtain ⟨-, rfl⟩ := Prod.mk.inj (Option.some.inj h); simp)
  · obtain ⟨⟨s, k⟩, hscan, heq⟩ := Option.map_eq_some_iff.mp h
    obtain ⟨-, rfl⟩ := Prod.mk.inj heq
    have := length_of_scanString hscan
    simp only [List.length_cons]
    omega
  · obtain ⟨⟨x, k⟩, hscan, heq⟩ := Option.map_eq_some_iff.mp h
    obtain ⟨-, rfl⟩ := Prod.mk.inj heq
    exact length_of_scanNumber hscan

end Lengths

section History

/-- The items of an open array, latest first, each with its comma. -/
def itemsAhead (before : List Json) : List Lexeme := before.reverse.flatMap fun v => lexemes v ++ [.comma]

def membersAhead (before : List (String × Json)) : List Lexeme :=
  before.reverse.flatMap fun m => .string m.1 :: .colon :: (lexemes m.2 ++ [.comma])

/-- The lexemes that have opened these containers and stand in front of what is read inside. -/
def opened : List Frame → List Lexeme
  | [] => []
  | .item before :: frames => opened frames ++ .leftBracket :: itemsAhead before
  | .member before key :: frames => opened frames ++ .leftBrace :: (membersAhead before ++ [.string key, .colon])

/-- The lexemes that lead to a state. -/
def State.history : State → List Lexeme
  | .value frames => opened frames
  | .firstItem frames => opened frames ++ [.leftBracket]
  | .firstKey frames => opened frames ++ [.leftBrace]
  | .key before frames => opened frames ++ .leftBrace :: membersAhead before
  | .colon before name frames => opened frames ++ .leftBrace :: (membersAhead before ++ [.string name])
  | .afterItem items frames => opened frames ++ .leftBracket :: itemLexemes items.reverse
  | .afterMember members frames => opened frames ++ .leftBrace :: memberLexemes members.reverse

def Progress.history : Progress → List Lexeme
  | .more s => s.history
  | .done v => lexemes v

/-- After an item or a member there is one. -/
def State.Filled : State → Prop
  | .afterItem items _ => items ≠ []
  | .afterMember members _ => members ≠ []
  | _ => True

def Progress.Filled : Progress → Prop
  | .more s => s.Filled
  | .done _ => True

variable {limit : Option Nat} {frames : List Frame} {s : State} {l : Lexeme} {p : Progress} {v : Json}

theorem itemLexemes_append (items : List Json) (v : Json) :
    itemLexemes (items ++ [v]) = (items.flatMap fun w => lexemes w ++ [.comma]) ++ lexemes v := by
  induction items with
  | nil => rfl
  | cons w ws ih =>
    obtain ⟨x, xs, hxs⟩ := List.exists_cons_of_ne_nil (List.append_ne_nil_of_right_ne_nil ws (List.cons_ne_nil v []))
    rw [hxs] at ih
    rw [List.cons_append, hxs, itemLexemes, ih]
    simp

theorem memberLexemes_append (members : List (String × Json)) (key : String) (v : Json) :
    memberLexemes (members ++ [(key, v)]) =
      (members.flatMap fun m => .string m.1 :: .colon :: (lexemes m.2 ++ [.comma])) ++
        .string key :: .colon :: lexemes v := by
  induction members with
  | nil => rfl
  | cons m ms ih =>
    obtain ⟨k, w⟩ := m
    obtain ⟨x, xs, hxs⟩ :=
      List.exists_cons_of_ne_nil (List.append_ne_nil_of_right_ne_nil ms (List.cons_ne_nil (key, v) []))
    rw [hxs] at ih
    rw [List.cons_append, hxs, memberLexemes, ih]
    simp

/-- A value that is complete has been spelled behind the containers that are open. -/
theorem history_complete (v : Json) (frames : List Frame) :
    (complete v frames).history = opened frames ++ lexemes v ∧ (complete v frames).Filled := by
  match frames with
  | [] => exact ⟨rfl, trivial⟩
  | .item before :: rest =>
    refine ⟨?_, List.cons_ne_nil _ _⟩
    simp [complete, Progress.history, State.history, opened, itemsAhead, itemLexemes_append]
  | .member before key :: rest =>
    refine ⟨?_, List.cons_ne_nil _ _⟩
    simp [complete, Progress.history, State.history, opened, membersAhead, memberLexemes_append]

theorem history_beginValue (h : beginValue limit frames l = some p) : p.history = opened frames ++ [l] ∧ p.Filled := by
  cases l with
  | null | bool _ | number _ | string _ =>
    obtain rfl := Option.some.inj h
    exact history_complete _ frames
  | leftBracket | leftBrace =>
    rw [beginValue] at h
    split at h
    · obtain rfl := Option.some.inj h
      exact ⟨rfl, trivial⟩
    · contradiction
  | _ => contradiction

theorem itemsAhead_of_ne_nil {items : List Json} (hne : items ≠ []) :
    itemsAhead items = itemLexemes items.reverse ++ [.comma] := by
  obtain ⟨v, before, rfl⟩ := List.exists_cons_of_ne_nil hne
  simp [itemsAhead, itemLexemes_append]

theorem membersAhead_of_ne_nil {members : List (String × Json)} (hne : members ≠ []) :
    membersAhead members = memberLexemes members.reverse ++ [.comma] := by
  obtain ⟨⟨key, v⟩, before, rfl⟩ := List.exists_cons_of_ne_nil hne
  simp [membersAhead, memberLexemes_append]

/-- Every step adds its lexeme to those that have led to the state. -/
theorem history_step (hs : s.Filled) (h : step limit s l = some p) : p.history = s.history ++ [l] ∧ p.Filled := by
  unfold step at h
  split at h
  · exact history_beginValue h
  · obtain rfl := Option.some.inj h
    simpa [State.history, lexemes, itemLexemes] using history_complete (.array []) _
  · simpa [State.history, opened, itemsAhead] using history_beginValue h
  · obtain rfl := Option.some.inj h
    simpa [State.history, lexemes, memberLexemes] using history_complete (.object []) _
  · obtain rfl := Option.some.inj h
    simp [Progress.history, State.history, membersAhead, Progress.Filled, State.Filled]
  · obtain rfl := Option.some.inj h
    simp [Progress.history, State.history, Progress.Filled, State.Filled]
  · obtain rfl := Option.some.inj h
    simp [Progress.history, State.history, opened, Progress.Filled, State.Filled]
  · obtain rfl := Option.some.inj h
    simp [Progress.history, State.history, opened, itemsAhead_of_ne_nil hs, Progress.Filled, State.Filled]
  · obtain rfl := Option.some.inj h
    simpa [State.history, lexemes] using history_complete (.array _) _
  · obtain rfl := Option.some.inj h
    simp [Progress.history, State.history, membersAhead_of_ne_nil hs, Progress.Filled, State.Filled]
  · obtain rfl := Option.some.inj h
    simpa [State.history, lexemes] using history_complete (.object _) _
  · contradiction

end History

section Reading

variable {limit : Option Nat} {s : State} {v : Json} {text rest : List Char}

/-- A lexeme that has been scanned stands in front of what follows it. -/
theorem Spells.scanned {c : Char} {cs : List Char} {l : Lexeme} {ls : List Lexeme} {length : Nat}
    (hc : isBlank c = false) (hscan : scan? (c :: cs) = some (l, length))
    (htail : Spells (cs.drop (length - 1)) ls rest) : Spells (c :: cs) (l :: ls) rest := by
  obtain ⟨hpos, hlength⟩ := length_of_scan? hscan
  have htake : (cs.take (length - 1)).length + 1 = length := by
    rw [List.length_take]
    rw [List.length_cons] at hlength
    omega
  have hfront : scan? (c :: cs.take (length - 1) ++ cs.drop (length - 1)) =
      some (l, (cs.take (length - 1)).length + 1) := by
    rw [List.cons_append, List.take_append_drop, htake]
    exact hscan
  have hspells := Spells.cons (List.forall_mem_nil _) hc hfront htail
  rwa [List.nil_append, List.cons_append, List.take_append_drop] at hspells

/-- What has been read is spelled by the text, and the lexemes drive the reader to the value that they spell. -/
theorem spells_of_readFrom {skip : Nat} (hs : s.Filled) (h : readFrom limit s skip text = some (v, rest)) :
    ∃ ls, Spells (text.drop skip) ls rest ∧ feed limit (.more s) ls = some (.done v) ∧
      lexemes v = s.history ++ ls := by
  induction text generalizing s skip with
  | nil => cases skip <;> contradiction
  | cons c cs ih =>
    cases skip with
    | succ skip => exact ih hs h
    | zero =>
      rw [readFrom] at h
      split at h
      · rename_i hblank
        obtain ⟨ls, hspells, hfeed, hhistory⟩ := ih hs h
        have hne : ls ≠ [] := by
          rintro rfl
          simp [feed] at hfeed
        exact ⟨ls, .blank (List.forall_mem_singleton.mpr hblank) hne hspells, hfeed, hhistory⟩
      · rename_i hblank
        have hc : isBlank c = false := by simpa using hblank
        split at h
        · contradiction
        · rename_i l length hscan
          split at h
          · contradiction
          · rename_i next hstep
            obtain ⟨hhistory, hfilled⟩ := history_step hs hstep
            obtain ⟨ls, hspells, hfeed, hv⟩ := ih hfilled h
            refine ⟨l :: ls, .scanned hc hscan hspells, (feed_cons hstep ls).trans hfeed, ?_⟩
            rw [hv, show next.history = _ from hhistory, List.append_assoc, List.singleton_append]
          · rename_i w hstep
            obtain ⟨hhistory, -⟩ := history_step hs hstep
            obtain ⟨rfl, rfl⟩ := Prod.mk.inj (Option.some.inj h)
            obtain ⟨n, rfl⟩ := Nat.exists_eq_succ_of_ne_zero (length_of_scan? hscan).1.ne'
            exact ⟨[l], .scanned hc hscan (.nil _), feed_cons hstep [], hhistory⟩

/-- A value is read exactly if the text begins with its lexemes and it fits the limit. -/
theorem readFirst_eq_some_iff {text : String} :
    readFirst limit text = some (v, rest) ↔
      Spells text.toList (lexemes v) rest ∧ ∀ most ∈ limit, nesting v ≤ most := by
  constructor
  · intro h
    obtain ⟨ls, hspells, hfeed, hv⟩ := spells_of_readFrom (by trivial) h
    obtain rfl : lexemes v = ls := hv
    refine ⟨hspells, ?_⟩
    rintro most rfl
    apply Nat.le_of_not_lt
    intro hdeep
    have hrefused := feed_lexemes_of_deep v [] [] (Nat.zero_le most) (by simpa using hdeep)
    rw [List.append_nil, hfeed] at hrefused
    contradiction
  · rintro ⟨hspells, hfits⟩
    have hroom : Room limit [] (nesting v) := fun most hmost => by simpa using hfits most hmost
    have hfeed := feed_lexemes v [] [] hroom
    rw [List.append_nil] at hfeed
    exact readFrom_of_spells hspells hfeed

/-- A limit on the nesting refuses the values that nest deeper and no others. -/
theorem readFirst_limited_iff {most : Nat} {text : String} :
    readFirst (some most) text = some (v, rest) ↔ readFirst none text = some (v, rest) ∧ nesting v ≤ most := by
  rw [readFirst_eq_some_iff, readFirst_eq_some_iff]
  simp

theorem read?_eq_some_iff {text : String} :
    read? limit text = some v ↔ ∃ rest, readFirst limit text = some (v, rest) ∧ rest.all isBlank = true := by
  constructor
  · intro h
    rw [read?] at h
    split at h
    · rename_i w rest hread
      split at h
      · rename_i hblank
        obtain rfl := Option.some.inj h
        exact ⟨rest, hread, hblank⟩
      · contradiction
    · contradiction
  · rintro ⟨rest, hread, hblank⟩
    rw [read?, hread]
    exact if_pos hblank

theorem read?_limited {most : Nat} {text : String} (h : read? none text = some v) :
    read? (some most) text = if nesting v ≤ most then some v else none := by
  obtain ⟨rest, hread, hblank⟩ := read?_eq_some_iff.mp h
  split
  · rename_i hfits
    exact read?_eq_some_iff.mpr ⟨rest, readFirst_limited_iff.mpr ⟨hread, hfits⟩, hblank⟩
  · rename_i hdeep
    rw [Option.eq_none_iff_forall_ne_some]
    intro w hw
    obtain ⟨other, hother, -⟩ := read?_eq_some_iff.mp hw
    obtain ⟨hagain, hfits⟩ := readFirst_limited_iff.mp hother
    obtain ⟨rfl, -⟩ := Prod.mk.inj (Option.some.inj (hread.symm.trans hagain))
    exact hdeep hfits

theorem read?_compact_limited {most : Nat} (hw : Whole v) :
    read? (some most) v.compact = if nesting v ≤ most then some v else none :=
  read?_limited (read?_compact hw (room_none _ _))

end Reading

end Criterion.Json
