import Criterion.Registry
import Criterion.Proofs.Failure

/-! The C spellings. After both are replaced neither is left, so respelling what has been respelled changes
nothing. What compiles is the respelled text, and it is kept if it is within the limit. -/
namespace Criterion.Registry

variable {c d : Char} {word cs : List Char}

/-- Two of the character stand side by side. -/
def Doubled (c : Char) (cs : List Char) : Prop := [c, c] <:+: cs

theorem not_doubled_nil : ¬ Doubled c [] := by simp [Doubled]

theorem doubled_cons (a : Char) (cs : List Char) :
    Doubled c (a :: cs) ↔ (a = c ∧ cs.head? = some c) ∨ Doubled c cs := by
  rw [Doubled, Doubled, List.infix_cons_iff, List.cons_prefix_cons]
  cases cs with
  | nil => simp
  | cons b cs => simp [eq_comm]

theorem mem_of_doubled (h : Doubled c cs) : c ∈ cs := h.subset (by simp)

theorem doubled_append_of_not_mem (h : c ∉ word) : Doubled c (word ++ cs) ↔ Doubled c cs := by
  induction word with
  | nil => rfl
  | cons a word ih =>
    have ha : a ≠ c := fun ha => h (by simp [ha])
    rw [List.cons_append, doubled_cons, ih fun hmem => h (List.mem_cons_of_mem a hmem)]
    simp [ha]

theorem replaceDouble_of_not_doubled (h : ¬ Doubled c cs) : replaceDouble c word cs = cs := by
  fun_induction replaceDouble c word cs with
  | case1 a b cs hab ih =>
    obtain ⟨rfl, rfl⟩ := hab
    exact absurd ((doubled_cons _ _).mpr (.inl ⟨rfl, rfl⟩)) h
  | case2 a b cs hab ih => rw [ih fun hmore => h ((doubled_cons a _).mpr (.inr hmore))]
  | case3 cs => rfl

theorem replaceDouble_cons {a : Char} (h : ¬ (a = c ∧ cs.head? = some c)) :
    replaceDouble c word (a :: cs) = a :: replaceDouble c word cs := by
  cases cs with
  | nil => rfl
  | cons b cs => rw [replaceDouble, if_neg (by simpa using h)]

theorem replaceDouble_append {p : List Char} (h : c ∉ p) : replaceDouble c word (p ++ cs) = p ++ replaceDouble c word cs := by
  induction p with
  | nil => rfl
  | cons a p ih =>
    have ha : a ≠ c := fun heq => h (by simp [heq])
    have hrest : c ∉ p := fun hmem => h (by simp [hmem])
    rw [List.cons_append, replaceDouble_cons fun hboth => ha hboth.1, ih hrest, List.cons_append]

/-- What comes first is what came first, or the word. -/
theorem head?_replaceDouble (b : Char) (cs : List Char) (hne : word ≠ []) :
    (replaceDouble c word (b :: cs)).head? = some b ∨ (replaceDouble c word (b :: cs)).head? = word.head? := by
  cases cs with
  | nil => exact .inl rfl
  | cons a cs =>
    rw [replaceDouble]
    split
    · obtain ⟨w, ws, rfl⟩ := List.exists_cons_of_ne_nil hne
      exact .inr rfl
    · exact .inl rfl

/-- What is replaced puts nothing in front that was not there, but for its word. -/
theorem head?_replaceDouble_ne (hne : word ≠ []) (hd : d ∉ word) (h : cs.head? ≠ some d) :
    (replaceDouble c word cs).head? ≠ some d := by
  cases cs with
  | nil => exact h
  | cons b cs =>
    intro hhead
    rcases head?_replaceDouble b cs hne with hfirst | hword
    · exact h (hfirst.symm.trans hhead)
    · exact hd (List.mem_of_mem_head? (hword.symm.trans hhead))

/-- Replacing what is doubled leaves nothing of it doubled, and doubles nothing else that the word is without. -/
theorem not_doubled_replaceDouble (hd : d ∉ word) (hne : word ≠ []) (h : d = c ∨ ¬ Doubled d cs) :
    ¬ Doubled d (replaceDouble c word cs) := by
  fun_induction replaceDouble c word cs with
  | case1 a b cs hab ih =>
    rw [doubled_append_of_not_mem hd]
    refine ih (h.imp_right fun hcs hmore => hcs ?_)
    exact (doubled_cons a _).mpr (.inr ((doubled_cons b _).mpr (.inr hmore)))
  | case2 a b cs hab ih =>
    rw [doubled_cons]
    rintro (⟨rfl, hhead⟩ | hmore)
    · have hb : b ≠ a := by
        rintro rfl
        rcases h with rfl | hcs
        · exact hab ⟨rfl, rfl⟩
        · exact hcs ((doubled_cons _ _).mpr (.inl ⟨rfl, rfl⟩))
      exact head?_replaceDouble_ne hne hd (by simpa using hb) hhead
    · exact ih (h.imp_right fun hcs hmore => hcs ((doubled_cons a _).mpr (.inr hmore))) hmore
  | case3 cs hshort =>
    cases cs with
    | nil => exact not_doubled_nil
    | cons a cs =>
      cases cs with
      | nil => simp [doubled_cons, not_doubled_nil]
      | cons b cs => exact absurd rfl (hshort a b cs)

/-- Of neither sign is anything left, whatever words without signs take their places. -/
theorem not_doubled_replaced {first second : List Char} (hfirst : '&' ∉ first ∧ first ≠ [])
    (hsecond : '&' ∉ second ∧ '|' ∉ second ∧ second ≠ []) (cs : List Char) :
    ¬ Doubled '&' (replaceDouble '|' second (replaceDouble '&' first cs)) ∧
      ¬ Doubled '|' (replaceDouble '|' second (replaceDouble '&' first cs)) := by
  obtain ⟨hand, hor, hne⟩ := hsecond
  constructor
  · have hinner := @not_doubled_replaceDouble '&' '&' first cs hfirst.1 hfirst.2 (.inl rfl)
    exact not_doubled_replaceDouble hand hne (.inr hinner)
  · exact not_doubled_replaceDouble hor hne (.inl rfl)

theorem not_doubled_respell (cs : List Char) : ¬ Doubled '&' (respell cs) ∧ ¬ Doubled '|' (respell cs) :=
  not_doubled_replaced (by decide) (by decide) cs

theorem respell_of_not_doubled (hand : ¬ Doubled '&' cs) (hor : ¬ Doubled '|' cs) : respell cs = cs := by
  rw [respell, replaceDouble_of_not_doubled hand, replaceDouble_of_not_doubled hor]

theorem respell_respell (cs : List Char) : respell (respell cs) = respell cs :=
  respell_of_not_doubled (not_doubled_respell cs).1 (not_doubled_respell cs).2

theorem preprocess_eq_ok_iff {text expression : String} {limit : Nat} :
    preprocess text limit = .ok expression ↔
      expression.toList = respell text.toList ∧ expression.length ≤ limit := by
  unfold preprocess
  dsimp only
  split
  · rename_i hlong
    refine ⟨nofun, fun ⟨hrespelled, hshort⟩ => ?_⟩
    rw [← hrespelled, String.length_toList] at hlong
    omega
  · rename_i hshort
    constructor
    · intro h
      obtain rfl := Except.ok.inj h
      exact ⟨String.toList_ofList, by simpa using hshort⟩
    · rintro ⟨hrespelled, -⟩
      rw [← hrespelled, String.ofList_toList]

/-- Compiling keeps the respelled text, if it is short enough, with its tree and the text of the tree. -/
theorem compileWithin_eq_ok_iff {text : String} {limit : Nat} {c : Compiled} :
    compileWithin limit text = .ok c ↔
      c.expression.toList = respell text.toList ∧ c.expression.length ≤ limit ∧
        Expr.compile c.expression = .ok c.tree ∧ c.encoded = c.tree.encode := by
  rw [compileWithin, bind_eq_ok_iff]
  constructor
  · rintro ⟨expression, hexpression, hc⟩
    obtain ⟨hrespelled, hshort⟩ := preprocess_eq_ok_iff.mp hexpression
    split at hc
    · contradiction
    · rename_i tree htree
      obtain rfl := Except.ok.inj hc
      exact ⟨hrespelled, hshort, htree, rfl⟩
  · obtain ⟨expression, tree, encoded⟩ := c
    rintro ⟨hrespelled, hshort, htree, hencoded⟩
    obtain rfl : encoded = tree.encode := hencoded
    refine ⟨expression, preprocess_eq_ok_iff.mpr ⟨hrespelled, hshort⟩, ?_⟩
    rw [htree]

theorem preprocess_of_compileWithin {text : String} {limit : Nat} {c : Compiled} (h : compileWithin limit text = .ok c) :
    preprocess text limit = .ok c.expression := by
  obtain ⟨hrespelled, hshort, -, -⟩ := compileWithin_eq_ok_iff.mp h
  exact preprocess_eq_ok_iff.mpr ⟨hrespelled, hshort⟩

end Criterion.Registry
