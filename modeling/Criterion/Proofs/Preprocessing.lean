import Criterion.Proofs.Respelling
import Mathlib.Data.List.Induction

/-! What becomes of a text before it is compiled. Each `&&` makes it one character longer and `||` leaves its
length as it is, the order in which the two are replaced does not matter, and the limit is put to the length
that results. -/
namespace Criterion.Registry

variable {c d : Char} {word other cs : List Char}

/-- How many times two of the character stand side by side, counted from left to right and without overlap. -/
def pairs (c : Char) : List Char → Nat
  | a :: b :: cs => if a = c ∧ b = c then pairs c cs + 1 else pairs c (b :: cs)
  | _ => 0

/-- Each pair makes room for the word. -/
theorem length_replaceDouble (c : Char) (word cs : List Char) :
    (replaceDouble c word cs).length + 2 * pairs c cs = cs.length + word.length * pairs c cs := by
  fun_induction replaceDouble c word cs with
  | case1 a b cs hab ih =>
    rw [pairs, if_pos hab]
    simp only [List.length_append, List.length_cons, Nat.mul_add]
    omega
  | case2 a b cs hab ih =>
    rw [pairs, if_neg hab, List.length_cons, List.length_cons]
    omega
  | case3 cs hshort =>
    have hnone : pairs c cs = 0 := pairs.eq_2 c cs hshort
    rw [hnone, Nat.mul_zero, Nat.mul_zero]

theorem length_respell (cs : List Char) : (respell cs).length = cs.length + pairs '&' cs := by
  have hand := length_replaceDouble '&' ['A', 'N', 'D'] cs
  have hor := length_replaceDouble '|' ['O', 'R'] (replaceDouble '&' ['A', 'N', 'D'] cs)
  simp only [List.length_cons, List.length_nil] at hand hor
  rw [respell]
  omega

/-- Two characters are replaced in either order, if the word of the one is without the other. -/
theorem replaceDouble_comm (hcd : c ≠ d) (hword : d ∉ word) (hother : c ∉ other) (hne : word ≠ []) (hne' : other ≠ [])
    (cs : List Char) :
    replaceDouble d other (replaceDouble c word cs) = replaceDouble c word (replaceDouble d other cs) := by
  -- A pair of either character is passed at once, so the recursion may go on two characters further.
  induction cs using List.twoStepInduction with
  | nil => rfl
  | singleton a => rfl
  | cons_cons a b cs ih ih' =>
    by_cases hc : a = c ∧ b = c
    · obtain ⟨rfl, rfl⟩ := hc
      have hkept : replaceDouble d other (b :: b :: cs) = b :: b :: replaceDouble d other cs := by
        rw [replaceDouble_cons fun h => hcd h.1, replaceDouble_cons fun h => hcd h.1]
      rw [hkept, replaceDouble, if_pos ⟨rfl, rfl⟩, replaceDouble_append hword, ih, replaceDouble, if_pos ⟨rfl, rfl⟩]
    · by_cases hd : a = d ∧ b = d
      · obtain ⟨rfl, rfl⟩ := hd
        have hkept : replaceDouble c word (b :: b :: cs) = b :: b :: replaceDouble c word cs := by
          rw [replaceDouble_cons fun h => hcd h.1.symm, replaceDouble_cons fun h => hcd h.1.symm]
        rw [hkept, replaceDouble, if_pos ⟨rfl, rfl⟩, ih, replaceDouble, if_pos ⟨rfl, rfl⟩, replaceDouble_append hother]
      · have hfirst : ¬ (a = c ∧ (b :: cs).head? = some c) := by simpa using hc
        have hsecond : ¬ (a = d ∧ (b :: cs).head? = some d) := by simpa using hd
        have hfirst' : ¬ (a = c ∧ (replaceDouble d other (b :: cs)).head? = some c) := fun h =>
          head?_replaceDouble_ne hne' hother (fun hb => hfirst ⟨h.1, hb⟩) h.2
        have hsecond' : ¬ (a = d ∧ (replaceDouble c word (b :: cs)).head? = some d) := fun h =>
          head?_replaceDouble_ne hne hword (fun hb => hsecond ⟨h.1, hb⟩) h.2
        rw [replaceDouble_cons hfirst, replaceDouble_cons hsecond', replaceDouble_cons hsecond,
          replaceDouble_cons hfirst', ih' b]

/-- Bars may as well be replaced first. -/
theorem respell_comm (cs : List Char) :
    respell cs = replaceDouble '&' ['A', 'N', 'D'] (replaceDouble '|' ['O', 'R'] cs) :=
  replaceDouble_comm (by decide) (by decide) (by decide) (by decide) (by decide) cs

/-- A text is refused exactly if it would be longer than the limit once every `&&` takes one character more.
Otherwise it comes out that long and with neither spelling left, and coming in again it is left as it is. -/
theorem preprocess_lengthens (text : String) (limit : Nat) :
    let actual := text.length + pairs '&' text.toList
    (∀ max length, preprocess text limit = .error (.tooLong max length) ↔
      max = limit ∧ length = actual ∧ limit < actual) ∧
    (limit < actual ∨
      ∃ out, preprocess text limit = .ok out ∧ out.length = actual ∧
        ¬ ['&', '&'] <:+: out.toList ∧ ¬ ['|', '|'] <:+: out.toList ∧ preprocess out limit = .ok out ∧
        out.toList = replaceDouble '&' "AND".toList (replaceDouble '|' "OR".toList text.toList)) := by
  intro actual
  have hlength : (respell text.toList).length = actual := by rw [length_respell, String.length_toList]
  constructor
  · intro max length
    rw [preprocess, hlength]
    split
    · rename_i hlong
      simp [hlong, eq_comm]
    · rename_i hshort
      simp [hshort]
  · rcases Nat.lt_or_ge limit actual with hlong | hshort
    · exact .inl hlong
    · obtain ⟨hand, hor⟩ := not_doubled_respell text.toList
      have hout : (String.ofList (respell text.toList)).toList = respell text.toList := String.toList_ofList
      have hfits : (String.ofList (respell text.toList)).length ≤ limit := by
        rw [← String.length_toList, hout, hlength]
        exact hshort
      refine .inr ⟨String.ofList (respell text.toList), preprocess_eq_ok_iff.mpr ⟨hout, hfits⟩, ?_, ?_, ?_, ?_, ?_⟩
      · rw [← String.length_toList, hout, hlength]
      · rwa [hout]
      · rwa [hout]
      · refine preprocess_eq_ok_iff.mpr ⟨?_, hfits⟩
        rw [hout, respell_respell]
      · rw [hout]
        exact respell_comm text.toList

/-- Of five ampersands two pairs are replaced. -/
example : (preprocess "a&&&&&b||c" 12).toOption = some "aANDAND&bORc" := by decide +kernel

end Criterion.Registry
