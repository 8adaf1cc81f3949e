import Criterion.Proofs.Failure
import Criterion.Proofs.Text
import Criterion.Settings.Placeholder
import Mathlib.Data.List.Basic

/-! Expanding placeholders is one substitution from left to right. A text can be cut in at most one way into literal
pieces, in which no placeholder begins, and placeholders that are closed, named and set. Where there is such a cut the
values take the places of the placeholders and are not searched again. Every other text has a placeholder with
something wrong behind such a cut of what stands in front of it, and expanding it fails with what is wrong there. -/
namespace Criterion.Settings

/-- A text that is cut at its placeholders; with each one goes the value that takes its place. -/
inductive Template where
  | last (piece : List Char)
  | slot (piece name value : List Char) (rest : Template)

namespace Template

def written : Template → List Char
  | .last piece => piece
  | .slot piece name _ rest => piece ++ '$' :: '{' :: (name ++ '}' :: rest.written)

def filled : Template → List Char
  | .last piece => piece
  | .slot piece _ value rest => piece ++ (value ++ rest.filled)

end Template

/-- No placeholder begins in the text. -/
def Literal (cs : List Char) : Prop := ¬ ['$', '{'] <:+: cs

/-- The pieces are literal, and the placeholders are closed, named and set. -/
inductive Template.Sound (env : Environment) : Template → Prop
  | last {piece : List Char} (h : Literal piece) : Sound env (.last piece)
  | slot {piece name value : List Char} {rest : Template} (h : Literal piece) (hnamed : name ≠ [])
    (hclosed : '}' ∉ name) (hset : env.lookup (String.ofList name) = some (String.ofList value))
    (hrest : Sound env rest) : Sound env (.slot piece name value rest)

/-- What is wrong with a placeholder, of which the opening mark has been read. -/
inductive Fault (env : Environment) : List Char → PlaceholderError → Prop
  | unterminated {tail : List Char} (hopen : '}' ∉ tail) : Fault env tail .unterminated
  | unnamed (rest : List Char) : Fault env ('}' :: rest) .unnamed
  | unset {name : List Char} (rest : List Char) (hnamed : name ≠ []) (hclosed : '}' ∉ name)
    (hunset : env.lookup (String.ofList name) = none) :
    Fault env (name ++ '}' :: rest) (.unset (String.ofList name))

section Literals

variable {c : Char} {cs piece other tail rest : List Char}

theorem literal_nil : Literal [] := by simp [Literal]

theorem literal_of_cons (h : Literal (c :: cs)) : Literal cs :=
  fun hmark => h (hmark.trans (List.suffix_cons c cs).isInfix)

theorem not_literal_mark (front tail : List Char) : ¬ Literal (front ++ '$' :: '{' :: tail) :=
  fun h => h ⟨front, tail, by simp⟩

/-- A placeholder begins where a dollar sign is followed by a brace. -/
theorem literal_cons (h : Literal cs) (hmark : ¬ (c = '$' ∧ cs.head? = some '{')) : Literal (c :: cs) := by
  intro hinfix
  rcases List.infix_cons_iff.mp hinfix with hprefix | hinfix
  · obtain ⟨hc, hcs⟩ := List.cons_prefix_cons.mp hprefix
    obtain ⟨tail, rfl⟩ := hcs
    exact hmark ⟨hc.symm, rfl⟩
  · exact h hinfix

theorem head?_of_literal (h : Literal ('$' :: cs)) : cs.head? ≠ some '{' := by
  intro hhead
  obtain ⟨tail, rfl⟩ := List.head?_eq_some_iff.mp hhead
  exact not_literal_mark [] tail h

/-- A text is literal, or its first placeholder begins behind a literal piece. -/
theorem exists_literal (cs : List Char) :
    Literal cs ∨ ∃ piece tail, Literal piece ∧ cs = piece ++ '$' :: '{' :: tail := by
  induction cs with
  | nil => exact .inl literal_nil
  | cons c cs ih =>
    by_cases hmark : c = '$' ∧ cs.head? = some '{'
    · obtain ⟨rfl, hhead⟩ := hmark
      obtain ⟨tail, rfl⟩ := List.head?_eq_some_iff.mp hhead
      exact .inr ⟨[], tail, literal_nil, rfl⟩
    · rcases ih with hcs | ⟨piece, tail, hpiece, rfl⟩
      · exact .inl (literal_cons hcs hmark)
      · refine .inr ⟨c :: piece, tail, literal_cons hpiece ?_, rfl⟩
        rintro ⟨rfl, hhead⟩
        obtain ⟨rest, rfl⟩ := List.head?_eq_some_iff.mp hhead
        exact hmark ⟨rfl, rfl⟩

/-- The first placeholder begins at one place only. -/
theorem literal_unique (hpiece : Literal piece) (hother : Literal other)
    (h : piece ++ '$' :: '{' :: tail = other ++ '$' :: '{' :: rest) : piece = other ∧ tail = rest := by
  induction piece generalizing other with
  | nil =>
    match other with
    | [] => simpa using h
    | [c] => simp at h
    | c :: d :: cs =>
      obtain ⟨rfl, rfl, -⟩ : '$' = c ∧ '{' = d ∧ _ := by simpa using h
      exact absurd hother (not_literal_mark [] cs)
  | cons c piece ih =>
    match other with
    | [] =>
      match piece with
      | [] => simp at h
      | d :: cs =>
        obtain ⟨rfl, rfl, -⟩ : c = '$' ∧ d = '{' ∧ _ := by simpa using h
        exact absurd hpiece (not_literal_mark [] cs)
    | d :: other =>
      obtain ⟨rfl, htail⟩ := List.cons.inj h
      obtain ⟨rfl, rfl⟩ := ih (literal_of_cons hpiece) (literal_of_cons hother) htail
      exact ⟨rfl, rfl⟩

end Literals

section Expanding

variable {env : Environment} {piece name rest tail : List Char}

/-- A literal piece stays in front of what the rest expands to. -/
theorem expandFrom_literal (h : Literal piece) (hrest : rest.head? ≠ some '{') :
    expandFrom env none (piece ++ rest) = (expandFrom env none rest).map (piece ++ ·) := by
  induction piece with
  | nil => cases hexpanded : expandFrom env none rest <;> simp [hexpanded, Except.map]
  | cons c piece ih =>
    have hnext : ∀ tail, c = '$' → piece ++ rest = '{' :: tail → False := by
      rintro tail rfl htail
      cases piece with
      | nil => exact hrest (List.head?_eq_some_iff.mpr ⟨tail, htail⟩)
      | cons d piece =>
        obtain rfl := (List.cons.inj htail).1
        exact head?_of_literal h rfl
    rw [List.cons_append, expandFrom, ih (literal_of_cons h)]
    · cases expandFrom env none rest <;> rfl
    · exact hnext

/-- A name is read up to the first closing brace. -/
theorem expandFrom_closed (front : List Char) (h : '}' ∉ name) :
    expandFrom env (some front) (name ++ '}' :: rest) = do
      let value ← substitute env (front ++ name)
      let expanded ← expandFrom env none rest
      return value ++ expanded := by
  induction name generalizing front with
  | nil => rw [List.nil_append, List.append_nil, expandFrom]
  | cons c name ih =>
    obtain ⟨hc, hname⟩ := not_or.mp (mt List.mem_cons.mpr h)
    rw [List.cons_append, expandFrom, ih _ hname, List.append_assoc, List.singleton_append]
    exact fun heq => hc heq.symm

theorem expandFrom_open (front : List Char) (h : '}' ∉ tail) :
    expandFrom env (some front) tail = .error .unterminated := by
  induction tail generalizing front with
  | nil => rfl
  | cons c tail ih =>
    obtain ⟨hc, htail⟩ := not_or.mp (mt List.mem_cons.mpr h)
    rw [expandFrom]
    · exact ih _ htail
    · exact fun heq => hc heq.symm

theorem expandFrom_fault {e : PlaceholderError} (h : Fault env tail e) :
    expandFrom env (some []) tail = .error e := by
  cases h with
  | unterminated hopen => exact expandFrom_open [] hopen
  | unnamed rest => rfl
  | unset rest hnamed hclosed hunset =>
    rw [expandFrom_closed [] hclosed, List.nil_append, substitute, if_neg (by simpa using hnamed), hunset]
    rfl

/-- What stands in front of a placeholder or of the end of the text is filled in, and expanding goes on there. -/
theorem expandFrom_written {t : Template} (h : t.Sound env) (hrest : rest.head? ≠ some '{') :
    expandFrom env none (t.written ++ rest) = (expandFrom env none rest).map (t.filled ++ ·) := by
  induction h with
  | last h => exact expandFrom_literal h hrest
  | @slot piece name value t h hnamed hclosed hset ht ih =>
    have hvalue : substitute env name = .ok value := by
      rw [substitute, if_neg (by simpa using hnamed), hset]
      simp
    rw [Template.written, List.append_assoc, List.cons_append, List.cons_append, List.append_assoc, List.cons_append,
      expandFrom_literal h (by simp), expandFrom, expandFrom_closed [] hclosed, List.nil_append, hvalue, ok_bind, ih]
    cases expandFrom env none rest with
    | error e => rfl
    | ok expanded => simp [Except.map, Template.filled]

end Expanding

section Cutting

variable {env : Environment}

/-- Every text has a sound cut, or what stands in front of its first bad placeholder has one. -/
theorem exists_template (env : Environment) (cs : List Char) :
    ∃ t : Template, t.Sound env ∧
      (cs = t.written ∨ ∃ tail e, cs = t.written ++ '$' :: '{' :: tail ∧ Fault env tail e) := by
  rcases exists_literal cs with h | ⟨piece, tail, hpiece, rfl⟩
  · exact ⟨.last cs, .last h, .inl rfl⟩
  · by_cases hbrace : '}' ∈ tail
    · obtain ⟨name, rest, rfl, hclosed⟩ := List.eq_append_cons_of_mem hbrace
      by_cases hnamed : name = []
      · subst hnamed
        exact ⟨.last piece, .last hpiece, .inr ⟨_, _, rfl, .unnamed rest⟩⟩
      · cases hset : env.lookup (String.ofList name) with
        | none => exact ⟨.last piece, .last hpiece, .inr ⟨_, _, rfl, .unset rest hnamed hclosed hset⟩⟩
        | some value =>
          obtain ⟨t, ht, hcut⟩ := exists_template env rest
          refine ⟨.slot piece name value.toList t, .slot hpiece hnamed hclosed (by simpa using hset) ht, ?_⟩
          rcases hcut with rfl | ⟨tail, e, rfl, hfault⟩
          · exact .inl rfl
          · exact .inr ⟨tail, e, by simp [Template.written], hfault⟩
    · exact ⟨.last piece, .last hpiece, .inr ⟨_, _, rfl, .unterminated hbrace⟩⟩
termination_by cs.length
decreasing_by
  subst_vars
  simp only [List.length_append, List.length_cons]
  omega

/-- No text has two sound cuts. -/
theorem template_unique {t u : Template} (ht : t.Sound env) (hu : u.Sound env) (h : t.written = u.written) :
    t = u := by
  induction ht generalizing u with
  | last hpiece =>
    cases hu with
    | last => exact congrArg Template.last h
    | slot =>
      rw [Template.written, Template.written] at h
      exact absurd hpiece (h ▸ not_literal_mark _ _)
  | slot hpiece _ hclosed hset _ ih =>
    cases hu with
    | last hother =>
      rw [Template.written, Template.written] at h
      exact absurd hother (h ▸ not_literal_mark _ _)
    | slot hother _ hclosed' hset' hrest' =>
      rw [Template.written, Template.written] at h
      obtain ⟨rfl, hslot⟩ := literal_unique hpiece hother h
      obtain ⟨rfl, hrest⟩ := Text.separated_unique hclosed hclosed' hslot
      obtain rfl := ih hrest' hrest
      have hvalue := String.ofList_injective (Option.some.inj (hset.symm.trans hset'))
      rw [hvalue]

end Cutting

section Messages

theorem message_unset (name : String) :
    (PlaceholderError.unset name).message = "missing env var for placeholder `$\x7b" ++ name ++ "\x7d`" :=
  rfl

theorem head?_message (e : PlaceholderError) :
    e.message.toList.head? = some (match e with | .unterminated => 'u' | .unnamed => 'e' | .unset _ => 'm') := by
  cases e with
  | unterminated | unnamed => rfl
  | unset name => simp [message_unset]

/-- The message tells which error it is and which variable is not set. -/
theorem message_injective {e f : PlaceholderError} (h : e.message = f.message) : e = f := by
  have hhead := (head?_message e).symm.trans ((congrArg (·.toList.head?) h).trans (head?_message f))
  cases e with
  | unterminated | unnamed => cases f <;> simp at hhead ⊢
  | unset name =>
    cases f with
    | unterminated | unnamed => simp at hhead
    | unset other =>
      rw [message_unset, message_unset] at h
      rw [(String.append_right_inj _).mp ((String.append_left_inj _).mp h)]

end Messages

/-- A text that can be cut into literal pieces and good placeholders is expanded to the pieces and the values as they
are, and there is one such cut at most. For every other text the first bad placeholder is reported. -/
theorem expand_substitutes (env : Environment) (text : String) :
    (∀ output, expand env text = .ok output ↔
      ∃ t : Template, t.Sound env ∧ text.toList = t.written ∧ output = String.ofList t.filled) ∧
    (∀ t u : Template, t.Sound env → u.Sound env → text.toList = t.written → text.toList = u.written → t = u) ∧
    (∀ e, expand env text = .error e ↔
      ∃ (t : Template) (tail : List Char), t.Sound env ∧ text.toList = t.written ++ '$' :: '{' :: tail ∧
        Fault env tail e) ∧
    ∀ e f : PlaceholderError, e.message = f.message → e = f := by
  have hgood {t : Template} (ht : t.Sound env) (htext : text.toList = t.written) :
      expand env text = .ok (String.ofList t.filled) := by
    have hnothing : ([] : List Char).head? ≠ some '{' := by simp
    have hexpanded := expandFrom_written ht hnothing
    rw [expand, htext, ← List.append_nil t.written, hexpanded]
    simp [expandFrom, Except.map]
  have hbad {t : Template} {tail : List Char} {e : PlaceholderError} (ht : t.Sound env)
      (htext : text.toList = t.written ++ '$' :: '{' :: tail) (hfault : Fault env tail e) :
      expand env text = .error e := by
    rw [expand, htext, expandFrom_written ht (by simp), expandFrom, expandFrom_fault hfault]
    rfl
  obtain ⟨t, ht, hcut⟩ := exists_template env text.toList
  refine ⟨fun output => ⟨fun h => ?_, ?_⟩, fun t u ht hu h h' => template_unique ht hu (h.symm.trans h'),
    fun e => ⟨fun h => ?_, ?_⟩, fun e f => message_injective⟩
  · rcases hcut with htext | ⟨tail, e, htext, hfault⟩
    · exact ⟨t, ht, htext, Except.ok.inj (h.symm.trans (hgood ht htext))⟩
    · rw [hbad ht htext hfault] at h
      contradiction
  · rintro ⟨u, hu, htext, rfl⟩
    exact hgood hu htext
  · rcases hcut with htext | ⟨tail, f, htext, hfault⟩
    · rw [hgood ht htext] at h
      contradiction
    · obtain rfl := Except.error.inj (h.symm.trans (hbad ht htext hfault))
      exact ⟨t, tail, ht, htext, hfault⟩
  · rintro ⟨u, tail, hu, htext, hfault⟩
    exact hbad hu htext hfault

/-- A value that looks like a placeholder stays as it is, and of two bad placeholders the one in front is reported. -/
theorem expand_substitutes_marks :
    let env : Environment := [("A", "$\x7bB\x7d")]
    expand env "$$\x7bA\x7d\x7d" = .ok "$$\x7bB\x7d\x7d" ∧ expand env "$\x7bA\x7d$\x7b\x7d$\x7b" = .error .unnamed := by
  intro env
  have hA : env.lookup (String.ofList ['A']) = some (String.ofList ['$', '{', 'B', '}']) := rfl
  have hgood := (expand_substitutes env "$$\x7bA\x7d\x7d").1
  have hbad := (expand_substitutes env "$\x7bA\x7d$\x7b\x7d$\x7b").2.2.1
  have hpiece : Literal ['$'] := literal_cons literal_nil (by simp)
  have hlast : Template.Sound env (.last ['}']) := .last (literal_cons literal_nil (by simp))
  have hempty : Template.Sound env (.last []) := .last literal_nil
  exact ⟨(hgood _).mpr ⟨_, .slot hpiece (by simp) (by simp) hA hlast, rfl, rfl⟩,
    (hbad _).mpr ⟨_, _, .slot literal_nil (by simp) (by simp) hA hempty, rfl, .unnamed _⟩⟩

end Criterion.Settings
