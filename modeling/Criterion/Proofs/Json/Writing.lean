import Criterion.Proofs.Json.Reading
import Criterion.Proofs.Json.Scan

/-! Both ways to write a value spell its lexemes, so that a written value is read back as it was, whatever
text its strings hold. The numbers have to be integers that a number keeps exactly. -/
namespace Criterion.Json

mutual

/-- Every number in the value is an integer that reading keeps. -/
def Whole : Json → Prop
  | .number (.whole n) => Exact n
  | .number (.double _) => False
  | .array items => WholeItems items
  | .object members => WholeMembers members
  | _ => True

def WholeItems : List Json → Prop
  | [] => True
  | v :: vs => Whole v ∧ WholeItems vs

def WholeMembers : List (String × Json) → Prop
  | [] => True
  | (_, v) :: ms => Whole v ∧ WholeMembers ms

end

variable {rest : List Char}

theorem lexemes_ne_nil (v : Json) : lexemes v ≠ [] := by cases v <;> simp [lexemes]

section Scalars

theorem spells_digits {n : Int} (hn : Exact n) (hr : Delimited rest) :
    Spells (Decimal.digits n ++ rest) [.number (.whole n)] rest := by
  obtain ⟨c, cs, hdigits, hc⟩ := digits_eq_cons n
  have hscan := scan?_digits hn hr
  have hblank : isBlank c = false := by
    rw [← Bool.not_eq_true]
    intro h
    simp only [isBlank, Bool.or_eq_true, decide_eq_true_eq] at h
    rcases h with ((rfl | rfl) | rfl) | rfl <;> simp at hc
  rw [hdigits] at hscan ⊢
  exact .single cs rest hblank hscan

theorem spells_writeString (s : String) (rest : List Char) : Spells (writeString s rest) [.string s] rest := by
  have hscan := scan?_writeString s rest
  rw [writeString_eq_append] at hscan ⊢
  exact .single _ rest rfl hscan

theorem spells_writeScalar (v : Json) (ha : ∀ items, v ≠ .array items) (ho : ∀ members, v ≠ .object members)
    (hw : Whole v) (hr : Delimited rest) : Spells (writeScalar v rest) (lexemes v) rest := by
  match v with
  | .null => exact .single ['u', 'l', 'l'] rest rfl rfl
  | .bool true => exact .single ['r', 'u', 'e'] rest rfl rfl
  | .bool false => exact .single ['a', 'l', 's', 'e'] rest rfl rfl
  | .number (.whole n) => exact spells_digits hw hr
  | .string s => exact spells_writeString s rest
  | .array items => exact absurd rfl (ha items)
  | .object members => exact absurd rfl (ho members)

end Scalars

theorem delimited_comma (rest : List Char) : Delimited (',' :: rest) := delimited_cons rest (by decide)

theorem delimited_rightBracket (rest : List Char) : Delimited (']' :: rest) := delimited_cons rest (by decide)

theorem delimited_rightBrace (rest : List Char) : Delimited ('}' :: rest) := delimited_cons rest (by decide)

mutual

theorem spells_writeCompact (v : Json) (rest : List Char) (hw : Whole v) (hr : Delimited rest) :
    Spells (writeCompact v rest) (lexemes v) rest := by
  match v with
  | .null | .bool _ | .number _ | .string _ => exact spells_writeScalar _ (by simp) (by simp) hw hr
  | .array items =>
    have hitems := spells_writeItems items _ hw (delimited_rightBracket rest)
    exact (Spells.mark rfl rfl).append (hitems.append (.mark rfl rfl))
  | .object members =>
    have hmembers := spells_writeMembers members _ hw (delimited_rightBrace rest)
    exact (Spells.mark rfl rfl).append (hmembers.append (.mark rfl rfl))

theorem spells_writeItems (items : List Json) (rest : List Char) (hw : WholeItems items) (hr : Delimited rest) :
    Spells (writeItems items rest) (itemLexemes items) rest := by
  match items with
  | [] => exact .nil rest
  | [v] => exact spells_writeCompact v rest hw.1 hr
  | v :: w :: vs =>
    have hv := spells_writeCompact v (',' :: writeItems (w :: vs) rest) hw.1 (delimited_comma _)
    exact hv.append ((Spells.mark rfl rfl).append (spells_writeItems (w :: vs) rest hw.2 hr))

theorem spells_writeMembers (members : List (String × Json)) (rest : List Char) (hw : WholeMembers members)
    (hr : Delimited rest) : Spells (writeMembers members rest) (memberLexemes members) rest := by
  match members with
  | [] => exact .nil rest
  | [(k, v)] =>
    have hv := spells_writeCompact v rest hw.1 hr
    exact (spells_writeString k _).append ((Spells.mark rfl rfl).append hv)
  | (k, v) :: m :: ms =>
    have hv := spells_writeCompact v (',' :: writeMembers (m :: ms) rest) hw.1 (delimited_comma _)
    have hms := hv.append ((Spells.mark rfl rfl).append (spells_writeMembers (m :: ms) rest hw.2 hr))
    exact (spells_writeString k _).append ((Spells.mark rfl rfl).append hms)

end

theorem spells_newline {text : List Char} {ls : List Lexeme} (depth : Nat) (hne : ls ≠ []) (h : Spells text ls rest) :
    Spells (newline depth text) ls rest := by
  have hblanks : ∀ b ∈ '\n' :: List.replicate (2 * depth) ' ', isBlank b = true := by
    intro b hb
    rcases List.mem_cons.mp hb with rfl | hb
    · rfl
    · obtain rfl := List.eq_of_mem_replicate hb
      rfl
  exact .blank hblanks hne h

theorem spells_space {text : List Char} {ls : List Lexeme} (hne : ls ≠ []) (h : Spells text ls rest) :
    Spells (' ' :: text) ls rest :=
  Spells.blank (by simp [isBlank] : ∀ b ∈ [' '], isBlank b = true) hne h

theorem delimited_newline (depth : Nat) (rest : List Char) : Delimited (newline depth rest) :=
  delimited_cons _ (by decide)

mutual

theorem spells_writePretty (depth : Nat) (v : Json) (rest : List Char) (hw : Whole v) (hr : Delimited rest) :
    Spells (writePretty depth v rest) (lexemes v) rest := by
  match v with
  | .null | .bool _ | .number _ | .string _ => exact spells_writeScalar _ (by simp) (by simp) hw hr
  | .array [] | .object [] => exact (Spells.mark rfl rfl).append (.mark rfl rfl)
  | .array (v :: vs) =>
    have hlines := spells_writeLines (depth + 1) (v :: vs) _ hw (delimited_newline depth (']' :: rest))
    exact (Spells.mark rfl rfl).append (hlines.append (spells_newline depth (by simp) (.mark rfl rfl)))
  | .object (m :: ms) =>
    have hlines := spells_writeMemberLines (depth + 1) (m :: ms) _ hw (delimited_newline depth ('}' :: rest))
    exact (Spells.mark rfl rfl).append (hlines.append (spells_newline depth (by simp) (.mark rfl rfl)))

theorem spells_writeLines (depth : Nat) (items : List Json) (rest : List Char) (hw : WholeItems items)
    (hr : Delimited rest) : Spells (writeLines depth items rest) (itemLexemes items) rest := by
  match items with
  | [] => exact .nil rest
  | [v] => exact spells_newline depth (lexemes_ne_nil v) (spells_writePretty depth v rest hw.1 hr)
  | v :: w :: vs =>
    have hv := spells_writePretty depth v (',' :: writeLines depth (w :: vs) rest) hw.1 (delimited_comma _)
    exact (spells_newline depth (lexemes_ne_nil v) hv).append
      ((Spells.mark rfl rfl).append (spells_writeLines depth (w :: vs) rest hw.2 hr))

theorem spells_writeMemberLines (depth : Nat) (members : List (String × Json)) (rest : List Char)
    (hw : WholeMembers members) (hr : Delimited rest) :
    Spells (writeMemberLines depth members rest) (memberLexemes members) rest := by
  match members with
  | [] => exact .nil rest
  | [(k, v)] =>
    have hv := spells_space (lexemes_ne_nil v) (spells_writePretty depth v rest hw.1 hr)
    exact spells_newline depth (by simp [memberLexemes])
      ((spells_writeString k _).append ((Spells.mark rfl rfl).append hv))
  | (k, v) :: m :: ms =>
    have hv := spells_writePretty depth v (',' :: writeMemberLines depth (m :: ms) rest) hw.1 (delimited_comma _)
    have hms := (spells_space (lexemes_ne_nil v) hv).append
      ((Spells.mark rfl rfl).append (spells_writeMemberLines depth (m :: ms) rest hw.2 hr))
    exact spells_newline depth (by simp [memberLexemes])
      ((spells_writeString k _).append ((Spells.mark rfl rfl).append hms))

end

variable {limit : Option Nat} {v : Json}

theorem read?_compact (hw : Whole v) (hr : Room limit [] (nesting v)) : read? limit v.compact = some v := by
  refine read?_of_spells hr ?_
  rw [compact, String.toList_ofList]
  exact spells_writeCompact v [] hw delimited_nil

theorem read?_pretty (hw : Whole v) (hr : Room limit [] (nesting v)) : read? limit v.pretty = some v := by
  refine read?_of_spells hr ?_
  rw [pretty, String.toList_ofList]
  exact spells_writePretty 0 v [] hw delimited_nil

end Criterion.Json
