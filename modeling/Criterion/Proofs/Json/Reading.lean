import Criterion.Json.Read

/-! The lexemes of a value drive the reader to that value, below whatever containers are open, as long as
the value nests no deeper than the limit leaves room for. A text that spells some lexemes, with blanks in
front of each, is read the way the lexemes are. -/
namespace Criterion.Json

mutual

def lexemes : Json → List Lexeme
  | .null => [.null]
  | .bool b => [.bool b]
  | .number n => [.number n]
  | .string s => [.string s]
  | .array items => .leftBracket :: (itemLexemes items ++ [.rightBracket])
  | .object members => .leftBrace :: (memberLexemes members ++ [.rightBrace])

def itemLexemes : List Json → List Lexeme
  | [] => []
  | [v] => lexemes v
  | v :: w :: vs => lexemes v ++ .comma :: itemLexemes (w :: vs)

def memberLexemes : List (String × Json) → List Lexeme
  | [] => []
  | [(k, v)] => .string k :: .colon :: lexemes v
  | (k, v) :: m :: ms => .string k :: .colon :: (lexemes v ++ .comma :: memberLexemes (m :: ms))

end

mutual

/-- How many containers of the value lie within one another. -/
def nesting : Json → Nat
  | .array items => nestingItems items + 1
  | .object members => nestingMembers members + 1
  | _ => 0

def nestingItems : List Json → Nat
  | [] => 0
  | v :: vs => max (nesting v) (nestingItems vs)

def nestingMembers : List (String × Json) → Nat
  | [] => 0
  | (_, v) :: ms => max (nesting v) (nestingMembers ms)

end

/-- The limit leaves room for `depth` more containers. -/
def Room (limit : Option Nat) (frames : List Frame) (depth : Nat) : Prop :=
  ∀ most ∈ limit, frames.length + depth ≤ most

variable {limit : Option Nat}

theorem room_none (frames : List Frame) (depth : Nat) : Room none frames depth := nofun

theorem Room.mono {frames : List Frame} {depth depth' : Nat} (h : Room limit frames depth) (hd : depth' ≤ depth) :
    Room limit frames depth' :=
  fun most hm => by have := h most hm; omega

theorem Room.push {frames : List Frame} {depth : Nat} (f : Frame) (h : Room limit frames (depth + 1)) :
    Room limit (f :: frames) depth :=
  fun most hm => by have := h most hm; simp only [List.length_cons]; omega

theorem withinLimit_of_room {frames : List Frame} {depth : Nat} (h : Room limit frames (depth + 1)) :
    withinLimit limit frames = true := by
  cases limit with
  | none => rfl
  | some most =>
    have := h most rfl
    simp only [withinLimit, decide_eq_true_eq]
    omega

/-- The progress after some lexemes; nothing may follow a value that is done. -/
def feed (limit : Option Nat) : Progress → List Lexeme → Option Progress
  | p, [] => some p
  | .done _, _ :: _ => none
  | .more s, l :: ls => (step limit s l).bind (feed limit · ls)

theorem feed_cons {s : State} {l : Lexeme} {p : Progress} (h : step limit s l = some p) (ls : List Lexeme) :
    feed limit (.more s) (l :: ls) = feed limit p ls := by
  rw [feed, h, Option.bind_some]

/-- No value begins with a closing bracket, so the first item of an array is read like any other. -/
theorem feed_firstItem (items : List Json) (hne : items ≠ []) (frames : List Frame) (ls : List Lexeme) :
    feed limit (.more (.firstItem frames)) (itemLexemes items ++ ls) =
      feed limit (.more (.value (.item [] :: frames))) (itemLexemes items ++ ls) := by
  match items with
  | [v] => cases v <;> rfl
  | v :: w :: vs => cases v <;> rfl

theorem feed_firstKey (members : List (String × Json)) (hne : members ≠ []) (frames : List Frame) (ls : List Lexeme) :
    feed limit (.more (.firstKey frames)) (memberLexemes members ++ ls) =
      feed limit (.more (.key [] frames)) (memberLexemes members ++ ls) := by
  match members with
  | [(k, v)] => rfl
  | (k, v) :: m :: ms => rfl

mutual

theorem feed_lexemes (v : Json) (frames : List Frame) (ls : List Lexeme) (hr : Room limit frames (nesting v)) :
    feed limit (.more (.value frames)) (lexemes v ++ ls) = feed limit (complete v frames) ls := by
  match v with
  | .null | .bool _ | .number _ | .string _ => exact feed_cons rfl ls
  | .array items =>
    have hopen : step limit (.value frames) .leftBracket = some (.more (.firstItem frames)) := by
      simp [step, beginValue, withinLimit_of_room hr]
    rw [lexemes, List.cons_append, feed_cons hopen, List.append_assoc]
    match items with
    | [] => exact feed_cons rfl ls
    | v :: vs =>
      rw [feed_firstItem _ (by simp)]
      exact feed_itemLexemes (v :: vs) (by simp) [] frames ls (hr.push _)
  | .object members =>
    have hopen : step limit (.value frames) .leftBrace = some (.more (.firstKey frames)) := by
      simp [step, beginValue, withinLimit_of_room hr]
    rw [lexemes, List.cons_append, feed_cons hopen, List.append_assoc]
    match members with
    | [] => exact feed_cons rfl ls
    | m :: ms =>
      rw [feed_firstKey _ (by simp)]
      exact feed_memberLexemes (m :: ms) (by simp) [] frames ls hr

theorem feed_itemLexemes (items : List Json) (hne : items ≠ []) (before : List Json) (frames : List Frame)
    (ls : List Lexeme) (hr : Room limit (.item before :: frames) (nestingItems items)) :
    feed limit (.more (.value (.item before :: frames))) (itemLexemes items ++ .rightBracket :: ls) =
      feed limit (complete (.array (before.reverse ++ items)) frames) ls := by
  match items with
  | [v] =>
    have hclose : step limit (.afterItem (v :: before) frames) .rightBracket =
        some (complete (.array (before.reverse ++ [v])) frames) := by simp [step]
    rw [itemLexemes, feed_lexemes v _ _ (hr.mono (Nat.le_max_left _ _))]
    exact feed_cons hclose ls
  | v :: w :: vs =>
    have hws : Room limit (.item (v :: before) :: frames) (nestingItems (w :: vs)) := hr.mono (Nat.le_max_right _ _)
    rw [itemLexemes, List.append_assoc, List.cons_append, feed_lexemes v _ _ (hr.mono (Nat.le_max_left _ _))]
    refine (feed_cons rfl _).trans ?_
    rw [feed_itemLexemes (w :: vs) (by simp) (v :: before) frames ls hws]
    simp

theorem feed_memberLexemes (members : List (String × Json)) (hne : members ≠ []) (before : List (String × Json))
    (frames : List Frame) (ls : List Lexeme) (hr : Room limit frames (nestingMembers members + 1)) :
    feed limit (.more (.key before frames)) (memberLexemes members ++ .rightBrace :: ls) =
      feed limit (complete (.object (before.reverse ++ members)) frames) ls := by
  match members with
  | [(k, v)] =>
    have hclose : step limit (.afterMember ((k, v) :: before) frames) .rightBrace =
        some (complete (.object (before.reverse ++ [(k, v)])) frames) := by simp [step]
    rw [memberLexemes, List.cons_append, List.cons_append]
    refine (feed_cons rfl _).trans ((feed_cons rfl _).trans ?_)
    rw [feed_lexemes v _ _ ((hr.push _).mono (Nat.le_max_left _ _))]
    exact feed_cons hclose ls
  | (k, v) :: m :: ms =>
    have hms : Room limit frames (nestingMembers (m :: ms) + 1) :=
      hr.mono (Nat.add_le_add_right (Nat.le_max_right (nesting v) _) 1)
    rw [memberLexemes, List.cons_append, List.cons_append, List.append_assoc, List.cons_append]
    refine (feed_cons rfl _).trans ((feed_cons rfl _).trans ?_)
    rw [feed_lexemes v _ _ ((hr.push _).mono (Nat.le_max_left _ _))]
    refine (feed_cons rfl _).trans ?_
    rw [feed_memberLexemes (m :: ms) (by simp) ((k, v) :: before) frames ls hms]
    simp

end

section Spelling

variable {text middle rest : List Char} {l : Lexeme} {ls ms : List Lexeme}

/-- The text begins with the lexemes, blanks in front of each allowed, and goes on with `rest`. -/
inductive Spells : List Char → List Lexeme → List Char → Prop
  | nil (rest : List Char) : Spells rest [] rest
  | cons {blanks middle rest cs : List Char} {c : Char} {l : Lexeme} {ls : List Lexeme} :
      (∀ b ∈ blanks, isBlank b = true) → isBlank c = false →
      scan? (c :: cs ++ middle) = some (l, cs.length + 1) → Spells middle ls rest →
      Spells (blanks ++ (c :: cs ++ middle)) (l :: ls) rest

theorem Spells.single {c : Char} (cs rest : List Char) (hc : isBlank c = false)
    (hscan : scan? (c :: cs ++ rest) = some (l, cs.length + 1)) : Spells (c :: cs ++ rest) [l] rest :=
  @Spells.cons [] rest rest cs c l [] (by simp) hc hscan (.nil rest)

theorem Spells.mark {c : Char} {rest : List Char} (hc : isBlank c = false)
    (hscan : scan? (c :: rest) = some (l, 1)) : Spells (c :: rest) [l] rest :=
  .single [] rest hc hscan

theorem Spells.append (h : Spells text ls middle) (h' : Spells middle ms rest) : Spells text (ls ++ ms) rest := by
  induction h with
  | nil => exact h'
  | cons hblanks hc hscan _ ih => exact .cons hblanks hc hscan (ih h')

theorem Spells.blank {blanks : List Char} (hblanks : ∀ b ∈ blanks, isBlank b = true) (hne : ls ≠ [])
    (h : Spells text ls rest) : Spells (blanks ++ text) ls rest := by
  cases h with
  | nil => exact absurd rfl hne
  | cons hmore hc hscan htail =>
    rw [← List.append_assoc]
    refine .cons (fun b hb => ?_) hc hscan htail
    rcases List.mem_append.mp hb with hb | hb
    · exact hblanks b hb
    · exact hmore b hb

theorem readFrom_blanks (s : State) {blanks : List Char} (hblanks : ∀ b ∈ blanks, isBlank b = true) (cs : List Char) :
    readFrom limit s 0 (blanks ++ cs) = readFrom limit s 0 cs := by
  induction blanks with
  | nil => rfl
  | cons b bs ih =>
    rw [List.cons_append, readFrom, if_pos (hblanks b (by simp))]
    exact ih fun c hc => hblanks c (by simp [hc])

theorem readFrom_skip (s : State) (cs rest : List Char) :
    readFrom limit s cs.length (cs ++ rest) = readFrom limit s 0 rest := by
  induction cs with
  | nil => rfl
  | cons c cs ih => simpa only [List.length_cons, List.cons_append, readFrom] using ih

/-- Reading goes on where the lexemes end, unless they have completed the value. -/
def resume (limit : Option Nat) : Progress → List Char → Option (Json × List Char)
  | .more s, rest => readFrom limit s 0 rest
  | .done v, rest => some (v, rest)

/-- Reading the next lexeme, with the blanks in front of it. -/
theorem readFrom_lexeme (s : State) {blanks cs : List Char} {c : Char} (hblanks : ∀ b ∈ blanks, isBlank b = true)
    (hc : isBlank c = false) (hscan : scan? (c :: cs ++ middle) = some (l, cs.length + 1)) :
    readFrom limit s 0 (blanks ++ (c :: cs ++ middle)) = (step limit s l).bind (resume limit · middle) := by
  rw [readFrom_blanks s hblanks, List.cons_append, readFrom, if_neg (by simp [hc]), ← List.cons_append, hscan]
  cases hstep : step limit s l with
  | none => simp [hstep]
  | some next =>
    cases next with
    | more next =>
      simp only [hstep, Nat.add_sub_cancel]
      rw [readFrom_skip]
      rfl
    | done v => simp [hstep, resume]

theorem readFrom_of_spells {s : State} {p : Progress} (h : Spells text ls rest)
    (hfeed : feed limit (.more s) ls = some p) : readFrom limit s 0 text = resume limit p rest := by
  induction h generalizing s with
  | nil rest =>
    obtain rfl := Option.some.inj hfeed
    rfl
  | @cons blanks middle rest cs c l ls hblanks hc hscan htail ih =>
    obtain ⟨next, hstep, hfeed⟩ := Option.bind_eq_some_iff.mp hfeed
    rw [readFrom_lexeme s hblanks hc hscan, hstep, Option.bind_some]
    cases next with
    | more next => exact ih hfeed
    | done v =>
      cases ls with
      | nil =>
        obtain rfl := Option.some.inj hfeed
        cases htail
        rfl
      | cons => contradiction

/-- A text that spells a value and nothing else is read as that value. -/
theorem read?_of_spells {v : Json} {s : String} (hroom : Room limit [] (nesting v))
    (h : Spells s.toList (lexemes v) []) : read? limit s = some v := by
  have hfeed : feed limit (.more (.value [])) (lexemes v) = some (.done v) := by
    have := feed_lexemes v [] [] hroom
    rwa [List.append_nil] at this
  rw [read?, readFirst, readFrom_of_spells h hfeed]
  rfl

end Spelling

end Criterion.Json
