import Criterion.Command.Run
import Criterion.Proofs.Json.Spelling
import Criterion.Proofs.Encoding
import Criterion.Proofs.Rendering
import Criterion.Proofs.Respelling

/-! Two runs of one command that differ in the format of their output. They leave the same files and end in the
same way, with one exception: before a tree is shown as JSON it is read again, the way documents are read, and a
tree that nests deeper than documents may is then refused. -/
namespace Criterion

namespace Expr

/-- Every operator of a chain adds a level. -/
theorem length_lt_levels_conjoin (first : Expr) (rest : List Expr) : rest.length < (conjoin first rest).levels := by
  have hfirst : 0 < first.levels := by cases first <;> simp [levels]
  have hall : ∀ e : Expr, e.levels + rest.length ≤ (conjoin e rest).levels := by
    induction rest with
    | nil => exact fun e => Nat.le_refl _
    | cons e' es ih =>
      intro e
      have hjoined := ih (.binary .and e e')
      rw [levels] at hjoined
      rw [List.length_cons]
      exact Nat.le_trans (by omega) hjoined
  have := hall first
  omega

/-- Every level of a tree is a level of its JSON form, and documents have a limit on these. -/
theorem document?_encode (e : Expr) :
    Json.document? e.encode = if e.levels ≤ Json.nestingLimit then some e.toJson.canonical else none := by
  rw [Json.document?, encode, Json.read?_compact_limited (whole_toJson e), nesting_toJson]
  split <;> rfl

end Expr

namespace Command.Run

/-- Both succeed or both fail with the same error, and both leave the same files. -/
def Agree (a b : Result) : Prop := a.1.map (fun _ => ()) = b.1.map (fun _ => ()) ∧ a.2 = b.2

theorem agree_andThen {α : Type} {disk : Disk} {value : Except RunError α} {f g : α → Result}
    (h : ∀ a, Agree (f a) (g a)) : Agree (andThen disk value f) (andThen disk value g) := by
  cases value with
  | error e => exact ⟨rfl, rfl⟩
  | ok a => exact h a

/-- Outputs made from one value agree. -/
theorem agree_map {α : Type} (value : Except RunError α) (f g : α → String) (disk : Disk) :
    Agree (value.map f, disk) (value.map g, disk) := by
  cases value with
  | error e => exact ⟨rfl, rfl⟩
  | ok a => exact ⟨rfl, rfl⟩

variable {limit : Nat} {disk : Disk} (f g : Format)

/-- The outcome of a check does not depend on the format in which it is shown. -/
theorem check_eq_map (format : Format) (expression document : String) :
    check format limit expression document =
      (((⟨.inMemory, limit⟩ : Registry).evaluateText expression document).mapError .registry).map
        (resultOutput format · expression) := by
  rw [check]
  cases (⟨.inMemory, limit⟩ : Registry).evaluateText expression document <;> rfl

theorem evaluate_eq_map (format : Format) (r : Registry) (id : UInt64) (document : String) :
    evaluate format r id document =
      ((r.evaluate id document).mapError .registry).map fun e => resultOutput format e.result e.expression := by
  rw [evaluate]
  cases r.evaluate id document <;> rfl

theorem save_eq_map (format : Format) (r : Registry) (name expression : String) :
    save format r name expression disk =
      (((r.save name expression disk).answer.mapError .registry).map (saveOutput format),
        (r.save name expression disk).disk) := by
  rw [save]
  cases (r.save name expression disk).answer <;> rfl

theorem remove_eq_map (format : Format) (r : Registry) (id : UInt64) :
    remove format r id disk =
      (((r.remove id disk).answer.mapError .registry).map fun _ => removeOutput format id, (r.remove id disk).disk) := by
  rw [remove]
  cases (r.remove id disk).answer <;> rfl

theorem agree_check (expression document : String) :
    Agree (check f limit expression document, disk) (check g limit expression document, disk) := by
  rw [check_eq_map f, check_eq_map g]
  exact agree_map _ _ _ disk

theorem agree_evaluate (r : Registry) (id : UInt64) (document : String) :
    Agree (evaluate f r id document, disk) (evaluate g r id document, disk) := by
  rw [evaluate_eq_map f, evaluate_eq_map g]
  exact agree_map _ _ _ disk

theorem agree_save (r : Registry) (name expression : String) :
    Agree (save f r name expression disk) (save g r name expression disk) := by
  rw [save_eq_map f, save_eq_map g]
  exact agree_map _ _ _ _

theorem agree_remove (r : Registry) (id : UInt64) : Agree (remove f r id disk) (remove g r id disk) := by
  rw [remove_eq_map f, remove_eq_map g]
  exact agree_map _ _ _ _

theorem parse_of_error {expression : String} {e : RegistryError}
    (h : Registry.compileWithin limit expression = .error e) (format : Format) :
    parse format limit expression = .error (.registry e) := by
  rw [parse, h]
  rfl

theorem parse_text {expression : String} {c : Compiled} (h : Registry.compileWithin limit expression = .ok c) :
    parse .text limit expression = .ok c.encoded := by
  rw [parse, h]
  rfl

/-- As JSON a tree is shown if it has no more levels than a document. -/
theorem parse_json {expression : String} {c : Compiled} (h : Registry.compileWithin limit expression = .ok c) :
    parse .json limit expression =
      if c.tree.levels ≤ Json.nestingLimit then
        .ok (Json.object [("ast", c.tree.toJson.canonical), ("expression", .string c.expression)]).pretty
      else .error .encodeOutput := by
  obtain ⟨-, -, -, hencoded⟩ := Registry.compileWithin_eq_ok_iff.mp h
  have hshown : parse .json limit expression = parseOutput .json c := by
    rw [parse, h]
    rfl
  rw [hshown, parseOutput, hencoded, Expr.document?_encode]
  by_cases hlevels : c.tree.levels ≤ Json.nestingLimit
  · simp [hlevels]
  · simp [hlevels]

/-- A chain of 127 operators or more is shown as text and refused as JSON. -/
theorem parse_conditions {text : String} {first : Expr} {rest : List Expr} (hfirst : first.WellFormed)
    (hrest : ∀ e ∈ rest, e.WellFormed) (htext : text.toList = first.render.toList ++ Expr.furtherText rest)
    (hplain : Registry.respell text.toList = text.toList) (hshort : text.length ≤ limit)
    (hlong : Json.nestingLimit ≤ rest.length) :
    (∃ output, parse .text limit text = .ok output) ∧ parse .json limit text = .error .encodeOutput := by
  have htree := Expr.compile_conditions hfirst hrest htext
  have hc : Registry.compileWithin limit text = .ok ⟨text, _, Expr.encode _⟩ :=
    Registry.compileWithin_eq_ok_iff.mpr ⟨hplain.symm, hshort, htree, rfl⟩
  have hdeep := Nat.not_le_of_lt (Nat.lt_of_le_of_lt hlong (Expr.length_lt_levels_conjoin first rest))
  exact ⟨⟨_, parse_text hc⟩, (parse_json hc).trans (if_neg hdeep)⟩

/-- A variable and then `n` times AND and the variable again. -/
def repeated (n : Nat) : String := String.ofList ('a' :: (List.replicate n [' ', 'A', 'N', 'D', ' ', 'a']).flatten)

theorem parse_repeated {limit n : Nat} (hlong : Json.nestingLimit ≤ n) (hshort : 6 * n + 1 ≤ limit) :
    (∃ output, parse .text limit (repeated n) = .ok output) ∧
      parse .json limit (repeated n) = .error .encodeOutput := by
  have ha : Expr.WellFormed (.atom (.variable "a")) := by
    refine ⟨nofun, ['a'], [], rfl, ?_, by decide⟩
    simp [Token.Segment, Token.isLetter]
  have hplain : Registry.respell (repeated n).toList = (repeated n).toList := by
    rw [repeated, String.toList_ofList]
    exact Registry.respell_of_not_doubled (mt Registry.mem_of_doubled (by simp))
      (mt Registry.mem_of_doubled (by simp))
  have hrest : ∀ e ∈ List.replicate n (Expr.atom (.variable "a")), e.WellFormed := by
    intro e he
    obtain rfl := List.eq_of_mem_replicate he
    exact ha
  refine parse_conditions ha hrest ?_ hplain ?_ (by simpa using hlong)
  · simp [repeated, Expr.furtherText, List.flatMap_def, Expr.render, Atom.render]
  · have hlength : (repeated n).length = n * 6 + 1 := by
      rw [repeated, String.length_ofList]
      simp
    omega

end Command.Run

namespace Invocation

open Command.Run

/-- The same command with its output in the given format. -/
def inFormat (i : Invocation) (format : Format) : Invocation := { i with format }

/-- The command is to show a tree that has more levels than a document may have. -/
def TooDeep (i : Invocation) (s : Settings) : Prop :=
  ∃ expression c, i.command = .parse expression ∧ Registry.compileWithin s.maxInputLength expression = .ok c ∧
    Json.nestingLimit < c.tree.levels

/-- What a run with its output as text and one with its output as JSON have in common. -/
structure Compared (tooDeep : Prop) (text json : Result) : Prop where
  disk : json.2 = text.2
  refused : tooDeep → (∃ output, text.1 = .ok output) ∧ json.1 = .error .encodeOutput
  alike : ¬ tooDeep → Agree json text

variable {i : Invocation} {s : Settings}

theorem compared_of_agree {text json : Result} {tooDeep : Prop} (h : ¬ tooDeep) (hagree : Agree json text) :
    Compared tooDeep text json :=
  ⟨hagree.2, fun hdeep => absurd hdeep h, fun _ => hagree⟩

theorem compared_parse {expression : String} (hi : i.command = .parse expression) (disk : Disk) :
    Compared (i.TooDeep s) (parse .text s.maxInputLength expression, disk)
      (parse .json s.maxInputLength expression, disk) := by
  cases h : Registry.compileWithin s.maxInputLength expression with
  | error e =>
    have hdeep : ¬ i.TooDeep s := by
      rintro ⟨other, c, hother, hc, -⟩
      obtain rfl := Command.parse.inj (hi.symm.trans hother)
      rw [h] at hc
      contradiction
    refine compared_of_agree hdeep ?_
    rw [parse_of_error h, parse_of_error h]
    exact ⟨rfl, rfl⟩
  | ok c =>
    have hdeep : i.TooDeep s ↔ Json.nestingLimit < c.tree.levels := by
      constructor
      · rintro ⟨other, c', hother, hc, hlevels⟩
        obtain rfl := Command.parse.inj (hi.symm.trans hother)
        obtain rfl := Except.ok.inj (h.symm.trans hc)
        exact hlevels
      · exact fun hlevels => ⟨expression, c, hi, h, hlevels⟩
    rw [parse_text h, parse_json h]
    refine ⟨rfl, fun hd => ⟨⟨_, rfl⟩, ?_⟩, fun hd => ?_⟩
    · exact if_neg (Nat.not_le.mpr (hdeep.mp hd))
    · have hlevels := Nat.not_lt.mp (mt hdeep.mpr hd)
      rw [if_pos hlevels]
      exact ⟨rfl, rfl⟩

theorem compared_run (i : Invocation) (s : Settings) (input : Option String) (disk : Disk) :
    Compared (i.TooDeep s) ((i.inFormat .text).run s input disk) ((i.inFormat .json).run s input disk) := by
  obtain ⟨config, store, format, command⟩ := i
  cases command with
  | parse expression => exact compared_parse rfl disk
  | check expression source =>
    refine compared_of_agree (by simp [TooDeep]) ?_
    exact agree_andThen fun document => agree_check .json .text expression document
  | save name expression =>
    refine compared_of_agree (by simp [TooDeep]) ?_
    exact agree_andThen fun r => agree_save .json .text r name expression
  | evaluate id source =>
    refine compared_of_agree (by simp [TooDeep]) ?_
    exact agree_andThen fun document => agree_andThen fun r => agree_evaluate .json .text r id document
  | list =>
    refine compared_of_agree (by simp [TooDeep]) ?_
    exact agree_andThen fun r => ⟨rfl, rfl⟩
  | remove id =>
    refine compared_of_agree (by simp [TooDeep]) ?_
    exact agree_andThen fun r => agree_remove .json .text r id

/-- The format of the output changes neither what a command does to the files nor how it ends, unless a tree is
to be shown as JSON that has more levels than a document may have. -/
theorem compared_formats (i : Invocation) (input : Option String) (disk : Disk) :
    (∀ s, Compared (i.TooDeep s) ((i.inFormat .text).run s input disk) ((i.inFormat .json).run s input disk)) ∧
      ∀ env, Compared (∃ s, i.settings env disk = .ok s ∧ i.TooDeep s)
        ((i.inFormat .text).perform env input disk) ((i.inFormat .json).perform env input disk) := by
  refine ⟨fun s => compared_run i s input disk, fun env => ?_⟩
  have hsettings (format : Format) : (i.inFormat format).settings env disk = i.settings env disk := rfl
  rw [perform, perform, hsettings, hsettings]
  cases h : i.settings env disk with
  | error e => exact compared_of_agree (by simp) ⟨rfl, rfl⟩
  | ok s =>
    have hdeep : (∃ loaded, (.ok s : Except RunError Settings) = .ok loaded ∧ i.TooDeep loaded) ↔ i.TooDeep s := by
      simp
    obtain ⟨hdisk, hrefused, halike⟩ := compared_run i s input disk
    exact ⟨hdisk, fun hd => hrefused (hdeep.mp hd), fun hd => halike (mt hdeep.mpr hd)⟩

/-- The shortest such chain is well within the default limit on the length. -/
theorem chain_refused_as_json :
    let i : Invocation := { command := .parse (repeated 127) }
    (∃ output, ((i.inFormat .text).run {} none {}).1 = .ok output) ∧
      ((i.inFormat .json).run {} none {}).1 = .error .encodeOutput :=
  parse_repeated (Nat.le_refl _) (by decide)

end Invocation

end Criterion
