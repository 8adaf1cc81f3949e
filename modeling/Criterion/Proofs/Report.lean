import Criterion.Proofs.Footprint
import Criterion.Proofs.Format
import Criterion.Proofs.Reach
import Criterion.Proofs.Yield

/-! Reports of errors. An error lies no further on than the limit on the length of an expression, and the settings of a
run bring a limit that is a number of the machine. So the report of an error as JSON is read back as it is: it has the
message that is shown as text, whatever words it ends in, and a position when an expression could not be parsed. The
settings of a run also bring a level for the log, so that the log is always started. -/
namespace Criterion

open Json

theorem Yaml.Node.uint64?_lt {v : Yaml.Node} {n : Nat} (h : v.uint64? = some n) : n < UInt64.size := by
  have hbound (found : Option Nat) (h : (found.bind fun m => if m < UInt64.size then some m else none) = some n) :
      n < UInt64.size := by
    obtain ⟨m, -, hm⟩ := Option.bind_eq_some_iff.mp h
    obtain ⟨hlt, heq⟩ := Option.ite_none_right_eq_some.mp hm
    exact Option.some.inj heq ▸ hlt
  unfold uint64? at h
  split at h
  · dsimp only at h
    split at h
    · split at h
      · exact hbound _ h
      · exact hbound _ h
    · exact hbound _ h
  · contradiction

namespace Settings

variable {s : Settings} {text name : String} {env : Environment} {disk : Disk}

/-- The limit is the default or a number that was decoded. -/
theorem single_lt {α : Type} {slots : Slots α} {number : α → Option Nat} {group : Option α} {n : Nat}
    (hnumber : ∀ v n, number v = some n → n < UInt64.size)
    (h : single slots name number Registry.defaultLimit group = some n) : n < UInt64.size := by
  have hdefault : Registry.defaultLimit < UInt64.size := by decide
  unfold single at h
  split at h
  · obtain rfl := Option.some.inj h
    exact hdefault
  · split at h
    · exact hnumber _ _ h
    · obtain rfl := Option.some.inj h
      exact hdefault
    · contradiction

theorem maxInputLength_lt_of_decode {α : Type} {slots : Slots α} {text : α → Option String} {number : α → Option Nat}
    {v : α} (hnumber : ∀ v n, number v = some n → n < UInt64.size) (h : decode slots text number v = some s) :
    s.maxInputLength < UInt64.size := by
  unfold decode at h
  split at h
  · rename_i schema store limits log _
    suffices hlimit : single slots "max_input_length" number Registry.defaultLimit limits = some s.maxInputLength from
      single_lt hnumber hlimit
    cases schema with
    | none =>
      simp only [bind, Option.bind_eq_some_iff, pure, Option.some.injEq] at h
      obtain ⟨_, -, _, -, limit, hlimit, _, -, rfl⟩ := h
      exact hlimit
    | some v =>
      simp only [bind, Option.bind_eq_some_iff, pure, Option.some.injEq] at h
      obtain ⟨_, -, _, -, limit, hlimit, _, -, rfl⟩ := h
      exact hlimit
  · contradiction

theorem maxInputLength_lt_of_ofJson? (h : ofJson? text = some s) : s.maxInputLength < UInt64.size := by
  obtain ⟨v, -, hv⟩ := Option.bind_eq_some_iff.mp h
  refine maxInputLength_lt_of_decode (fun v n hn => ?_) hv
  obtain ⟨word, -, rfl⟩ := Option.map_eq_some_iff.mp hn
  exact word.toNat_lt_size

theorem maxInputLength_lt_of_ofYaml? (h : ofYaml? text = some s) : s.maxInputLength < UInt64.size := by
  obtain ⟨v, -, hv⟩ := Option.bind_eq_some_iff.mp h
  exact maxInputLength_lt_of_decode (fun v n => Yaml.Node.uint64?_lt) hv

theorem maxInputLength_lt_of_decodeNamed (h : decodeNamed name text = some s) : s.maxInputLength < UInt64.size := by
  unfold decodeNamed at h
  split at h
  · exact maxInputLength_lt_of_ofJson? h
  · exact maxInputLength_lt_of_ofYaml? h
  · rw [Option.orElse_eq_orElse, Option.orElse_eq_or, Option.or_eq_some_iff] at h
    rcases h with h | ⟨-, h⟩
    · exact maxInputLength_lt_of_ofYaml? h
    · exact maxInputLength_lt_of_ofJson? h

/-- Settings that are loaded have been decoded, and nothing is wrong with them. -/
theorem decoded_of_load (h : load env disk name = .ok s) :
    s.issues = [] ∧ ∃ text, decodeNamed name text = some s := by
  unfold load at h
  split at h
  · cases h
  · unfold ofText at h
    split at h
    · cases h
    · rename_i expanded _
      split at h
      · cases h
      · rename_i hdecoded
        split at h
        · rename_i hissues
          obtain rfl := Except.ok.inj h
          exact ⟨List.isEmpty_iff.mp hissues, expanded, hdecoded⟩
        · cases h

/-- The limit that settings set is a number of the machine. -/
theorem maxInputLength_lt_of_load (h : load env disk name = .ok s) : s.maxInputLength < UInt64.size := by
  obtain ⟨-, text, hdecoded⟩ := decoded_of_load h
  exact maxInputLength_lt_of_decodeNamed hdecoded

/-- The level that settings set is a filter for the log. -/
theorem isValid_logLevel_of_load (h : load env disk name = .ok s) : LogFilter.isValid s.logLevel = true := by
  have hmem : s.logIssue ∈ [s.limitIssue, s.logIssue, s.schemaIssue, s.pathIssue] := by simp
  have hnone : s.logIssue = none := List.filterMap_eq_nil_iff.mp (decoded_of_load h).1 s.logIssue hmem
  unfold logIssue at hnone
  split at hnone
  · assumption
  · contradiction

end Settings

/-- A grammatical error of a text lies no further on than its length. -/
theorem Expr.position_le_of_compile {text : String} {f : SyntaxError} (h : compile text = .error (.grammatical f)) :
    f.position ≤ text.length := by
  unfold compile at h
  split at h
  · cases h
  · rename_i tokens htokens
    split at h
    · rename_i f' hparse
      obtain rfl := CompileError.grammatical.inj (Except.error.inj h)
      have hreach := (Grammar.parse_error_decided hparse).1
      rw [List.length_map] at hreach
      exact hreach.trans (Token.length_le_of_tokenize htokens)
    · cases h

namespace RegistryError

variable {limit position : Nat} {text : String} {e : RegistryError}

theorem position?_eq_some_iff :
    e.position? = some position ↔ ∃ f, e = .compile (.grammatical f) ∧ position = f.position := by
  constructor
  · intro h
    match e, h with
    | .compile (.grammatical f), h => exact ⟨f, rfl, (Option.some.inj h).symm⟩
  · rintro ⟨f, rfl, rfl⟩
    rfl

theorem position_le_of_compileWithin (h : Registry.compileWithin limit text = .error e) :
    ∀ position ∈ e.position?, position ≤ limit := by
  intro position hposition
  obtain ⟨f, rfl, rfl⟩ := position?_eq_some_iff.mp hposition
  rcases bind_eq_error_iff.mp h with hpreprocess | ⟨expression, hexpression, hcompile⟩
  · unfold Registry.preprocess at hpreprocess
    dsimp only at hpreprocess
    split at hpreprocess
    · cases hpreprocess
    · cases hpreprocess
  · obtain ⟨-, hshort⟩ := Registry.preprocess_eq_ok_iff.mp hexpression
    split at hcompile
    · rename_i e' he'
      obtain rfl := RegistryError.compile.inj (Except.error.inj hcompile)
      exact (Expr.position_le_of_compile he').trans hshort
    · cases hcompile

end RegistryError

namespace Registry

variable {r : Registry} {text document : String} {id : UInt64} {disk : Disk} {e : RegistryError}

theorem position_le_of_evaluateText (h : r.evaluateText text document = .error e) :
    ∀ position ∈ e.position?, position ≤ r.limit := by
  rcases bind_eq_error_iff.mp h with hcompile | ⟨c, -, hverdict⟩
  · exact RegistryError.position_le_of_compileWithin hcompile
  · split at hverdict
    · obtain rfl := Except.error.inj hverdict
      simp [RegistryError.position?]
    · contradiction

/-- Nothing is parsed where the shelf is changed. -/
theorem error_of_lift {α : Type} {o : Outcome Shelf CatalogError α} (h : (r.lift o).answer = .error e) :
    ∃ e', e = .catalog e' := by
  obtain ⟨e', -, rfl⟩ := mapError_eq_error_iff.mp h
  exact ⟨e', rfl⟩

theorem position_le_of_save {name : String} (h : (r.save name text disk).answer = .error e) :
    ∀ position ∈ e.position?, position ≤ r.limit := by
  cases hcompile : r.compile text with
  | error e' =>
    rw [save, hcompile] at h
    obtain rfl := Except.error.inj h
    exact RegistryError.position_le_of_compileWithin hcompile
  | ok c =>
    rw [save_of_compile hcompile] at h
    obtain ⟨e', rfl⟩ := error_of_lift h
    simp [RegistryError.position?]

/-- What is stored has been parsed, so evaluating it reports no position. -/
theorem position?_of_evaluate (h : r.evaluate id document = .error e) : e.position? = none := by
  rcases bind_eq_error_iff.mp h with hget | ⟨record, -, hrest⟩
  · unfold get at hget
    split at hget
    · contradiction
    · obtain rfl := Except.error.inj hget
      rfl
  · split at hrest
    · obtain rfl := Except.error.inj hrest
      rfl
    · split at hrest
      · obtain rfl := Except.error.inj hrest
        rfl
      · contradiction

theorem position?_of_remove (h : (r.remove id disk).answer = .error e) : e.position? = none := by
  rw [remove] at h
  dsimp only at h
  rcases bind_eq_error_iff.mp h with hanswer | ⟨removed, -, hmissing⟩
  · obtain ⟨e', rfl⟩ := error_of_lift hanswer
    rfl
  · split at hmissing
    · contradiction
    · obtain rfl := Except.error.inj hmissing
      rfl

end Registry

namespace ProgramError

variable {e : ProgramError}

/-- The position of the error, if it has one, is a number of the machine. -/
def Placed (e : ProgramError) : Prop := ∀ position ∈ e.position?, position < UInt64.size

/-- What the report of an error says: its message as text, and a position when an expression could not be parsed. -/
structure Told (w : Wording) (e : ProgramError) (report : Json) : Prop where
  message : report.member? "message" = some (.string (e.render .text w))
  position : ∀ v, report.member? "position" = some v ↔
    ∃ f, e = .run (.registry (.compile (.grammatical f))) ∧ v = .number (.whole f.position)

theorem position?_eq_some_iff {position : Nat} :
    e.position? = some position ↔ ∃ f, e = .run (.registry (.compile (.grammatical f))) ∧ position = f.position := by
  cases e with
  | logging reason => simp [position?]
  | run e =>
    cases e with
    | registry e => simp [position?, RunError.position?, RegistryError.position?_eq_some_iff]
    | _ => simp [position?, RunError.position?]

theorem told_toJson (w : Wording) (e : ProgramError) : e.Told w (e.toJson w) := by
  refine ⟨by simp [toJson, member?, lookup?, render], fun v => ?_⟩
  have hmember : (e.toJson w).member? "position" = e.position?.map fun position => .number (.whole position) := by
    cases hposition : e.position? <;> simp [toJson, member?, lookup?, hposition]
  rw [hmember, Option.map_eq_some_iff]
  constructor
  · rintro ⟨position, hposition, rfl⟩
    obtain ⟨f, hf, rfl⟩ := position?_eq_some_iff.mp hposition
    exact ⟨f, hf, rfl⟩
  · rintro ⟨f, hf, rfl⟩
    exact ⟨f.position, position?_eq_some_iff.mpr ⟨f, hf, rfl⟩, rfl⟩

theorem read?_render (w : Wording) (h : e.Placed) : read? none (e.render .json w) = some (e.toJson w) := by
  have hwhole : Whole (e.toJson w) := by
    rw [toJson]
    cases hposition : e.position? with
    | none => exact ⟨trivial, trivial⟩
    | some position => exact ⟨trivial, exact_of_lt (h position hposition), trivial⟩
  exact read?_compact hwhole (room_none _ _)

end ProgramError

namespace Command.Run

variable {α : Type} {limit : Nat} {disk : Disk} {e : RunError}

/-- No error that the result may be has a position beyond the limit. -/
def Bounded (limit : Nat) (result : Result) : Prop :=
  ∀ e, result.1 = .error e → ∀ position ∈ e.position?, position ≤ limit

theorem bounded_andThen {value : Except RunError α} {next : α → Result}
    (hvalue : ∀ e, value = .error e → e.position? = none) (hnext : ∀ a, value = .ok a → Bounded limit (next a)) :
    Bounded limit (andThen disk value next) := by
  cases value with
  | error e =>
    intro e' he' position hposition
    obtain rfl := Except.error.inj he'
    rw [hvalue e rfl] at hposition
    contradiction
  | ok a => exact hnext a rfl

theorem bounded_map {answer : Except RegistryError α} (f : α → String)
    (h : ∀ e, answer = .error e → ∀ position ∈ e.position?, position ≤ limit) :
    Bounded limit ((answer.mapError .registry).map f, disk) := by
  intro e he
  obtain ⟨e', hanswer, rfl⟩ := mapError_eq_error_iff.mp (map_eq_error_iff.mp he)
  exact h e' hanswer

theorem bounded_parse (format : Format) (expression : String) : Bounded limit (parse format limit expression, disk) := by
  intro e he
  cases h : Registry.compileWithin limit expression with
  | error e' =>
    obtain rfl := Except.error.inj ((parse_of_error h format).symm.trans he)
    exact RegistryError.position_le_of_compileWithin h
  | ok c =>
    cases format with
    | text =>
      have := (parse_text h).symm.trans he
      contradiction
    | json =>
      have hrefused := (parse_json h).symm.trans he
      split at hrefused
      · contradiction
      · obtain rfl := Except.error.inj hrefused
        simp [RunError.position?]

theorem position?_of_read {source : Source} {input : Option String} (h : read source input disk = .error e) :
    e.position? = none := by
  unfold read at h
  split at h
  · contradiction
  · split at h
    · contradiction
    · obtain rfl := Except.error.inj h
      rfl
  · split at h
    · contradiction
    · obtain rfl := Except.error.inj h
      rfl

theorem position?_of_openRegistry {path : String} (h : openRegistry path limit disk = .error e) :
    e.position? = none := by
  unfold openRegistry at h
  split at h
  · contradiction
  · obtain rfl := Except.error.inj h
    rfl

end Command.Run

namespace Invocation

open Command.Run

variable {s : Settings} {input : Option String} {disk : Disk} {i : Invocation} {env : Settings.Environment} {e : RunError}

/-- A command reports no position beyond the limit on the length of an expression. -/
theorem bounded_run (i : Invocation) : Bounded s.maxInputLength (i.run s input disk) := by
  have hopen (e : RunError) (h : openRegistry (i.storeName s) s.maxInputLength disk = .error e) : e.position? = none :=
    position?_of_openRegistry h
  have hread (source : Source) (e : RunError) (h : read source input disk = .error e) : e.position? = none :=
    position?_of_read h
  rw [run]
  split
  · exact bounded_parse _ _
  · refine bounded_andThen (hread _) fun document _ => ?_
    rw [check_eq_map]
    exact bounded_map _ fun e => Registry.position_le_of_evaluateText
  · refine bounded_andThen hopen fun r hr => ?_
    obtain ⟨-, -, hlimit⟩ := openRegistry_eq_ok hr
    rw [save_eq_map, ← hlimit]
    exact bounded_map _ fun e => Registry.position_le_of_save
  · refine bounded_andThen (hread _) fun document _ => bounded_andThen hopen fun r _ => ?_
    rw [evaluate_eq_map]
    exact bounded_map _ fun e he => by simp [Registry.position?_of_evaluate he]
  · refine bounded_andThen hopen fun r _ e he => ?_
    cases he
  · refine bounded_andThen hopen fun r _ => ?_
    rw [remove_eq_map]
    exact bounded_map _ fun e he => by simp [Registry.position?_of_remove he]

theorem maxInputLength_lt (h : i.settings env disk = .ok s) : s.maxInputLength < UInt64.size := by
  unfold settings at h
  split at h
  · obtain rfl := Except.ok.inj h
    decide
  · exact Settings.maxInputLength_lt_of_load (mapError_eq_ok_iff.mp h)

/-- The settings of a run start the log. -/
theorem startLog_of_settings (h : i.settings env disk = .ok s) (w : Wording) : startLog env s w = .ok () := by
  have hlevel : Settings.LogFilter.isValid s.logLevel = true := by
    unfold settings at h
    split at h
    · obtain rfl := Except.ok.inj h
      decide
    · exact Settings.isValid_logLevel_of_load (mapError_eq_ok_iff.mp h)
  simp [startLog, hlevel]

/-- The program does what its command does under its settings. -/
theorem program_eq_perform (i : Invocation) (env : Settings.Environment) (input : Option String) (disk : Disk)
    (w : Wording) :
    i.program env input disk w = ((i.perform env input disk).1.mapError .run, (i.perform env input disk).2) := by
  rw [program, perform]
  cases hs : i.settings env disk with
  | error e => rfl
  | ok s => simp only [startLog_of_settings hs, andThen]

theorem position?_of_settings (h : i.settings env disk = .error e) : e.position? = none := by
  unfold settings at h
  split at h
  · cases h
  · obtain ⟨e', -, rfl⟩ := mapError_eq_error_iff.mp h
    rfl

/-- Every position that is reported is a number of the machine if the limit is one. -/
theorem placed_run (hlimit : s.maxInputLength < UInt64.size) (h : (i.run s input disk).1 = .error e) :
    (ProgramError.run e).Placed :=
  fun position hposition => (bounded_run i e h position hposition).trans_lt hlimit

theorem placed_perform (h : (i.perform env input disk).1 = .error e) : (ProgramError.run e).Placed := by
  unfold perform at h
  cases hs : i.settings env disk with
  | error e' =>
    rw [hs] at h
    obtain rfl := Except.error.inj h
    intro position hposition
    rw [ProgramError.position?, position?_of_settings hs] at hposition
    contradiction
  | ok s =>
    rw [hs] at h
    exact placed_run (maxInputLength_lt hs) h

end Invocation

end Criterion
