import Criterion.Proofs.Report

/-! Answers as JSON. The value that a command shows is read back as it is, whatever text its strings hold, and it says
in full what the command has found or done. -/
namespace Criterion

open Json

/-- The records of the catalog file in the order of their ids. A file that does not exist has none. -/
structure Shelf.Filed (path : String) (disk : Disk) (records : List Record) : Prop where
  ascending : Catalog.Ascending records
  content : disk.read path = .error .missing ∧ records = [] ∨
    ∃ text snapshot, disk.read path = .ok text ∧ Snapshot.decode? text = some snapshot ∧
      ∀ r, r ∈ records ↔ r ∈ snapshot.records

theorem Shelf.filed_of_load {path : String} {disk : Disk} {shelf : Shelf} (h : load path disk = .ok shelf) :
    Filed path disk shelf.catalog.records := by
  obtain ⟨-, hopens⟩ := load_eq_ok_iff.mp h
  generalize hread : disk.read path = content, shelf.catalog = opened at hopens
  cases hopens with
  | missing => exact ⟨.nil, .inl ⟨hread, rfl⟩⟩
  | text hdecode hopened =>
    exact ⟨Catalog.ascending_ofSnapshot hopened, .inr ⟨_, _, hread, hdecode, fun r => Catalog.mem_ofSnapshot hopened⟩⟩

theorem Registry.evaluate_eq_ok {r : Registry} {id : UInt64} {document : String} {shown : Evaluation}
    (h : r.evaluate id document = .ok shown) :
    ∃ record ∈ r.list, record.id = id ∧ shown.expression = record.expression := by
  obtain ⟨record, hget, hrest⟩ := bind_eq_ok_iff.mp h
  have hexpression : shown.expression = record.expression := by
    split at hrest
    · contradiction
    · split at hrest
      · contradiction
      · obtain rfl := Except.ok.inj hrest
        rfl
  unfold get at hget
  split at hget
  · rename_i found hfound
    obtain rfl := Except.ok.inj hget
    exact ⟨found, List.mem_of_find?_eq_some hfound, by simpa using List.find?_some hfound, hexpression⟩
  · contradiction

namespace Command.Run

variable {α : Type} {disk : Disk} {output : String}

theorem andThen_eq_ok {value : Except RunError α} {next : α → Result} (h : (andThen disk value next).1 = .ok output) :
    ∃ a, value = .ok a ∧ (next a).1 = .ok output := by
  cases value with
  | error e => contradiction
  | ok a => exact ⟨a, rfl, h⟩

theorem andThen_of_ok {value : Except RunError α} {a : α} (next : α → Result) (h : value = .ok a) :
    (andThen disk value next).1 = (next a).1 := by
  rw [h, andThen]

theorem map_eq_ok {answer : Except RegistryError α} {f : α → String}
    (h : (answer.mapError RunError.registry).map f = .ok output) : ∃ a, answer = .ok a ∧ f a = output := by
  obtain ⟨a, ha, houtput⟩ := map_eq_ok_iff.mp h
  exact ⟨a, mapError_eq_ok_iff.mp ha, houtput⟩

end Command.Run

namespace Invocation

open Command.Run

/-- What the value says that a command shows as JSON. A tree is shown as a value that decodes to it, with the text
that it was compiled from; a result is the one that is shown as text; records are those of the catalog file. -/
def Tells (i : Invocation) (s : Settings) (input : Option String) (disk : Disk) (shown : Json) : Prop :=
  match i.command with
  | .parse expression => ∃ kept tree ast,
      Registry.preprocess expression s.maxInputLength = .ok kept ∧ Expr.compile kept = .ok tree ∧
      shown = .object [("ast", ast), ("expression", .string kept)] ∧ Expr.decode ast = .ok tree
  | .check expression _ => ∃ result,
      shown = .object [("expr", .string expression), ("result", .bool result)] ∧
      ((i.inFormat .text).run s input disk).1 = .ok (truthText result)
  | .save name expression => ∃ record text snapshot,
      shown = .object [("id", ofUInt64 record.id), ("value", .string record.expression)] ∧
      (i.run s input disk).2.read (i.storeName s) = .ok text ∧ Snapshot.decode? text = some snapshot ∧
      record ∈ snapshot.records ∧ record.name = name ∧
      Registry.preprocess expression s.maxInputLength = .ok record.expression
  | .evaluate id _ => ∃ result records record,
      shown = .object [("expr", .string record.expression), ("result", .bool result)] ∧
      ((i.inFormat .text).run s input disk).1 = .ok (truthText result) ∧
      Shelf.Filed (i.storeName s) disk records ∧ record ∈ records ∧ record.id = id
  | .list => ∃ items records,
      shown = .array items ∧ items.mapM Record.ofJson? = some records ∧ Shelf.Filed (i.storeName s) disk records
  | .remove id => shown = .object [("id", ofUInt64 id), ("removed", .bool true)]

variable {s : Settings} {input : Option String} {disk : Disk} {output : String}

theorem read?_resultOutput (result : Bool) (expression : String) :
    read? none (resultOutput .json result expression) =
      some (.object [("expr", .string expression), ("result", .bool result)]) :=
  read?_pretty ⟨trivial, trivial, trivial⟩ (room_none _ _)

section Commands

variable {config store : Option String}

theorem tells_parse {expression : String} {i : Invocation} (hi : i = ⟨config, store, .json, .parse expression⟩)
    (h : (i.run s input disk).1 = .ok output) : ∃ shown, read? none output = some shown ∧ i.Tells s input disk shown := by
  subst hi
  have hparse : parse .json s.maxInputLength expression = .ok output := h
  cases hc : Registry.compileWithin s.maxInputLength expression with
  | error e =>
    rw [parse_of_error hc] at hparse
    contradiction
  | ok c =>
    rw [parse_json hc] at hparse
    split at hparse
    · obtain rfl := Except.ok.inj hparse
      obtain ⟨-, -, htree, -⟩ := Registry.compileWithin_eq_ok_iff.mp hc
      exact ⟨_, read?_pretty ⟨c.tree.whole_canonical_toJson, trivial, trivial⟩ (room_none _ _), c.expression, c.tree, _,
        Registry.preprocess_of_compileWithin hc, htree, rfl, Expr.decodeAt_toJson c.tree "$"⟩
    · contradiction

theorem tells_check {expression : String} {source : Source} {i : Invocation}
    (hi : i = ⟨config, store, .json, .check expression source⟩) (h : (i.run s input disk).1 = .ok output) :
    ∃ shown, read? none output = some shown ∧ i.Tells s input disk shown := by
  subst hi
  obtain ⟨document, hread, hcheck⟩ := andThen_eq_ok h
  have hcheck : check .json s.maxInputLength expression document = .ok output := hcheck
  rw [check_eq_map] at hcheck
  obtain ⟨result, hresult, rfl⟩ := map_eq_ok hcheck
  refine ⟨_, read?_resultOutput result expression, result, rfl, (andThen_of_ok _ hread).trans ?_⟩
  have htext : check .text s.maxInputLength expression document = _ := check_eq_map .text expression document
  rwa [hresult] at htext

theorem tells_save {name expression : String} {i : Invocation} (hi : i = ⟨config, store, .json, .save name expression⟩)
    (h : (i.run s input disk).1 = .ok output) : ∃ shown, read? none output = some shown ∧ i.Tells s input disk shown := by
  have hcommand : i.command = .save name expression := congrArg command hi
  rcases run_save_cases s input disk hcommand with ⟨e, left, hrun, -⟩ | ⟨old, c, written, hload, hc, hw, hrun⟩
  · rw [hrun] at h
    contradiction
  · have hread := Disk.read_of_write? (Shelf.not_hides_of_load hload) hw
    rw [hrun] at h
    obtain rfl := Except.ok.inj h
    subst hi
    refine ⟨_, read?_pretty ⟨exact_toNat old.nextId, trivial, trivial⟩ (room_none _ _),
      ⟨old.nextId, name, c.expression, c.encoded⟩, _, (old.insert ⟨name, c.expression, c.encoded⟩).2.toSnapshot, rfl,
      ?_, Snapshot.decode?_encode _, ?_, rfl, Registry.preprocess_of_compileWithin hc⟩
    · rw [hrun]
      exact hread
    · exact Catalog.mem_place_self

/-- What is shown where the document can be read, the catalog opens and the record is evaluated. -/
theorem run_evaluate_of_ok {id : UInt64} {source : Source} {i : Invocation} {document : String} {r : Registry}
    {shown : Evaluation} (hi : i.command = .evaluate id source) (hread : read source input disk = .ok document)
    (hopen : openRegistry (i.storeName s) s.maxInputLength disk = .ok r) (h : r.evaluate id document = .ok shown) :
    (i.run s input disk).1 = .ok (resultOutput i.format shown.result shown.expression) := by
  rw [run, hi]
  dsimp only
  rw [hread, andThen, hopen, andThen, evaluate_eq_map, h]
  rfl

theorem tells_evaluate {id : UInt64} {source : Source} {i : Invocation}
    (hi : i = ⟨config, store, .json, .evaluate id source⟩) (h : (i.run s input disk).1 = .ok output) :
    ∃ shown, read? none output = some shown ∧ i.Tells s input disk shown := by
  subst hi
  obtain ⟨document, hread, hopened⟩ := andThen_eq_ok h
  obtain ⟨r, hr, hevaluate⟩ := andThen_eq_ok hopened
  have hevaluate : evaluate .json r id document = .ok output := hevaluate
  rw [evaluate_eq_map] at hevaluate
  obtain ⟨evaluation, hresult, rfl⟩ := map_eq_ok hevaluate
  obtain ⟨record, hrecord, hid, hexpression⟩ := Registry.evaluate_eq_ok hresult
  exact ⟨_, read?_resultOutput _ _, evaluation.result, r.list, record, by rw [hexpression],
    run_evaluate_of_ok rfl hread hr hresult, Shelf.filed_of_load (openRegistry_eq_ok hr).1, hrecord, hid⟩

theorem tells_list {i : Invocation} (hi : i = ⟨config, store, .json, .list⟩) (h : (i.run s input disk).1 = .ok output) :
    ∃ shown, read? none output = some shown ∧ i.Tells s input disk shown := by
  subst hi
  obtain ⟨r, hr, hlist⟩ := andThen_eq_ok h
  obtain rfl := Except.ok.inj hlist
  refine ⟨_, read?_pretty (Record.wholeItems_toJson r.list) (room_none _ _), _, r.list, rfl, ?_,
    Shelf.filed_of_load (openRegistry_eq_ok hr).1⟩
  rw [List.mapM_map]
  exact Snapshot.mapM_ofJson?_toJson r.list

theorem tells_remove {id : UInt64} {i : Invocation} (hi : i = ⟨config, store, .json, .remove id⟩)
    (h : (i.run s input disk).1 = .ok output) : ∃ shown, read? none output = some shown ∧ i.Tells s input disk shown := by
  subst hi
  obtain ⟨r, hr, hremove⟩ := andThen_eq_ok h
  rw [remove_eq_map] at hremove
  obtain ⟨_, -, rfl⟩ := map_eq_ok hremove
  exact ⟨_, read?_pretty ⟨exact_toNat id, trivial, trivial⟩ (room_none _ _), rfl⟩

end Commands

/-- Whatever a command shows as JSON is the text of a value that says what it must. -/
theorem tells_run (i : Invocation) (hi : i.format = .json) (h : (i.run s input disk).1 = .ok output) :
    ∃ shown, read? none output = some shown ∧ i.Tells s input disk shown := by
  obtain ⟨config, store, format, command⟩ := i
  obtain rfl : format = .json := hi
  cases command with
  | parse expression => exact tells_parse rfl h
  | check expression source => exact tells_check rfl h
  | save name expression => exact tells_save rfl h
  | evaluate id source => exact tells_evaluate rfl h
  | list => exact tells_list rfl h
  | remove id => exact tells_remove rfl h

/-- Nothing is lost between what a command answers and the JSON that shows it: under any settings the text of every
answer is read back as a value that says it in full, and so is the report of every error, whatever words the system has
for it. The program shows what its command answers. -/
theorem shown_in_full (i : Invocation) (hi : i.format = .json) (input : Option String) (disk : Disk) (w : Wording) :
    (∀ (s : Settings) (output : String), (i.run s input disk).1 = .ok output →
      ∃ shown, read? none output = some shown ∧ i.Tells s input disk shown) ∧
    (∀ s : Settings, s.maxInputLength < UInt64.size → ∀ e, (i.run s input disk).1 = .error e →
      (ProgramError.run e).Placed) ∧
    (∀ env : Settings.Environment,
      i.program env input disk w = ((i.perform env input disk).1.mapError .run, (i.perform env input disk).2) ∧
      (∀ output, (i.perform env input disk).1 = .ok output →
        ∃ s shown, i.settings env disk = .ok s ∧ read? none output = some shown ∧ i.Tells s input disk shown) ∧
      ∀ e, (i.perform env input disk).1 = .error e → (ProgramError.run e).Placed) ∧
    ∀ e : ProgramError, e.Placed → ∃ report, read? none (e.render i.format w) = some report ∧ e.Told w report := by
  refine ⟨fun s output => tells_run i hi, fun s hlimit e => placed_run hlimit,
    fun env => ⟨program_eq_perform i env input disk w, fun output h => ?_, fun e => placed_perform⟩, fun e h => ?_⟩
  · obtain ⟨s, hs, hrun⟩ := andThen_eq_ok h
    obtain ⟨shown, hshown, htells⟩ := tells_run i hi hrun
    exact ⟨s, shown, hs, hshown, htells⟩
  · rw [hi]
    exact ⟨e.toJson w, ProgramError.read?_render w h, ProgramError.told_toJson w e⟩

/-- A text that is respelled is shown with its new spelling: where it is parsed, where it is saved, and where the record
is listed and evaluated. An early end is reported with its index. -/
theorem shown_in_full_respelled :
    let json (command : Command) : Invocation := { format := .json, command }
    let tree : Expr := .binary .or (.atom (.variable "a")) (.atom (.variable "b"))
    let record : Record := ⟨1, "either\t\"of\" them", "a OR b", tree.encode⟩
    let save := json (.save record.name "a || b")
    let kept := (save.run {} none {}).2
    let document := "\x7b\"a\": \"yes\", \"b\": true\x7d"
    let evaluate := json (.evaluate 1 (.inline document))
    let e : ProgramError := .run (.registry (.compile (.grammatical (.unexpectedEnd 2))))
    (∃ output ast, ((json (.parse "a || b")).perform [] none {}).1 = .ok output ∧
        read? none output = some (.object [("ast", ast), ("expression", .string "a OR b")]) ∧
        Expr.decode ast = .ok tree) ∧
      ((save.run {} none {}).1 = .ok (saveOutput .json record) ∧
        ∃ shown, read? none (saveOutput .json record) = some shown ∧ save.Tells {} none {} shown) ∧
      (((json .list).run {} none kept).1 = .ok (listOutput .json [record]) ∧
        ∃ shown, read? none (listOutput .json [record]) = some shown ∧ (json .list).Tells {} none kept shown) ∧
      ((evaluate.run {} none kept).1 = .ok (resultOutput .json true "a OR b") ∧
        ∃ shown, read? none (resultOutput .json true "a OR b") = some shown ∧ evaluate.Tells {} none kept shown) ∧
      ∃ report, read? none (e.render .json) = some report ∧ report.member? "position" = some (.number (.whole 2)) := by
  intro json tree record save kept document evaluate e
  have hcompiled : Registry.compileWithin Registry.defaultLimit "a || b" = .ok ⟨"a OR b", tree, tree.encode⟩ := rfl
  obtain ⟨hparses, -, -, hreports⟩ := shown_in_full (json (.parse "a || b")) rfl none {} {}
  have hparsed : ((json (.parse "a || b")).run {} none {}).1 = .ok _ := (parse_json hcompiled).trans (if_pos (by decide))
  obtain ⟨shown, hshown, kept', tree', ast, hkept, htree, rfl, hdecode⟩ := hparses {} _ hparsed
  obtain rfl := Except.ok.inj ((Registry.preprocess_of_compileWithin hcompiled).symm.trans hkept)
  have hcompile : Expr.compile "a OR b" = .ok tree := rfl
  obtain rfl := Except.ok.inj (hcompile.symm.trans htree)
  obtain ⟨report, hreport, htold⟩ := hreports e fun position hposition => by
    obtain rfl := Option.some.inj hposition
    decide
  have hfresh : Shelf.load "expreval-store.json" {} = .ok ⟨some "expreval-store.json", .empty⟩ := rfl
  have hwritable : Disk.Writable {} "expreval-store.json" := fun _ => ⟨_, rfl⟩
  obtain ⟨written, hw⟩ := hwritable (Catalog.mk 2 [record]).toSnapshot.encode
  have hsave := @run_save_of_written save {} none {} record.name "a || b" .empty ⟨"a OR b", tree, tree.encode⟩ written rfl
    hfresh hcompiled hw
  have hsaved : (save.run {} none {}).1 = .ok (saveOutput .json record) := congrArg Prod.fst hsave
  let r : Registry := ⟨⟨some "expreval-store.json", ⟨2, [record]⟩⟩, Registry.defaultLimit⟩
  have hload : Shelf.load "expreval-store.json" kept = .ok r.shelf := by
    rw [show kept = written from congrArg Prod.snd hsave, Shelf.load_eq_ok_iff, Disk.read_of_write? rfl hw]
    exact ⟨rfl, .text (Snapshot.decode?_encode _) rfl⟩
  have hopen : openRegistry "expreval-store.json" Registry.defaultLimit kept = .ok r := openRegistry_of_load hload
  have hlisted : ((json .list).run {} none kept).1 = .ok (listOutput .json [record]) := andThen_of_ok _ hopen
  have hverdict : tree.verdict document = .ok true := eq_ok_of_toOption (by decide +kernel)
  have hget : r.shelf.catalog.get? 1 = some record := rfl
  have hresult : r.evaluate 1 document = .ok ⟨1, true, "a OR b"⟩ := by
    rw [Registry.evaluate_of_get hget rfl document, hverdict]
    rfl
  have hevaluated := @run_evaluate_of_ok {} none kept 1 (.inline document) evaluate document r _ rfl rfl hopen hresult
  exact ⟨⟨_, ast, hparsed, hshown, hdecode⟩, ⟨hsaved, (shown_in_full save rfl none {} {}).1 {} _ hsaved⟩,
    ⟨hlisted, (shown_in_full (json .list) rfl none kept {}).1 {} _ hlisted⟩,
    ⟨hevaluated, (shown_in_full evaluate rfl none kept {}).1 {} _ hevaluated⟩,
    report, hreport, (htold.position _).mpr ⟨_, rfl, rfl⟩⟩

end Invocation

end Criterion
