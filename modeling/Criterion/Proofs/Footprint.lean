import Criterion.Command.Run
import Criterion.Proofs.Registry

/-! What a command leaves behind on the disk. A command that fails leaves everything as it was, unless it is the writing
that breaks off, and so does one that only shows something; saving and removing rewrite the file of the catalog and
touch no other. Trying out an expression does not depend on that file at all. -/
namespace Criterion

namespace Shelf

variable {path : String} {c : Catalog} {disk : Disk}

/-- A file with records in order is opened with these records, whatever its next id. -/
theorem load_of_ascending (hc : Catalog.Ascending c.records) (h : disk.read path = .ok c.toSnapshot.encode) :
    load path disk = .ok ⟨some path, ⟨max c.nextId (Catalog.afterLast c.records), c.records⟩⟩ := by
  rw [load_eq_ok_iff, h]
  exact ⟨rfl, .text (Snapshot.decode?_encode _) (Catalog.ofSnapshot_of_ascending hc)⟩

/-- The file at `path` has gained the record and has kept the others, which have smaller ids. -/
structure Gains (path : String) (before after : Disk) (record : Record) : Prop where
  only : ∃ place, before.locate path = .ok place ∧ before.SameBut place after
  opened : ∃ old new : Catalog, load path before = .ok ⟨some path, old⟩ ∧ load path after = .ok ⟨some path, new⟩ ∧
    new.records = old.records ++ [record] ∧ ∀ r ∈ old.records, r.id < record.id

/-- The file at `path` has lost the record with this id and has kept the others and the next id. -/
structure Loses (path : String) (before after : Disk) (id : UInt64) : Prop where
  only : ∃ place, before.locate path = .ok place ∧ before.SameBut place after
  opened : ∃ old new : Catalog, load path before = .ok ⟨some path, old⟩ ∧ load path after = .ok ⟨some path, new⟩ ∧
    (∃ r ∈ old.records, r.id = id) ∧ new.records = old.records.filter (fun r => r.id ≠ id) ∧ new.nextId = old.nextId

/-- Writing a catalog with a further record. -/
theorem gains_of_insert {written : Disk} {d : Draft} (hload : load path disk = .ok ⟨some path, c⟩) (hfits : c.Fits)
    (hw : disk.write? path (c.insert d).2.toSnapshot.encode = some written) :
    Gains path disk written (d.numbered c.nextId) := by
  have hordered : c.Ordered := ordered_of_load hload hfits
  have hrecords := Catalog.insert_records hordered d
  have hascending : Catalog.Ascending (c.insert d).2.records := by
    rw [hrecords]
    exact Catalog.ascending_append hordered.ascending hordered.below
  have hread := Disk.read_of_write? (not_hides_of_load hload) hw
  refine ⟨Disk.sameBut_of_write? hw, c, _, hload, load_of_ascending hascending hread, ?_, ?_⟩
  · exact hrecords
  · exact hordered.below

/-- Writing a catalog without one of its records. -/
theorem loses_of_erase {written : Disk} {id : UInt64} (hload : load path disk = .ok ⟨some path, c⟩) (hfits : c.Fits)
    (hid : c.contains id = true) (hw : disk.write? path (c.erase id).toSnapshot.encode = some written) :
    Loses path disk written id := by
  have hordered : (c.erase id).Ordered := Catalog.ordered_erase (ordered_of_load hload hfits) id
  have hopened := load_of_read hordered (Disk.read_of_write? (not_hides_of_load hload) hw)
  exact ⟨Disk.sameBut_of_write? hw, c, c.erase id, hload, hopened, Catalog.contains_iff.mp hid, rfl, rfl⟩

/-- No catalog has been written: the disk is as it was, or as a write that fails leaves it. -/
def Unwritten (path : String) (before after : Disk) : Prop :=
  after = before ∨
    ∃ c : Catalog, before.write? path c.toSnapshot.encode = none ∧ after = before.afterFailure path c.toSnapshot.encode

variable {after : Disk}

theorem eq_of_intact (h : Unwritten path disk after) (hintact : disk.Intact path) : after = disk := by
  rcases h with hsame | ⟨c, hw, hafter⟩
  · exact hsame
  · exact hafter.trans (hintact _ hw)

/-- What can still be opened has not been touched. -/
theorem eq_of_load {s : Shelf} (h : Unwritten path disk after) (hload : load path after = .ok s) : after = disk := by
  rcases h with hsame | ⟨c, hw, rfl⟩
  · exact hsame
  · rcases Disk.afterFailure_cases hw with hsame | hbroken
    · exact hsame
    · exact absurd (opens_of_load hload) (not_opens_of_brokenOff hbroken s.catalog)

end Shelf

namespace Registry

variable {path : String} {r : Registry}

/-- Saving fails and nothing is written, or the new record is. -/
theorem save_cases (hfile : r.shelf.file = some path) (name text : String) (disk : Disk) :
    (∃ e, (r.save name text disk).answer = .error e ∧ Shelf.Unwritten path disk (r.save name text disk).disk) ∨
      ∃ c written, r.compile text = .ok c ∧
        disk.write? path (r.shelf.catalog.insert ⟨name, c.expression, c.encoded⟩).2.toSnapshot.encode = some written ∧
        (r.save name text disk).answer = .ok ⟨r.shelf.catalog.nextId, name, c.expression, c.encoded⟩ ∧
        (r.save name text disk).disk = written := by
  cases hc : r.compile text with
  | error e => exact .inl ⟨e, by rw [save, hc], .inl (by rw [save, hc])⟩
  | ok c =>
    obtain ⟨⟨file, catalog⟩, limit⟩ := r
    obtain rfl : file = some path := hfile
    rw [save_of_compile hc, lift]
    cases hw : disk.write? path (catalog.insert ⟨name, c.expression, c.encoded⟩).2.toSnapshot.encode with
    | none =>
      rw [Shelf.insert_of_unwritable hw]
      exact .inl ⟨_, rfl, .inr ⟨_, hw, rfl⟩⟩
    | some written =>
      rw [Shelf.insert_of_written hw]
      exact .inr ⟨c, written, rfl, hw, rfl, rfl⟩

/-- Removing fails and nothing is written, or the record was there and the rest is written. -/
theorem remove_cases (hfile : r.shelf.file = some path) (id : UInt64) (disk : Disk) :
    (∃ e, (r.remove id disk).answer = .error e ∧ Shelf.Unwritten path disk (r.remove id disk).disk) ∨
      ∃ written, r.shelf.catalog.contains id = true ∧
        disk.write? path (r.shelf.catalog.erase id).toSnapshot.encode = some written ∧
        (r.remove id disk).answer = .ok () ∧ (r.remove id disk).disk = written := by
  obtain ⟨⟨file, catalog⟩, limit⟩ := r
  obtain rfl : file = some path := hfile
  rw [remove, lift]
  cases hid : catalog.contains id with
  | false =>
    rw [Shelf.remove_of_missing hid]
    exact .inl ⟨_, rfl, .inl rfl⟩
  | true =>
    cases hw : disk.write? path (catalog.erase id).toSnapshot.encode with
    | none =>
      rw [Shelf.remove_of_unwritable hid hw]
      exact .inl ⟨_, rfl, .inr ⟨_, hw, rfl⟩⟩
    | some written =>
      rw [Shelf.remove_of_written hid hw]
      exact .inr ⟨written, rfl, rfl, rfl, rfl⟩

end Registry

namespace Command

/-- Only saving and removing change a file. -/
def Writes : Command → Prop
  | .save _ _ | .remove _ => True
  | _ => False

/-- Only these look at an expression without opening the catalog. -/
def TriesOut : Command → Prop
  | .parse _ | .check _ _ => True
  | _ => False

end Command

namespace Command.Run

variable {α : Type} {value : Except RunError α} {next : α → Result} {disk : Disk}

theorem andThen_disk (h : ∀ a, (next a).2 = disk) : (andThen disk value next).2 = disk := by
  cases value with
  | error e => rfl
  | ok a => exact h a

/-- The registry that is opened has the catalog that the file holds. -/
theorem openRegistry_eq_ok {path : String} {limit : Nat} {r : Registry} (h : openRegistry path limit disk = .ok r) :
    Shelf.load path disk = .ok r.shelf ∧ r.shelf.file = some path ∧ r.limit = limit := by
  unfold openRegistry at h
  split at h
  · rename_i shelf hload
    obtain rfl := Except.ok.inj h
    exact ⟨hload, (Shelf.load_ok hload).1, rfl⟩
  · contradiction

theorem openRegistry_of_load {path : String} {limit : Nat} {shelf : Shelf} (h : Shelf.load path disk = .ok shelf) :
    openRegistry path limit disk = .ok ⟨shelf, limit⟩ := by
  rw [openRegistry, h]

/-- A document that is not in the file is read alike. -/
theorem read_sameBut {place : List String} {other : Disk} {source : Source} (h : disk.SameBut place other)
    (hsource : ∀ name, source = .file name → disk.locate name ≠ .ok place) (input : Option String) :
    read source input other = read source input disk := by
  cases source with
  | inline text => rfl
  | standardInput => rfl
  | file name =>
    have hiff {text : String} : other.read name = .ok text ↔ disk.read name = .ok text :=
      Disk.read_sameBut_iff h (hsource name rfl)
    rw [read, read]
    cases hread : disk.read name with
    | ok text => rw [hiff.mpr hread]
    | error e =>
      cases hother : other.read name with
      | ok text =>
        rw [hiff.mp hother] at hread
        contradiction
      | error e' => rfl

end Command.Run

namespace Invocation

open Command.Run

variable {i : Invocation} {s : Settings} {input : Option String} {disk : Disk}

theorem run_of_not_writes (h : ¬ i.command.Writes) : (i.run s input disk).2 = disk := by
  obtain ⟨config, store, format, command⟩ := i
  cases command with
  | parse expression => rfl
  | check expression source => exact andThen_disk fun document => rfl
  | evaluate id source => exact andThen_disk fun document => andThen_disk fun r => rfl
  | list => exact andThen_disk fun r => rfl
  | save name expression => exact absurd trivial h
  | remove id => exact absurd trivial h

/-- What saving can do: fail and write nothing, or write the catalog with the record of the text. -/
theorem run_save_cases (s : Settings) (input : Option String) (disk : Disk) {name expression : String}
    (h : i.command = .save name expression) :
    (∃ e left, i.run s input disk = (.error e, left) ∧ Shelf.Unwritten (i.storeName s) disk left) ∨
      ∃ old c written, Shelf.load (i.storeName s) disk = .ok ⟨some (i.storeName s), old⟩ ∧
        Registry.compileWithin s.maxInputLength expression = .ok c ∧
        disk.write? (i.storeName s) (old.insert ⟨name, c.expression, c.encoded⟩).2.toSnapshot.encode = some written ∧
        i.run s input disk = (.ok (saveOutput i.format ⟨old.nextId, name, c.expression, c.encoded⟩), written) := by
  rw [run, h]
  dsimp only
  cases hr : openRegistry (i.storeName s) s.maxInputLength disk with
  | error e => exact .inl ⟨e, disk, rfl, .inl rfl⟩
  | ok r =>
    obtain ⟨hload, hfile, hlimit⟩ := openRegistry_eq_ok hr
    rw [andThen]
    rcases Registry.save_cases hfile name expression disk with ⟨e, hanswer, hleft⟩ | ⟨c, written, hc, hw, hanswer, hdisk⟩
    · refine .inl ⟨.registry e, _, ?_, hleft⟩
      rw [save, hanswer]
      rfl
    · refine .inr ⟨r.shelf.catalog, c, written, ?_, ?_, hw, ?_⟩
      · rw [hload, ← hfile]
      · rw [← hlimit]
        exact hc
      · rw [save, hanswer, hdisk]
        rfl

/-- Saving where the catalog opens and its file can be written. -/
theorem run_save_of_written {name expression : String} {old : Catalog} {c : Compiled} {written : Disk}
    (h : i.command = .save name expression)
    (hload : Shelf.load (i.storeName s) disk = .ok ⟨some (i.storeName s), old⟩)
    (hc : Registry.compileWithin s.maxInputLength expression = .ok c)
    (hw : disk.write? (i.storeName s) (old.insert ⟨name, c.expression, c.encoded⟩).2.toSnapshot.encode = some written) :
    i.run s input disk = (.ok (saveOutput i.format ⟨old.nextId, name, c.expression, c.encoded⟩), written) := by
  have hcompile : Registry.compile ⟨⟨some (i.storeName s), old⟩, s.maxInputLength⟩ expression = .ok c := hc
  rw [run, h]
  dsimp only
  rw [openRegistry_of_load hload, andThen, save, Registry.save_of_compile hcompile, Registry.lift, Shelf.insert_of_written hw]
  rfl

/-- What removing can do: fail and write nothing, or write the catalog without the record. -/
theorem run_remove_cases (s : Settings) (input : Option String) (disk : Disk) {id : UInt64}
    (h : i.command = .remove id) :
    (∃ e left, i.run s input disk = (.error e, left) ∧ Shelf.Unwritten (i.storeName s) disk left) ∨
      ∃ old written, Shelf.load (i.storeName s) disk = .ok ⟨some (i.storeName s), old⟩ ∧ old.contains id = true ∧
        disk.write? (i.storeName s) (old.erase id).toSnapshot.encode = some written ∧
        i.run s input disk = (.ok (removeOutput i.format id), written) := by
  rw [run, h]
  dsimp only
  cases hr : openRegistry (i.storeName s) s.maxInputLength disk with
  | error e => exact .inl ⟨e, disk, rfl, .inl rfl⟩
  | ok r =>
    obtain ⟨hload, hfile, -⟩ := openRegistry_eq_ok hr
    rw [andThen]
    rcases Registry.remove_cases hfile id disk with ⟨e, hanswer, hleft⟩ | ⟨written, hid, hw, hanswer, hdisk⟩
    · refine .inl ⟨.registry e, _, ?_, hleft⟩
      rw [remove, hanswer]
      rfl
    · refine .inr ⟨r.shelf.catalog, written, ?_, hid, hw, ?_⟩
      · rw [hload, ← hfile]
      · rw [remove, hanswer, hdisk]
        rfl

/-- A command that fails writes nothing. -/
theorem unwritten_of_error {e : RunError} (h : (i.run s input disk).1 = .error e) :
    Shelf.Unwritten (i.storeName s) disk (i.run s input disk).2 := by
  cases hcommand : i.command with
  | save name expression =>
    rcases run_save_cases s input disk hcommand with ⟨_, left, hrun, hleft⟩ | ⟨_, _, _, _, _, _, hrun⟩
    · rw [hrun]
      exact hleft
    · rw [hrun] at h
      contradiction
  | remove id =>
    rcases run_remove_cases s input disk hcommand with ⟨_, left, hrun, hleft⟩ | ⟨_, _, _, _, _, hrun⟩
    · rw [hrun]
      exact hleft
    · rw [hrun] at h
      contradiction
  | _ => exact .inl (run_of_not_writes (by rw [hcommand]; exact not_false))

/-- Trying out an expression does not look at a file that holds no document. -/
theorem run_sameBut {place : List String} {other : Disk} (hi : i.command.TriesOut) (h : disk.SameBut place other)
    (hdocument : ∀ name, i.command.document? = some (.file name) → disk.locate name ≠ .ok place) :
    (i.run s input other).1 = (i.run s input disk).1 := by
  obtain ⟨config, store, format, command⟩ := i
  cases command with
  | parse expression => rfl
  | check expression source =>
    have hread := read_sameBut h (fun name hname => hdocument name (congrArg some hname)) input
    rw [run, run]
    dsimp only
    rw [hread]
    cases read source input disk <;> rfl
  | save | evaluate | list | remove => contradiction

/-- Where a write that fails leaves the disk as it was, so does a command that fails, and one that only shows something
does in any case. Saving adds one record to the file of the catalog and removing takes one away, and no other file
changes. What a tried expression comes to does not depend on that file or on any other but the one with the document. -/
theorem run_footprint (i : Invocation) (s : Settings) (input : Option String) (disk : Disk)
    (hfits : ∀ shelf, Shelf.load (i.storeName s) disk = .ok shelf → shelf.catalog.Fits) :
    let result := i.run s input disk
    (disk.Intact (i.storeName s) → ∀ e, result.1 = .error e → result.2 = disk) ∧
      (¬ i.command.Writes → result.2 = disk) ∧
      (∀ name expression output, i.command = .save name expression → result.1 = .ok output →
        ∃ record c, Shelf.Gains (i.storeName s) disk result.2 record ∧ output = saveOutput i.format record ∧
          Registry.compileWithin s.maxInputLength expression = .ok c ∧ record.name = name ∧
          record.expression = c.expression ∧ record.encoded = c.encoded) ∧
      (∀ id output, i.command = .remove id → result.1 = .ok output →
        Shelf.Loses (i.storeName s) disk result.2 id ∧ output = removeOutput i.format id) ∧
      (i.command.TriesOut → ∀ place other, disk.SameBut place other →
        (∀ name, i.command.document? = some (.file name) → disk.locate name ≠ .ok place) →
        (i.run s input other).1 = result.1) := by
  intro result
  refine ⟨fun hintact e h => Shelf.eq_of_intact (unwritten_of_error h) hintact, run_of_not_writes,
    fun name expression output hi hok => ?_, fun id output hi hok => ?_, fun hi place other => run_sameBut hi⟩
  · rcases run_save_cases s input disk hi with ⟨e, _, hrun, -⟩ | ⟨old, c, written, hload, hc, hw, hrun⟩
    · rw [show result.1 = .error e from congrArg Prod.fst hrun] at hok
      contradiction
    · have houtput : saveOutput i.format _ = output := Except.ok.inj ((congrArg Prod.fst hrun).symm.trans hok)
      refine ⟨_, c, ?_, houtput.symm, hc, rfl, rfl, rfl⟩
      rw [show result.2 = written from congrArg Prod.snd hrun]
      exact Shelf.gains_of_insert hload (hfits _ hload) hw
  · rcases run_remove_cases s input disk hi with ⟨e, _, hrun, -⟩ | ⟨old, written, hload, hid, hw, hrun⟩
    · rw [show result.1 = .error e from congrArg Prod.fst hrun] at hok
      contradiction
    · have houtput : removeOutput i.format id = output := Except.ok.inj ((congrArg Prod.fst hrun).symm.trans hok)
      refine ⟨?_, houtput.symm⟩
      rw [show result.2 = written from congrArg Prod.snd hrun]
      exact Shelf.loses_of_erase hload (hfits _ hload) hid hw

/-- The records in the file stand in no order and its next id is stale. One is added, and none is removed when the file
can be read but refuses to be written. -/
theorem run_footprint_stale :
    let stale : Snapshot := ⟨Snapshot.supportedSchema, 1, [⟨7, "x", "a", "t"⟩, ⟨3, "y", "b", "t"⟩]⟩
    let disk : Disk := { entries := [(["s.json"], .text stale.encode), (["d.json"], .text "7")] }
    let refusing := disk.refuseWriting "s.json"
    let i : Invocation := { store := some "s.json", command := .save "n" "a && b" }
    let j : Invocation := { store := some "s.json", command := .remove 7 }
    (∀ shelf, Shelf.load "s.json" disk = .ok shelf → shelf.catalog.Fits) ∧
      (i.run {} none disk).1 = .ok "saved expression 8: a AND b" ∧
      (∃ record, Shelf.Gains "s.json" disk (i.run {} none disk).2 record ∧ record.name = "n") ∧
      (∃ shelf, Shelf.load "s.json" refusing = .ok shelf ∧ shelf.catalog.contains 7 = true ∧ shelf.catalog.Fits) ∧
      refusing.Intact "s.json" ∧ (j.run {} none refusing).1 = .error (.registry (.catalog (.io "s.json"))) ∧
      (j.run {} none refusing).2 = refusing := by
  intro stale disk refusing i j
  let opened : Catalog := ⟨8, [⟨3, "y", "b", "t"⟩, ⟨7, "x", "a", "t"⟩]⟩
  have hopened : Catalog.ofSnapshot stale = .ok opened := eq_ok_of_toOption (by decide +kernel)
  have hload : Shelf.load "s.json" disk = .ok ⟨some "s.json", opened⟩ :=
    Shelf.load_eq_ok_iff.mpr ⟨rfl, .text stale.decode?_encode hopened⟩
  have hrefusing : Shelf.load "s.json" refusing = .ok ⟨some "s.json", opened⟩ :=
    Shelf.load_eq_ok_iff.mpr ⟨rfl, .text stale.decode?_encode hopened⟩
  have hfits {d : Disk} (h : Shelf.load "s.json" d = .ok ⟨some "s.json", opened⟩) :
      ∀ shelf, Shelf.load "s.json" d = .ok shelf → shelf.catalog.Fits := by
    intro shelf hshelf
    obtain rfl := Except.ok.inj (h.symm.trans hshelf)
    decide
  have hopen : openRegistry (i.storeName {}) Registry.defaultLimit disk =
      .ok ⟨⟨some "s.json", opened⟩, Registry.defaultLimit⟩ :=
    openRegistry_of_load hload
  have hok : (i.run {} none disk).1 = .ok "saved expression 8: a AND b" := by
    show (andThen disk (openRegistry (i.storeName {}) Registry.defaultLimit disk) _).1 = _
    rw [hopen]
    exact eq_ok_of_toOption (by decide +kernel)
  have hopen' : openRegistry (j.storeName {}) Registry.defaultLimit refusing =
      .ok ⟨⟨some "s.json", opened⟩, Registry.defaultLimit⟩ :=
    openRegistry_of_load hrefusing
  have hfailed : (j.run {} none refusing).1 = .error (.registry (.catalog (.io "s.json"))) := by
    show (andThen refusing (openRegistry (j.storeName {}) Registry.defaultLimit refusing) _).1 = _
    rw [hopen', andThen, remove, Registry.remove, Registry.lift,
      Shelf.remove_of_unwritable rfl (disk.write?_refuseWriting _ _)]
    rfl
  have hintact : refusing.Intact "s.json" := fun content _ => disk.afterFailure_refuseWriting "s.json" content
  obtain ⟨-, -, hsave, -, -⟩ := run_footprint i {} none disk (hfits hload)
  obtain ⟨hunchanged, -, -, -, -⟩ := run_footprint j {} none refusing (hfits hrefusing)
  obtain ⟨record, -, hgains, -, -, hname, -, -⟩ := hsave "n" "a && b" _ rfl hok
  exact ⟨hfits hload, hok, ⟨record, hgains, hname⟩, ⟨_, hrefusing, rfl, by decide⟩, hintact, hfailed,
    hunchanged hintact _ hfailed⟩

end Invocation

end Criterion
