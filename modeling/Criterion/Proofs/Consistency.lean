import Criterion.Proofs.Registry

/-! Registries that start with no record. Whatever they are asked and however it ends, every record in them
holds a text that is short enough and spelled with words, and the stored tree that this text compiles to. -/
namespace Criterion

/-- The record keeps to the limit, has neither C spelling, and its text compiles to its stored tree. -/
structure Record.Faithful (limit : Nat) (record : Record) : Prop where
  short : record.expression.length ≤ limit
  noAmpersands : ¬ ['&', '&'] <:+: record.expression.toList
  noBars : ¬ ['|', '|'] <:+: record.expression.toList
  compiled : ∃ tree, Expr.compile record.expression = .ok tree ∧ record.encoded = tree.encode

namespace Registry

/-- Calls to a registry with no record at first, on a disk that may be another one each time. Opening the file
again is no call to the registry. -/
inductive Served (limit : Nat) : Registry → Prop where
  | opened {shelf : Shelf} (h : shelf.catalog.records = []) : Served limit ⟨shelf, limit⟩
  | called {r : Registry} (h : Served limit r) (disk : Disk) (q : Call) (hq : ∀ other, q ≠ .reopen other) :
      Served limit (r.after disk q).1

variable {limit : Nat} {r : Registry} {record : Record}

theorem faithful_of_compile {text : String} {c : Compiled} (h : r.compile text = .ok c)
    (hexpression : record.expression = c.expression) (hencoded : record.encoded = c.encoded) :
    record.Faithful r.limit := by
  obtain ⟨hrespelled, hshort, htree, hencode⟩ := compileWithin_eq_ok_iff.mp h
  obtain ⟨hand, hor⟩ := not_doubled_respell text.toList
  rw [← hrespelled] at hand hor
  rw [← hexpression] at hshort htree hand hor
  exact ⟨hshort, hand, hor, c.tree, htree, hencoded.trans hencode⟩

/-- A faithful text is compiled to what is stored with it. -/
theorem compile_of_faithful (h : record.Faithful r.limit) :
    ∃ c, r.compile record.expression = .ok c ∧ c.expression = record.expression ∧ c.encoded = record.encoded := by
  obtain ⟨hshort, hand, hor, tree, htree, hencoded⟩ := h
  have hrespelled := (respell_of_not_doubled hand hor).symm
  exact ⟨⟨record.expression, tree, record.encoded⟩,
    compileWithin_eq_ok_iff.mpr ⟨hrespelled, hshort, htree, hencoded⟩, rfl, rfl⟩

/-- A record that a call brings in is made of what a text compiled to. -/
theorem mem_list_after {disk : Disk} {q : Call} (hq : ∀ other, q ≠ .reopen other)
    (hmem : record ∈ (r.after disk q).1.list) :
    record ∈ r.list ∨
      ∃ text c, r.compile text = .ok c ∧ record.expression = c.expression ∧ record.encoded = c.encoded := by
  rcases after_cases r disk q with hnone | ⟨d, hd, hchange⟩ | ⟨opened, other, hreopen, -, -⟩
  · rw [hnone] at hmem
    exact .inl hmem
  · rw [hchange, list, Shelf.change_state] at hmem
    cases d with
    | insert d =>
      obtain ⟨text, c, -, hc, hdraft⟩ := hd
      rcases Catalog.mem_of_mem_place hmem with rfl | hold
      · rw [hdraft]
        exact .inr ⟨text, c, hc, rfl, rfl⟩
      · exact .inl hold
    | remove id => exact .inl (List.mem_filter.mp hmem).1
  · exact absurd hreopen (hq other)

theorem limit_after {disk : Disk} {q : Call} (hq : ∀ other, q ≠ .reopen other) :
    (r.after disk q).1.limit = r.limit := by
  rcases after_cases r disk q with hnone | ⟨d, -, hchange⟩ | ⟨opened, other, hreopen, -, -⟩
  · rw [hnone]
  · rw [hchange]
  · exact absurd hreopen (hq other)

theorem faithful_of_served (h : Served limit r) : r.limit = limit ∧ ∀ record ∈ r.list, record.Faithful limit := by
  induction h with
  | opened h =>
    refine ⟨rfl, fun record hmem => ?_⟩
    rw [list, h] at hmem
    contradiction
  | called _ disk q hq ih =>
    obtain ⟨rfl, hall⟩ := ih
    refine ⟨limit_after hq, fun record hmem => ?_⟩
    rcases mem_list_after hq hmem with hold | ⟨text, c, hc, hexpression, hencoded⟩
    · exact hall record hold
    · exact faithful_of_compile hc hexpression hencoded

theorem evaluate_ne_stored (hall : ∀ record ∈ r.list, record.Faithful limit) (id : UInt64) (document : String)
    (e : TreeError) : r.evaluate id document ≠ .error (.stored e) := by
  cases hget : r.shelf.catalog.get? id with
  | none =>
    rw [evaluate, get, hget]
    simp
  | some record =>
    obtain ⟨tree, -, hencoded⟩ := (hall record (List.mem_of_find?_eq_some hget)).compiled
    rw [evaluate_of_get hget hencoded]
    cases tree.verdict document with
    | error cause =>
      show Except.error (RegistryError.verdict cause) ≠ .error (.stored e)
      simp
    | ok truth =>
      show Except.ok (Evaluation.mk id truth record.expression) ≠ .error (RegistryError.stored e)
      simp

/-- Saving the text of the record again makes a record with the same text and the same stored tree. It is in the
catalog even if its file cannot be written, which is the one way in which saving can fail. -/
def SavesAlike (r : Registry) (record : Record) (name : String) (disk : Disk) : Prop :=
  let o := r.save name record.expression disk
  ∃ saved ∈ o.state.list, saved.name = name ∧ saved.expression = record.expression ∧
    saved.encoded = record.encoded ∧
    (o.answer = .ok saved ∨
      ∃ path, r.shelf.file = some path ∧ ¬ disk.Writable path ∧ o.answer = .error (.catalog (.io path)))

theorem savesAlike_of_faithful (h : record.Faithful r.limit) (name : String) (disk : Disk) :
    r.SavesAlike record name disk := by
  obtain ⟨c, hc, hexpression, hencoded⟩ := compile_of_faithful h
  obtain ⟨⟨file, catalog⟩, limit⟩ := r
  have hmem : Draft.numbered ⟨name, c.expression, c.encoded⟩ catalog.nextId ∈
      (catalog.insert ⟨name, c.expression, c.encoded⟩).2.records := Catalog.mem_place_self
  unfold SavesAlike
  rw [save_of_compile hc, lift]
  cases file with
  | none => exact ⟨_, hmem, rfl, hexpression, hencoded, .inl rfl⟩
  | some path =>
    cases hw : disk.write? path (catalog.insert ⟨name, c.expression, c.encoded⟩).2.toSnapshot.encode with
    | some written =>
      rw [Shelf.insert_of_written hw]
      exact ⟨_, hmem, rfl, hexpression, hencoded, .inl rfl⟩
    | none =>
      have hfile : ¬ disk.Writable path := by
        intro hwritable
        obtain ⟨written, hwritten⟩ := hwritable _
        rw [hw] at hwritten
        contradiction
      rw [Shelf.insert_of_unwritable hw]
      exact ⟨_, hmem, rfl, hexpression, hencoded, .inr ⟨path, rfl, hfile, rfl⟩⟩

/-- Records agree with their own texts: no stored tree is ever refused, and saving the text of a record again
makes a record with the same text and the same stored tree. -/
theorem served_consistent (h : Served limit r) :
    (∀ record ∈ r.list, record.Faithful limit) ∧
      (∀ id document e, r.evaluate id document ≠ .error (.stored e)) ∧
      ∀ record ∈ r.list, ∀ name disk, r.SavesAlike record name disk := by
  obtain ⟨rfl, hall⟩ := faithful_of_served h
  exact ⟨hall, evaluate_ne_stored hall, fun record hmem => savesAlike_of_faithful (hall record hmem)⟩

/-- The file of this registry cannot be written, so its one record is in the catalog only. -/
theorem served_consistent_without_directory :
    let first : Registry := ⟨⟨some "nodir/s.json", .empty⟩, defaultLimit⟩
    let r := (first.after {} (.save "n" "a && b")).1
    Served defaultLimit r ∧ r.list.map Record.expression = ["a AND b"] ∧
      (∀ record ∈ r.list, record.Faithful defaultLimit) ∧
      ∀ id document e, r.evaluate id document ≠ .error (.stored e) := by
  intro first r
  have hserved : Served defaultLimit r := .called (.opened rfl) {} (.save "n" "a && b") nofun
  have hlist : r.list.map Record.expression = ["a AND b"] := by decide +kernel
  obtain ⟨hall, hevaluate, -⟩ := served_consistent hserved
  exact ⟨hserved, hlist, hall, hevaluate⟩

end Registry

end Criterion
