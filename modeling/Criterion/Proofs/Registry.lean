import Criterion.Registry
import Criterion.Proofs.Encoding
import Criterion.Proofs.Respelling
import Criterion.Proofs.Shelf

/-! Registries in use. A record that was saved is kept in memory and in the file through whatever is asked of
the registry next, short of removing it, and its stored tree is the one its text compiles to. -/
namespace Criterion

/-- How the registry wraps the failure of a judgement. -/
def RegistryError.ofJudge : JudgeError → RegistryError
  | .compile e => .compile e
  | .verdict e => .verdict e

namespace Registry

/-- What can be asked of a registry. One that is opened again may be given another limit. -/
inductive Call where
  | compile (text : String)
  | save (name text : String)
  | get (id : UInt64)
  | list
  | remove (id : UInt64)
  | evaluate (id : UInt64) (document : String)
  | evaluateText (text document : String)
  | reopen (limit : Nat)

/-- The registry and the disk after a call. Only saving, removing and opening again change anything. -/
def after (r : Registry) (disk : Disk) : Call → Registry × Disk
  | .save name text => let o := r.save name text disk; (o.state, o.disk)
  | .remove id => let o := r.remove id disk; (o.state, o.disk)
  | .reopen limit =>
    match r.shelf.reload disk with
    | .ok opened => (⟨opened, limit⟩, disk)
    | .error _ => (r, disk)
  | .compile _ | .get _ | .list | .evaluate _ _ | .evaluateText _ _ => (r, disk)

section Compiling

variable {r : Registry} {text : String} {c : Compiled}

theorem compile_ok (h : r.compile text = .ok c) :
    Expr.compile c.expression = .ok c.tree ∧ c.encoded = c.tree.encode := by
  obtain ⟨-, -, hcompiled⟩ := compileWithin_eq_ok_iff.mp h
  exact hcompiled

theorem evaluateText_of_compile (h : r.compile text = .ok c) (document : String) :
    r.evaluateText text document = (c.tree.verdict document).mapError .verdict := by
  rw [evaluateText, h, ok_bind]
  cases c.tree.verdict document <;> rfl

theorem judge_of_compile {expression : String} {tree : Expr} (h : Expr.compile expression = .ok tree)
    (document : String) :
    (Expr.judge expression document).mapError RegistryError.ofJudge =
      (tree.verdict document).mapError .verdict := by
  rw [Expr.judge, h]
  dsimp only
  cases tree.verdict document <;> rfl

/-- A record with the encoding of a tree is evaluated by that tree. -/
theorem evaluate_of_get {id : UInt64} {record : Record} {tree : Expr} (h : r.shelf.catalog.get? id = some record)
    (htree : record.encoded = tree.encode) (document : String) :
    r.evaluate id document =
      ((tree.verdict document).mapError .verdict).map (⟨id, ·, record.expression⟩) := by
  have hget : r.get id = .ok record := by rw [get, h]
  rw [evaluate, hget, ok_bind, htree, Expr.ofEncoded_encode]
  dsimp only
  cases tree.verdict document <;> rfl

end Compiling

section Calls

variable {path : String} {r : Registry} {disk : Disk}

theorem save_of_compile {name text : String} {c : Compiled} (h : r.compile text = .ok c) :
    r.save name text disk = r.lift (r.shelf.insert ⟨name, c.expression, c.encoded⟩ disk) := by
  rw [save, h]

/-- The change of the shelf that a call asks for. -/
def Call.Asks (r : Registry) (q : Call) : Change → Prop
  | .insert d => ∃ text c, q = .save d.name text ∧ r.compile text = .ok c ∧ d = ⟨d.name, c.expression, c.encoded⟩
  | .remove id => q = .remove id

/-- What a call can do: nothing, the change of the shelf that it asks for, or opening the file again. -/
theorem after_cases (r : Registry) (disk : Disk) (q : Call) :
    r.after disk q = (r, disk) ∨
      (∃ d : Change, q.Asks r d ∧
        r.after disk q = (⟨(r.shelf.change disk d).state, r.limit⟩, (r.shelf.change disk d).disk)) ∨
      ∃ opened limit, q = .reopen limit ∧ r.shelf.reload disk = .ok opened ∧
        r.after disk q = (⟨opened, limit⟩, disk) := by
  cases q with
  | save name text =>
    cases h : r.compile text with
    | error e => exact .inl (by simp [after, save, h])
    | ok c =>
      refine .inr (.inl ⟨.insert ⟨name, c.expression, c.encoded⟩, ⟨text, c, rfl, h, rfl⟩, ?_⟩)
      rw [after, save_of_compile h]
      rfl
  | remove id => exact .inr (.inl ⟨.remove id, rfl, rfl⟩)
  | reopen limit =>
    cases h : r.shelf.reload disk with
    | error e => exact .inl (by simp [after, h])
    | ok opened => exact .inr (.inr ⟨opened, limit, rfl, rfl, by simp [after, h]⟩)
  | compile text => exact .inl rfl
  | get id => exact .inl rfl
  | list => exact .inl rfl
  | evaluate id document => exact .inl rfl
  | evaluateText text document => exact .inl rfl

end Calls

/-- Calls that do not remove `kept`, one after the other. In between, anything may happen to the disk that
leaves to the file at `path` what it holds, and every catalog on the way has room for further ids. -/
inductive Later (path : String) (kept : UInt64) (first : Registry × Disk) : Registry × Disk → Prop where
  | now : Later path kept first first
  | called {r : Registry} {disk : Disk} (h : Later path kept first (r, disk)) (q : Call) (hq : q ≠ .remove kept)
      (hfits : (r.after disk q).1.shelf.catalog.Fits) : Later path kept first (r.after disk q)
  | elsewhere {r : Registry} {disk other : Disk} (h : Later path kept first (r, disk))
      (hcontent : other.content path = disk.content path) : Later path kept first (r, other)

/-- The record is in the catalog in memory and in the one that the file opens as, which may differ in the others. -/
structure Keeps (path : String) (record : Record) (state : Registry × Disk) : Prop where
  file : state.1.shelf.file = some path
  ordered : state.1.shelf.catalog.Ordered
  held : state.1.shelf.catalog.get? record.id = some record
  written : ∀ c, Shelf.Opens (state.2.content path) c → c.Ordered ∧ c.get? record.id = some record

section Keeping

variable {path : String} {record : Record} {r : Registry} {disk : Disk}

/-- A file that holds a catalog in order opens as this one. -/
theorem kept_of_content {content : Except ReadFailure String} {c : Catalog} (hc : c.Ordered)
    (hget : c.get? record.id = some record) (h : content = .ok c.toSnapshot.encode) (other : Catalog)
    (hopens : Shelf.Opens content other) : other.Ordered ∧ other.get? record.id = some record := by
  rw [h] at hopens
  obtain rfl := Shelf.opens_unique (Shelf.opens_encode hc) hopens
  exact ⟨hc, hget⟩

theorem keeps_change (h : Keeps path record (r, disk)) {d : Change} (hd : d ≠ .remove record.id)
    (hfits : (r.shelf.change disk d).state.catalog.Fits) :
    Keeps path record (⟨(r.shelf.change disk d).state, r.limit⟩, (r.shelf.change disk d).disk) := by
  obtain ⟨⟨file, c⟩, limit⟩ := r
  obtain ⟨rfl : file = some path, hordered : c.Ordered, hheld : c.get? record.id = some record, hwritten⟩ := h
  rw [Shelf.change_state] at hfits
  have hordered' : (d.effect c).Ordered := Change.ordered_effect hordered hfits
  have hheld' : (d.effect c).get? record.id = some record := Change.get?_effect hordered hheld hd
  have hdisk := @Shelf.change_disk path c disk d
  refine ⟨?_, ?_, ?_, ?_⟩
  · exact congrArg Shelf.file (Shelf.change_state d)
  · simpa only [Shelf.change_state] using hordered'
  · simpa only [Shelf.change_state] using hheld'
  · rcases hdisk with hsame | hnew | hbroken
    · simpa only [hsame] using hwritten
    · exact kept_of_content hordered' hheld' hnew
    · exact fun other hopens => absurd hopens (Shelf.not_opens_of_brokenOff hbroken other)

theorem keeps_after (h : Keeps path record (r, disk)) {q : Call} (hq : q ≠ .remove record.id)
    (hfits : (r.after disk q).1.shelf.catalog.Fits) : Keeps path record (r.after disk q) := by
  rcases after_cases r disk q with hnone | ⟨d, hd, hchange⟩ | ⟨opened, limit, -, hload, hopen⟩
  · rw [hnone]
    exact h
  · have hkept : d ≠ .remove record.id := by
      rintro rfl
      exact hq hd
    rw [hchange] at hfits ⊢
    exact keeps_change h hkept hfits
  · have hreload : r.shelf.reload disk = Shelf.load path disk := by rw [Shelf.reload, h.file]
    rw [hreload] at hload
    obtain ⟨hc, hget⟩ := h.written opened.catalog (Shelf.opens_of_load hload)
    rw [hopen]
    exact ⟨(Shelf.load_ok hload).1, hc, hget, h.written⟩

theorem keeps_later {first state : Registry × Disk} (hfirst : Keeps path record first)
    (h : Later path record.id first state) : Keeps path record state := by
  induction h with
  | now => exact hfirst
  | called _ q hq hfits ih => exact keeps_after ih hq hfits
  | elsewhere _ hcontent ih =>
    refine ⟨ih.file, ih.ordered, ih.held, ?_⟩
    rw [hcontent]
    exact ih.written

/-- What saving leaves behind: the record of a compiled text, in memory and in the file. -/
theorem keeps_save {name text : String} (hr : Shelf.Reachable path Catalog.Fits r.shelf)
    (hsave : (r.save name text disk).answer = .ok record)
    (hfits : (r.save name text disk).state.shelf.catalog.Fits) :
    (∃ c, r.compile text = .ok c ∧ record.expression = c.expression ∧ record.encoded = c.encoded) ∧
      Keeps path record ((r.save name text disk).state, (r.save name text disk).disk) := by
  have hordered := Shelf.ordered_of_reachable hr
  have hfile := Shelf.file_of_reachable hr
  obtain ⟨⟨file, catalog⟩, limit⟩ := r
  obtain rfl : file = some path := hfile
  cases hc : compile ⟨⟨some path, catalog⟩, limit⟩ text with
  | error e =>
    rw [save, hc] at hsave
    contradiction
  | ok c =>
    rw [save_of_compile hc, lift] at hsave hfits ⊢
    cases hw : disk.write? path (catalog.insert ⟨name, c.expression, c.encoded⟩).2.toSnapshot.encode with
    | none =>
      rw [Shelf.insert_of_unwritable hw] at hsave
      contradiction
    | some written =>
      rw [Shelf.insert_of_written hw] at hsave hfits ⊢
      obtain rfl := Except.ok.inj hsave
      have hin := Catalog.ordered_insert hordered _ hfits
      have hget := catalog.get?_insert_self ⟨name, c.expression, c.encoded⟩
      exact ⟨⟨c, rfl, rfl, rfl⟩, rfl, hin, hget, kept_of_content hin hget (Disk.content_of_write? hw)⟩

/-- A saved record is evaluated as its text is, by any registry with the same limit. -/
theorem evaluate_saved {name text : String} {later : Registry × Disk}
    (hr : Shelf.Reachable path Catalog.Fits r.shelf) (hsave : (r.save name text disk).answer = .ok record)
    (hfits : (r.save name text disk).state.shelf.catalog.Fits)
    (hlater : Later path record.id ((r.save name text disk).state, (r.save name text disk).disk) later)
    (other : Registry) (hlimit : other.limit = r.limit) (document : String) :
    later.1.evaluate record.id document =
        (other.evaluateText text document).map (⟨record.id, ·, record.expression⟩) ∧
      other.evaluateText text document =
        (Expr.judge record.expression document).mapError RegistryError.ofJudge := by
  obtain ⟨⟨c, hcompile, hexpression, hencoded⟩, hsaved⟩ := keeps_save hr hsave hfits
  obtain ⟨htree, hencode⟩ := compile_ok hcompile
  have hkept := keeps_later hsaved hlater
  have htext : other.evaluateText text document = (c.tree.verdict document).mapError .verdict := by
    refine evaluateText_of_compile ?_ document
    rw [compile, hlimit]
    exact hcompile
  constructor
  · rw [htext]
    exact evaluate_of_get hkept.held (hencoded.trans hencode) document
  · rw [htext, hexpression, judge_of_compile htree]

/-- A record that is saved before another one. -/
theorem evaluate_saved_before_another :
    let r : Registry := ⟨⟨some "s.json", .empty⟩, defaultLimit⟩
    let o := r.save "n" "a && b" {}
    ∃ record, Shelf.Reachable "s.json" Catalog.Fits r.shelf ∧ o.answer = .ok record ∧
      o.state.shelf.catalog.Fits ∧
      Later "s.json" record.id (o.state, o.disk) (o.state.after o.disk (.save "m" "c")) ∧
      ∀ document, (o.state.after o.disk (.save "m" "c")).1.evaluate record.id document =
        (r.evaluateText "a && b" document).map (⟨record.id, ·, record.expression⟩) := by
  intro r o
  have hopened : Shelf.load "s.json" {} = .ok r.shelf := rfl
  have hr : Shelf.Reachable "s.json" Catalog.Fits r.shelf := .opened hopened nofun
  have hok : o.answer.isOk = true := by decide +kernel
  obtain ⟨record, hsave⟩ : ∃ record, o.answer = .ok record := by
    cases h : o.answer with
    | ok record => exact ⟨record, rfl⟩
    | error e => rw [h] at hok; contradiction
  have hfits : o.state.shelf.catalog.Fits := by decide +kernel
  have hagain : (o.state.after o.disk (.save "m" "c")).1.shelf.catalog.Fits := by decide +kernel
  have hlater : Later "s.json" record.id (o.state, o.disk) (o.state.after o.disk (.save "m" "c")) :=
    .called .now _ nofun hagain
  exact ⟨record, hr, hsave, hfits, hlater, fun document => (evaluate_saved hr hsave hfits hlater r rfl document).1⟩

end Keeping

end Registry

end Criterion
