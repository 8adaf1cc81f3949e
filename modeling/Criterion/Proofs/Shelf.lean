import Criterion.Catalog.Shelf
import Criterion.Proofs.Catalog
import Criterion.Proofs.Disk
import Criterion.Proofs.Snapshot

/-! Requests to a shelf, one after the other on a disk that may change in between. A change acts on the
catalog in memory whether or not the file can be written, and writing puts the whole catalog into the file,
from which the same catalog is opened again. Where writing breaks off the file opens as no catalog at all. -/
namespace Criterion

inductive Change where
  | insert (d : Draft)
  | remove (id : UInt64)

/-- What can be asked of a shelf. -/
inductive Request where
  | change (q : Change)
  | get (id : UInt64)
  | list
  | reopen

inductive Reply where
  | inserted (r : Record)
  | removed (found : Bool)
  | got (r : Option Record)
  | listed (records : List Record)
  | reopened

namespace Change

/-- What the change makes of a catalog. -/
def effect : Change → Catalog → Catalog
  | .insert d, c => (c.insert d).2
  | .remove id, c => c.erase id

/-- The answer if writing the file does not fail. -/
def reply : Change → Catalog → Reply
  | .insert d, c => .inserted (c.insert d).1
  | .remove id, c => .removed (c.contains id)

/-- Removing what is not there writes nothing. -/
def Writes : Change → Catalog → Prop
  | .insert _, _ => True
  | .remove id, c => c.contains id = true

theorem effect_of_not_writes {q : Change} {c : Catalog} (h : ¬ q.Writes c) : q.effect c = c := by
  cases q with
  | insert d => exact absurd trivial h
  | remove id =>
    have hnone : ∀ r ∈ c.records, ¬ r.id = id := by simpa [Writes, Catalog.contains] using h
    have hkept : c.records.filter (fun r => r.id ≠ id) = c.records :=
      List.filter_eq_self.mpr (by simpa using hnone)
    rw [effect, Catalog.erase, hkept]

theorem ordered_effect {q : Change} {c : Catalog} (h : c.Ordered) (hfits : (q.effect c).Fits) :
    (q.effect c).Ordered := by
  cases q with
  | insert d => exact Catalog.ordered_insert h d hfits
  | remove id => exact Catalog.ordered_erase h id

/-- A record stays what it is until it is removed. -/
theorem get?_effect {q : Change} {c : Catalog} {r : Record} (h : c.Ordered) (hr : c.get? r.id = some r)
    (hq : q ≠ .remove r.id) : (q.effect c).get? r.id = some r := by
  cases q with
  | insert d =>
    have hid : r.id ≠ c.nextId := by
      intro hid
      rw [hid, Catalog.get?_nextId h] at hr
      contradiction
    exact (Catalog.get?_insert_of_ne hid d).trans hr
  | remove id =>
    have hid : r.id ≠ id := fun hid => hq (by rw [hid])
    rw [effect, Catalog.get?_erase, if_neg hid]
    exact hr

/-- The effects of changes, one after the other. -/
def effects (c : Catalog) (qs : List Change) : Catalog := qs.foldl (fun c q => q.effect c) c

end Change

namespace Shelf

def change (s : Shelf) (disk : Disk) : Change → Outcome Shelf CatalogError Reply
  | .insert d => let o := s.insert d disk; ⟨o.answer.map .inserted, o.state, o.disk⟩
  | .remove id => let o := s.remove id disk; ⟨o.answer.map .removed, o.state, o.disk⟩

/-- A file that cannot be opened again leaves the shelf as it is. -/
def serve (s : Shelf) (disk : Disk) : Request → Outcome Shelf CatalogError Reply
  | .change q => s.change disk q
  | .get id => ⟨.ok (.got (s.catalog.get? id)), s, disk⟩
  | .list => ⟨.ok (.listed s.catalog.records), s, disk⟩
  | .reopen =>
    match s.reload disk with
    | .ok opened => ⟨.ok .reopened, opened, disk⟩
    | .error e => ⟨.error e, s, disk⟩

/-- A file with this content opens as the catalog. -/
inductive Opens : Except ReadFailure String → Catalog → Prop
  | missing : Opens (.error .missing) .empty
  | text {text : String} {snapshot : Snapshot} {c : Catalog} :
      Snapshot.decode? text = some snapshot → Catalog.ofSnapshot snapshot = .ok c → Opens (.ok text) c

variable {path : String} {c : Catalog} {disk : Disk}

theorem insert_of_written {d : Draft} {written : Disk}
    (h : disk.write? path (c.insert d).2.toSnapshot.encode = some written) :
    insert ⟨some path, c⟩ d disk = ⟨.ok (d.numbered c.nextId), ⟨some path, (c.insert d).2⟩, written⟩ := by
  simp only [insert, save, h]
  rfl

theorem insert_of_unwritable {d : Draft} (h : disk.write? path (c.insert d).2.toSnapshot.encode = none) :
    insert ⟨some path, c⟩ d disk = ⟨.error (.io path), ⟨some path, (c.insert d).2⟩,
      disk.afterFailure path (c.insert d).2.toSnapshot.encode⟩ := by
  simp only [insert, save, h]

theorem remove_of_written {id : UInt64} {written : Disk} (hid : c.contains id = true)
    (h : disk.write? path (c.erase id).toSnapshot.encode = some written) :
    remove ⟨some path, c⟩ id disk = ⟨.ok true, ⟨some path, c.erase id⟩, written⟩ := by
  simp only [remove, hid, if_true, save, h]

theorem remove_of_unwritable {id : UInt64} (hid : c.contains id = true)
    (h : disk.write? path (c.erase id).toSnapshot.encode = none) :
    remove ⟨some path, c⟩ id disk = ⟨.error (.io path), ⟨some path, c.erase id⟩,
      disk.afterFailure path (c.erase id).toSnapshot.encode⟩ := by
  simp only [remove, hid, if_true, save, h]

theorem remove_of_missing {file : Option String} {id : UInt64} (hid : c.contains id = false) :
    remove ⟨file, c⟩ id disk = ⟨.ok false, ⟨file, c⟩, disk⟩ := by
  simp only [remove, hid, Bool.false_eq_true, if_false]

/-- A change whose file is written. -/
theorem change_of_written {q : Change} {written : Disk} (hq : q.Writes c)
    (h : disk.write? path (q.effect c).toSnapshot.encode = some written) :
    change ⟨some path, c⟩ disk q = ⟨.ok (q.reply c), ⟨some path, q.effect c⟩, written⟩ := by
  cases q with
  | insert d =>
    rw [change, insert_of_written h]
    rfl
  | remove id =>
    have hid : c.contains id = true := hq
    rw [change, remove_of_written hid h, Change.reply, hid]
    rfl

theorem change_of_unwritable {q : Change} (hq : q.Writes c)
    (h : disk.write? path (q.effect c).toSnapshot.encode = none) :
    change ⟨some path, c⟩ disk q = ⟨.error (.io path), ⟨some path, q.effect c⟩,
      disk.afterFailure path (q.effect c).toSnapshot.encode⟩ := by
  cases q with
  | insert d =>
    rw [change, insert_of_unwritable h]
    rfl
  | remove id =>
    rw [change, remove_of_unwritable hq h]
    rfl

theorem change_of_not_writes {file : Option String} {q : Change} (hq : ¬ q.Writes c) :
    change ⟨file, c⟩ disk q = ⟨.ok (q.reply c), ⟨file, q.effect c⟩, disk⟩ := by
  rw [Change.effect_of_not_writes hq]
  cases q with
  | insert d => exact absurd trivial hq
  | remove id =>
    have hid : c.contains id = false := by simpa [Change.Writes] using hq
    rw [change, remove_of_missing hid, Change.reply, hid]
    rfl

/-- In memory a change cannot fail. -/
theorem change_in_memory (q : Change) :
    change ⟨none, c⟩ disk q = ⟨.ok (q.reply c), ⟨none, q.effect c⟩, disk⟩ := by
  by_cases hq : q.Writes c
  · cases q with
    | insert d => rfl
    | remove id =>
      have hq : c.contains id = true := hq
      simp [change, remove, save, hq, Change.reply, Change.effect, Except.map]
  · exact change_of_not_writes hq

theorem change_state {file : Option String} (q : Change) :
    (change ⟨file, c⟩ disk q).state = ⟨file, q.effect c⟩ := by
  cases file with
  | none => rw [change_in_memory]
  | some path =>
    by_cases hq : q.Writes c
    · cases h : disk.write? path (q.effect c).toSnapshot.encode with
      | none => rw [change_of_unwritable hq h]
      | some written => rw [change_of_written hq h]
    · rw [change_of_not_writes hq]

/-- A change fails only where the file cannot be written, and leaves what that leaves. -/
theorem change_eq_error {q : Change} {e : CatalogError} (h : (change ⟨some path, c⟩ disk q).answer = .error e) :
    q.Writes c ∧ e = .io path ∧ disk.write? path (q.effect c).toSnapshot.encode = none ∧
      (change ⟨some path, c⟩ disk q).disk = disk.afterFailure path (q.effect c).toSnapshot.encode := by
  by_cases hq : q.Writes c
  · cases hw : disk.write? path (q.effect c).toSnapshot.encode with
    | none =>
      rw [change_of_unwritable hq hw] at h ⊢
      exact ⟨hq, (Except.error.inj h).symm, rfl, rfl⟩
    | some written =>
      rw [change_of_written hq hw] at h
      contradiction
  · rw [change_of_not_writes hq] at h
    contradiction

/-- After a change that was to be written and did not fail, the file holds its effect. -/
theorem content_of_change {q : Change} {reply : Reply} (hq : q.Writes c)
    (h : (change ⟨some path, c⟩ disk q).answer = .ok reply) :
    (change ⟨some path, c⟩ disk q).disk.content path = .ok (q.effect c).toSnapshot.encode := by
  cases hw : disk.write? path (q.effect c).toSnapshot.encode with
  | none =>
    rw [change_of_unwritable hq hw] at h
    contradiction
  | some written =>
    rw [change_of_written hq hw]
    exact Disk.content_of_write? hw

/-- The file holds the effect of a change, is left alone or has lost what it held. -/
theorem change_disk (q : Change) :
    let left := (change ⟨some path, c⟩ disk q).disk
    left = disk ∨ left.content path = .ok (q.effect c).toSnapshot.encode ∨
      Disk.BrokenOff path (q.effect c).toSnapshot.encode disk left := by
  intro left
  by_cases hq : q.Writes c
  · cases h : (change ⟨some path, c⟩ disk q).answer with
    | error e =>
      obtain ⟨-, -, hw, hleft⟩ := change_eq_error h
      rw [show left = _ from hleft]
      exact (Disk.afterFailure_cases hw).imp_right .inr
    | ok reply => exact .inr (.inl (content_of_change hq h))
  · rw [show left = disk from congrArg Outcome.disk (change_of_not_writes hq)]
    exact .inl rfl

/-- What is missing something at the end opens as no catalog. -/
theorem not_opens_of_brokenOff {after : Disk} {snapshot : Snapshot} (h : Disk.BrokenOff path snapshot.encode disk after)
    (c : Catalog) : ¬ Opens (after.content path) c := by
  rcases h.front with hunreadable | ⟨held, hcontent, missing, hne, hmissing⟩
  · rw [hunreadable]
    nofun
  · rw [hcontent]
    rintro ⟨⟩
    rename_i hdecode _
    rw [Snapshot.decode?_of_missing hmissing hne] at hdecode
    contradiction

theorem load_eq_ok_iff {s : Shelf} :
    load path disk = .ok s ↔ s.file = some path ∧ Opens (disk.read path) s.catalog := by
  obtain ⟨file, c⟩ := s
  constructor
  · intro h
    unfold load at h
    split at h
    · rename_i hread
      obtain ⟨rfl, rfl⟩ := Shelf.mk.inj (Except.ok.inj h)
      rw [hread]
      exact ⟨rfl, .missing⟩
    · contradiction
    · rename_i text hread
      split at h
      · contradiction
      · rename_i snapshot hdecode
        split at h
        · contradiction
        · rename_i opened hopened
          obtain ⟨rfl, rfl⟩ := Shelf.mk.inj (Except.ok.inj h)
          rw [hread]
          exact ⟨rfl, .text hdecode hopened⟩
  · rintro ⟨rfl, hopens⟩
    unfold load
    cases hread : disk.read path with
    | error e =>
      rw [hread] at hopens
      cases hopens
      rfl
    | ok text =>
      rw [hread] at hopens
      cases hopens with
      | text hdecode hopened => simp only [hdecode, hopened]

theorem load_ok {s : Shelf} (h : load path disk = .ok s) :
    s.file = some path ∧ (s.catalog = .empty ∨ ∃ snapshot, Catalog.ofSnapshot snapshot = .ok s.catalog) := by
  obtain ⟨hfile, hopens⟩ := load_eq_ok_iff.mp h
  refine ⟨hfile, ?_⟩
  generalize disk.read path = content, s.catalog = opened at hopens
  cases hopens with
  | missing => exact .inl rfl
  | text _ hopened => exact .inr ⟨_, hopened⟩

theorem not_hides_of_load {s : Shelf} (h : load path disk = .ok s) : disk.hides path = false := by
  apply Disk.not_hides_of_read
  intro hunreadable
  rw [load, hunreadable] at h
  contradiction

/-- A shelf is opened from what the file holds. -/
theorem opens_of_load {s : Shelf} (h : load path disk = .ok s) : Opens (disk.content path) s.catalog := by
  rw [← Disk.read_of_not_hides (not_hides_of_load h)]
  exact (load_eq_ok_iff.mp h).2

theorem opens_encode (hc : c.Ordered) : Opens (.ok c.toSnapshot.encode) c :=
  .text (Snapshot.decode?_encode _) (Catalog.ofSnapshot_toSnapshot hc)

theorem opens_unique {content : Except ReadFailure String} {c c' : Catalog} (h : Opens content c)
    (h' : Opens content c') : c = c' := by
  cases h with
  | missing =>
    cases h'
    rfl
  | text hdecode hopened =>
    cases h' with
    | text hdecode' hopened' =>
      obtain rfl := Option.some.inj (hdecode.symm.trans hdecode')
      exact Except.ok.inj (hopened.symm.trans hopened')

/-- Opening the file that a catalog in order was written to. -/
theorem load_of_read (hc : c.Ordered) (h : disk.read path = .ok c.toSnapshot.encode) :
    load path disk = .ok ⟨some path, c⟩ := by
  rw [load_eq_ok_iff, h]
  exact ⟨rfl, opens_encode hc⟩

theorem serve_reopen_of_load {opened : Shelf} (h : load path disk = .ok opened) :
    serve ⟨some path, c⟩ disk .reopen = ⟨.ok .reopened, opened, disk⟩ := by
  have hreload : reload ⟨some path, c⟩ disk = .ok opened := h
  rw [serve, hreload]

/-- Where the file cannot be opened again the old handle is kept. -/
theorem serve_reopen_of_error {e : CatalogError} (h : load path disk = .error e) :
    serve ⟨some path, c⟩ disk .reopen = ⟨.error e, ⟨some path, c⟩, disk⟩ := by
  have hreload : reload ⟨some path, c⟩ disk = .error e := h
  rw [serve, hreload]

/-- What a request can make of a shelf. -/
theorem serve_state (q : Request) :
    (serve ⟨some path, c⟩ disk q).state = ⟨some path, c⟩ ∨
      (∃ d, q = .change d ∧ (serve ⟨some path, c⟩ disk q).state = ⟨some path, d.effect c⟩) ∨
      (q = .reopen ∧ load path disk = .ok (serve ⟨some path, c⟩ disk q).state) := by
  cases q with
  | change d => exact .inr (.inl ⟨d, rfl, change_state d⟩)
  | get id => exact .inl rfl
  | list => exact .inl rfl
  | reopen =>
    cases h : load path disk with
    | error e =>
      rw [serve_reopen_of_error h]
      exact .inl rfl
    | ok opened =>
      rw [serve_reopen_of_load h]
      exact .inr (.inr ⟨rfl, rfl⟩)

/-- Opened from a file and then served, on a disk that may be another one each time. Every catalog on the
way meets `P`. -/
inductive Reachable (path : String) (P : Catalog → Prop) : Shelf → Prop where
  | opened {disk : Disk} {s : Shelf} (h : load path disk = .ok s) (hP : P s.catalog) : Reachable path P s
  | served {s : Shelf} (hs : Reachable path P s) (disk : Disk) (q : Request)
      (hP : P (s.serve disk q).state.catalog) : Reachable path P (s.serve disk q).state

theorem file_of_reachable {P : Catalog → Prop} {s : Shelf} (h : Reachable path P s) : s.file = some path := by
  induction h with
  | opened h => exact (load_ok h).1
  | @served s hs disk q hP ih =>
    obtain ⟨file, c⟩ := s
    obtain rfl : file = some path := ih
    rcases @serve_state path c disk q with hsame | ⟨d, -, hchange⟩ | ⟨-, hload⟩
    · rw [hsame]
    · rw [hchange]
    · exact (load_ok hload).1

theorem ordered_of_load {s : Shelf} (h : load path disk = .ok s) (hfits : s.catalog.Fits) : s.catalog.Ordered := by
  rcases (load_ok h).2 with hempty | ⟨snapshot, hsnapshot⟩
  · rw [hempty]
    exact Catalog.ordered_empty
  · exact Catalog.ordered_ofSnapshot hsnapshot hfits

/-- While every id has a successor, the catalog in memory stays in order. -/
theorem ordered_of_reachable {s : Shelf} (h : Reachable path Catalog.Fits s) : s.catalog.Ordered := by
  induction h with
  | opened h hfits => exact ordered_of_load h hfits
  | @served s hs disk q hfits ih =>
    obtain ⟨file, c⟩ := s
    obtain rfl : file = some path := file_of_reachable hs
    rcases @serve_state path c disk q with hsame | ⟨d, -, hchange⟩ | ⟨-, hload⟩
    · rw [hsame]
      exact ih
    · rw [hchange] at hfits ⊢
      exact Change.ordered_effect ih hfits
    · exact ordered_of_load hload hfits

/-- The shelf after changes, each on the disk of its moment. -/
def changed (s : Shelf) (later : List (Change × Disk)) : Shelf :=
  later.foldl (fun s moment => (s.change moment.2 moment.1).state) s

end Shelf

end Criterion
