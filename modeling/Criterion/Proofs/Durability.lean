import Criterion.Proofs.History

/-! Shelves whose file cannot always be read or written. A change that could not be written stays in memory,
and opening the file again takes the shelf back to what was written last, so the catalog in memory and the one
in the file drift apart and meet again. Whatever was answered with success is in both, and the next id of the
file, which never lies above the one in memory, lies above every id that was given out with success. -/
namespace Criterion

namespace History

/-- The records that were inserted with success, the earliest first. -/
def stored (h : History) : List Record :=
  h.filterMap fun
    | (.change (.insert _), .ok (.inserted r)) => some r
    | _ => none

/-- The record was inserted with success, and nobody has tried to remove its id since. -/
def Kept (h : History) (r : Record) : Prop :=
  ∃ before d after, h = before ++ (.change (.insert d), .ok (.inserted r)) :: after ∧
    ∀ e ∈ after, e.1 ≠ .change (.remove r.id)

/-- The entry of a request that inserted nothing, or was answered with a failure. -/
def Barren (e : Request × Except CatalogError Reply) : Prop :=
  ∀ d r, e ≠ (.change (.insert d), .ok (.inserted r))

variable {h : History} {e : Request × Except CatalogError Reply} {r : Record}

theorem kept_append (hk : Kept (h ++ [e]) r) :
    (h.Kept r ∧ e.1 ≠ .change (.remove r.id)) ∨ ∃ d, e = (.change (.insert d), .ok (.inserted r)) := by
  obtain ⟨before, d, after, heq, hafter⟩ := hk
  rcases List.eq_nil_or_concat after with rfl | ⟨middle, last, rfl⟩
  · obtain ⟨-, he⟩ := List.append_inj' heq rfl
    exact .inr ⟨d, List.head_eq_of_cons_eq he⟩
  · rw [List.concat_eq_append, ← List.cons_append, ← List.append_assoc] at heq
    obtain ⟨rfl, he⟩ := List.append_inj' heq rfl
    obtain rfl := List.head_eq_of_cons_eq he
    exact .inl ⟨⟨before, d, middle, rfl, fun x hx => hafter x (by simp [hx])⟩, hafter _ (by simp)⟩

theorem kept_of_barren (he : Barren e) (hk : Kept (h ++ [e]) r) : h.Kept r ∧ e.1 ≠ .change (.remove r.id) := by
  rcases kept_append hk with hk | ⟨d, hd⟩
  · exact hk
  · exact absurd hd (he d r)

theorem stored_append (he : Barren e) : stored (h ++ [e]) = h.stored := by
  have hnone : stored [e] = [] := by
    rw [stored, List.filterMap_eq_nil_iff]
    intro x hx
    obtain rfl := List.mem_singleton.mp hx
    split
    · exact absurd rfl (he _ _)
    · rfl
  rw [stored, List.filterMap_append, ← stored, ← stored, hnone, List.append_nil]

theorem stored_insert (d : Draft) : stored (h ++ [(.change (.insert d), .ok (.inserted r))]) = h.stored ++ [r] := by
  simp [stored]

end History

namespace Shelf

/-- Nobody else writes the file: it holds the content, or no text can be found there for the time being. -/
def Undamaged (path : String) (content : Except ReadFailure String) (found : Disk) : Prop :=
  found.content path = content ∨ found.content path = .error .unreadable

/-- What the file holds if it held the content before. -/
def holding (path : String) (content : Except ReadFailure String) (left : Disk) : Except ReadFailure String :=
  match left.content path with
  | .error .unreadable => content
  | other => other

/-- Requests to a shelf that was opened from a file with the content `first`, or with `first` missing. Each
request finds a disk of its own, on which the file may be unreadable and on which writing it may fail. Every
catalog on the way has room for further ids. -/
inductive Unsteady (path : String) (first : Except ReadFailure String) :
    Shelf → Except ReadFailure String → History → Prop where
  | opened {disk : Disk} {s : Shelf} (hload : load path disk = .ok s) (hfirst : disk.read path = first)
      (hfits : s.catalog.Fits) : Unsteady path first s first []
  | served {s : Shelf} {content : Except ReadFailure String} {past : History}
      (h : Unsteady path first s content past) (found : Disk) (q : Request)
      (hfound : Undamaged path content found) (hfits : (s.serve found q).state.catalog.Fits) :
      Unsteady path first (s.serve found q).state (holding path content (s.serve found q).disk)
        (past ++ [(q, (s.serve found q).answer)])

/-- The catalog has what the history promises, and all ids that were ever given out with success, or were in
the file at first, lie below its next one. -/
structure Covers (c : Catalog) (old : List Record) (past : History) : Prop where
  ordered : c.Ordered
  below : ∀ r ∈ old ++ past.stored, r.id < c.nextId
  kept : ∀ r, past.Kept r → c.get? r.id = some r

/-- Both the catalog in memory and the one that the file opens as have what the history promises. -/
structure Lasting (path : String) (old : List Record) (s : Shelf) (content : Except ReadFailure String)
    (past : History) : Prop where
  file : s.file = some path
  memory : Covers s.catalog old past
  written : ∀ filed, Opens content filed → Covers filed old past
  ascending : Catalog.Ascending (old ++ past.stored)

section Covering

variable {c : Catalog} {old : List Record} {past : History} {e : Request × Except CatalogError Reply}

theorem covers_append (h : Covers c old past) (he : History.Barren e) : Covers c old (past ++ [e]) := by
  refine ⟨h.ordered, ?_, fun r hr => h.kept r (History.kept_of_barren he hr).1⟩
  rw [History.stored_append he]
  exact h.below

theorem nextId_lt_insert (hc : c.Ordered) {d : Draft} (hfits : (c.insert d).2.Fits) :
    c.nextId < (c.insert d).2.nextId := by
  have hnew : d.numbered c.nextId ∈ (c.insert d).2.records := by simp [Catalog.insert_records hc]
  exact (Catalog.ordered_insert hc d hfits).below _ hnew

/-- A change acts on the catalog in memory whether or not it could be written. -/
theorem covers_effect (h : Covers c old past) {q : Change} {answer : Except CatalogError Reply}
    (he : History.Barren (.change q, answer)) (hfits : (q.effect c).Fits) :
    Covers (q.effect c) old (past ++ [(.change q, answer)]) := by
  refine ⟨Change.ordered_effect h.ordered hfits, fun r hr => ?_, fun r hr => ?_⟩
  · rw [History.stored_append he] at hr
    cases q with
    | insert d => exact UInt64.lt_trans (h.below r hr) (nextId_lt_insert h.ordered hfits)
    | remove id => exact h.below r hr
  · obtain ⟨hr, hremove⟩ := History.kept_of_barren he hr
    exact Change.get?_effect h.ordered (h.kept r hr) fun hq => hremove (congrArg Request.change hq)

theorem covers_insert (h : Covers c old past) (d : Draft) (hfits : (c.insert d).2.Fits) :
    Covers (c.insert d).2 old (past ++ [(.change (.insert d), .ok (.inserted (d.numbered c.nextId)))]) := by
  have hlt := nextId_lt_insert h.ordered hfits
  refine ⟨Catalog.ordered_insert h.ordered d hfits, fun r hr => ?_, fun r hr => ?_⟩
  · rw [History.stored_insert, ← List.append_assoc, List.mem_append, List.mem_singleton] at hr
    rcases hr with hr | rfl
    · exact UInt64.lt_trans (h.below r hr) hlt
    · exact hlt
  · rcases History.kept_append hr with ⟨hr, -⟩ | ⟨d', hd⟩
    · exact Change.get?_effect (q := .insert d) h.ordered (h.kept r hr) nofun
    · obtain rfl : d.numbered c.nextId = r := by simpa using congrArg Prod.snd hd
      exact c.get?_insert_self d

/-- A successful insertion is given an id above all before it. -/
theorem ascending_insert (h : Covers c old past) (hascending : Catalog.Ascending (old ++ past.stored)) (d : Draft) :
    Catalog.Ascending
      (old ++ History.stored (past ++ [(.change (.insert d), .ok (.inserted (d.numbered c.nextId)))])) := by
  rw [History.stored_insert, ← List.append_assoc, Catalog.Ascending, List.pairwise_append]
  refine ⟨hascending, by simp, fun r hr s hs => ?_⟩
  rw [List.mem_singleton.mp hs]
  exact h.below r hr

end Covering

section Lasting

variable {path : String} {old : List Record} {c : Catalog} {s : Shelf} {content first : Except ReadFailure String}
  {past : History} {disk found : Disk}

theorem holding_of_undamaged (h : Undamaged path content found) : holding path content found = content := by
  unfold holding
  rcases h with h | h
  · rw [h]
    split
    · rfl
    · rfl
  · rw [h]

theorem holding_of_content {text : String} (h : disk.content path = .ok text) :
    holding path content disk = .ok text := by
  rw [holding, h]

/-- What has lost something may go on as what it was. -/
theorem opens_of_holding {after : Disk} {snapshot : Snapshot} {filed : Catalog}
    (h : Disk.BrokenOff path snapshot.encode disk after) (hopens : Opens (holding path content after) filed) :
    Opens content filed := by
  unfold holding at hopens
  split at hopens
  · exact hopens
  · exact absurd hopens (not_opens_of_brokenOff h filed)

/-- A file that holds a catalog opens as this one. -/
theorem covers_of_opens (h : Covers c old past) (filed : Catalog) (hopens : Opens (.ok c.toSnapshot.encode) filed) :
    Covers filed old past := by
  obtain rfl := opens_unique (opens_encode h.ordered) hopens
  exact h

/-- An insertion with success is in the file. Any other change is barren, and it is in the file too, leaves the disk
alone or is broken off. -/
theorem change_cases (path : String) (c : Catalog) (found : Disk) (q : Change) :
    let o := change ⟨some path, c⟩ found q
    (∃ d, q = .insert d ∧ o.answer = .ok (.inserted (d.numbered c.nextId)) ∧
      o.disk.content path = .ok (q.effect c).toSnapshot.encode) ∨
    (History.Barren (.change q, o.answer) ∧
      (o.disk = found ∨ o.disk.content path = .ok (q.effect c).toSnapshot.encode ∨
        Disk.BrokenOff path (q.effect c).toSnapshot.encode found o.disk)) := by
  intro o
  cases q with
  | remove id =>
    refine .inr ⟨?_, change_disk (.remove id)⟩
    simp [History.Barren]
  | insert d =>
    cases hw : found.write? path (c.insert d).2.toSnapshot.encode with
    | some written =>
      have ho : o = ⟨.ok (.inserted (d.numbered c.nextId)), ⟨some path, (c.insert d).2⟩, written⟩ :=
        change_of_written (q := .insert d) trivial hw
      rw [ho]
      exact .inl ⟨d, rfl, rfl, Disk.content_of_write? hw⟩
    | none =>
      have ho : o.answer = .error (.io path) := congrArg Outcome.answer (change_of_unwritable (q := .insert d) trivial hw)
      rw [ho]
      exact .inr ⟨by simp [History.Barren], change_disk (.insert d)⟩

theorem lasting_change (h : Lasting path old ⟨some path, c⟩ content past) (q : Change)
    (hfound : Undamaged path content found) (hfits : (q.effect c).Fits) :
    let o := change ⟨some path, c⟩ found q
    Lasting path old o.state (holding path content o.disk) (past ++ [(.change q, o.answer)]) := by
  intro o
  have hstate : o.state = ⟨some path, q.effect c⟩ := change_state q
  rw [hstate]
  rcases change_cases path c found q with ⟨d, rfl, hanswer, hcontent⟩ | ⟨hbarren, hdisk⟩
  · have hcovers := covers_insert h.memory d hfits
    rw [hanswer, holding_of_content hcontent]
    exact ⟨rfl, hcovers, covers_of_opens hcovers, ascending_insert h.memory h.ascending d⟩
  · have hcovers := covers_effect h.memory hbarren hfits
    have hold (filed : Catalog) (hopens : Opens content filed) : Covers filed old (past ++ [(.change q, o.answer)]) :=
      covers_append (h.written filed hopens) hbarren
    refine ⟨rfl, hcovers, ?_, ?_⟩
    · rcases hdisk with hsame | hcontent | hbroken
      · rw [hsame, holding_of_undamaged hfound]
        exact hold
      · rw [holding_of_content hcontent]
        exact covers_of_opens hcovers
      · exact fun filed hopens => hold filed (opens_of_holding hbroken hopens)
    · rw [History.stored_append hbarren]
      exact h.ascending

theorem lasting_unchanged (h : Lasting path old ⟨some path, c⟩ content past)
    {e : Request × Except CatalogError Reply} (he : History.Barren e) (hfound : Undamaged path content found) :
    Lasting path old ⟨some path, c⟩ (holding path content found) (past ++ [e]) := by
  rw [holding_of_undamaged hfound]
  refine ⟨rfl, covers_append h.memory he, fun filed hopens => covers_append (h.written filed hopens) he, ?_⟩
  rw [History.stored_append he]
  exact h.ascending

/-- Opening the file again takes the shelf to the catalog in the file. -/
theorem lasting_reopened (h : Lasting path old ⟨some path, c⟩ content past)
    {e : Request × Except CatalogError Reply} (he : History.Barren e) (hfound : Undamaged path content found)
    (hload : load path found = .ok s) : Lasting path old s (holding path content found) (past ++ [e]) := by
  obtain ⟨file, opened⟩ := s
  obtain rfl : file = some path := (load_ok hload).1
  have hopens : Opens (found.content path) opened := opens_of_load hload
  rcases hfound with hcontent | hunreadable
  · rw [hcontent] at hopens
    exact lasting_unchanged ⟨rfl, h.written opened hopens, h.written, h.ascending⟩ he (.inl hcontent)
  · rw [hunreadable] at hopens
    contradiction

theorem lasting_serve (h : Lasting path old s content past) (q : Request) (hfound : Undamaged path content found)
    (hfits : (s.serve found q).state.catalog.Fits) :
    Lasting path old (s.serve found q).state (holding path content (s.serve found q).disk)
      (past ++ [(q, (s.serve found q).answer)]) := by
  obtain ⟨file, c⟩ := s
  obtain rfl : file = some path := h.file
  cases q with
  | change q =>
    refine lasting_change h q hfound ?_
    rw [serve, change_state] at hfits
    exact hfits
  | get id => exact lasting_unchanged h (by simp [History.Barren]) hfound
  | list => exact lasting_unchanged h (by simp [History.Barren]) hfound
  | reopen =>
    cases hload : load path found with
    | error e =>
      rw [serve_reopen_of_error hload]
      exact lasting_unchanged h (by simp [History.Barren]) hfound
    | ok opened =>
      rw [serve_reopen_of_load hload]
      exact lasting_reopened h (by simp [History.Barren]) hfound hload

theorem lasting_run (h : Unsteady path first s content past) :
    ∃ initial, Opens first initial ∧ Lasting path initial.records s content past := by
  induction h with
  | @opened disk s hload hfirst hfits =>
    have hordered := ordered_of_load hload hfits
    obtain ⟨hfile, hopens⟩ := load_eq_ok_iff.mp hload
    have hcovers : Covers s.catalog s.catalog.records [] := by
      refine ⟨hordered, ?_, ?_⟩
      · simpa [History.stored] using hordered.below
      · rintro r ⟨before, d, after, hnil, -⟩
        simp at hnil
    rw [hfirst] at hopens
    refine ⟨s.catalog, hopens, hfile, hcovers, fun filed hfiled => ?_, ?_⟩
    · obtain rfl := opens_unique hopens hfiled
      exact hcovers
    · simpa [History.stored] using hordered.ascending
  | served _ found q hfound hfits ih =>
    obtain ⟨initial, hinitial, hlasting⟩ := ih
    exact ⟨initial, hinitial, lasting_serve hlasting q hfound hfits⟩

/-- Ids that are given out with success ascend through all failures, from above the ids that were in the file at
first. Whatever was inserted with success is there until somebody tries to remove it. -/
theorem unsteady_lasting (h : Unsteady path first s content past) :
    Catalog.Ascending past.stored ∧
      (∀ text snapshot, first = .ok text → Snapshot.decode? text = some snapshot →
        ∀ o ∈ snapshot.records, ∀ r ∈ past.stored, o.id < r.id) ∧
      ∀ r, past.Kept r → ∀ found, (s.serve found (.get r.id)).answer = .ok (.got (some r)) := by
  obtain ⟨initial, hinitial, hlasting⟩ := lasting_run h
  obtain ⟨-, hstored, hbetween⟩ := List.pairwise_append.mp hlasting.ascending
  refine ⟨hstored, fun text snapshot hfirst hdecode o ho r hr => hbetween o ?_ r hr, fun r hr found => ?_⟩
  · rw [hfirst] at hinitial
    cases hinitial with
    | text hdecode' hopened =>
      obtain rfl := Option.some.inj (hdecode.symm.trans hdecode')
      exact (Catalog.mem_ofSnapshot hopened).mpr ho
  · rw [serve, hlasting.memory.kept r hr]

/-- The file has a next id that is out of date. It refuses to be written at the second insertion and to be read when it
is first opened again. When it is opened after that the third insertion is given the id that the second one would have
had. -/
theorem unsteady_lasting_refused :
    let a : Draft := ⟨"a", "flag", "t"⟩
    let old : Snapshot := ⟨Snapshot.supportedSchema, 1, [a.numbered 7]⟩
    let past : History := [(.change (.insert a), .ok (.inserted (a.numbered 8))),
      (.change (.insert a), .error (.io "s.json")), (.reopen, .error (.io "s.json")), (.reopen, .ok .reopened),
      (.change (.insert a), .ok (.inserted (a.numbered 9)))]
    ∃ s content, Unsteady "s.json" (.ok old.encode) s content past ∧ past.Kept (a.numbered 8) ∧
      past.stored = [a.numbered 8, a.numbered 9] ∧ (∀ r ∈ past.stored, 7 < r.id) ∧
      ∀ found, (s.serve found (.get 8)).answer = .ok (.got (some (a.numbered 8))) := by
  intro a old past
  let start : Catalog := ⟨8, [a.numbered 7]⟩
  let one := (Change.insert a).effect start
  let before : Disk := { entries := [(["s.json"], .text old.encode)] }
  have hserved {s t : Shelf} {content : Except ReadFailure String} {past : History} {found left : Disk}
      {answer : Except CatalogError Reply} (h : Unsteady "s.json" (.ok old.encode) s content past) (q : Request)
      (hfound : Undamaged "s.json" content found) (hserve : s.serve found q = ⟨answer, t, left⟩)
      (hfits : t.catalog.Fits) :
      Unsteady "s.json" (.ok old.encode) t (holding "s.json" content left) (past ++ [(q, answer)]) := by
    have hnext := h.served found q hfound (by rwa [hserve])
    rwa [hserve] at hnext
  have hwritable : before.Writable "s.json" := fun _ => ⟨_, rfl⟩
  obtain ⟨disk, hwrite⟩ := hwritable one.toSnapshot.encode
  obtain ⟨written, hagain⟩ := Disk.writable_of_write? hwritable hwrite (one.insert a).2.toSnapshot.encode
  have hcontent : disk.content "s.json" = .ok one.toSnapshot.encode := Disk.content_of_write? hwrite
  have hread : disk.read "s.json" = .ok one.toSnapshot.encode := Disk.read_of_write? rfl hwrite
  have hload : load "s.json" before = .ok ⟨some "s.json", start⟩ :=
    load_eq_ok_iff.mpr ⟨rfl, .text (Snapshot.decode?_encode old) rfl⟩
  have hstart : start.Ordered := ordered_of_load hload (by decide)
  have hone : one.Ordered := Catalog.ordered_insert hstart a (by decide)
  let unwritable := disk.refuseWriting "s.json"
  let unreadable := disk.refuseReading "s.json"
  have hunwritable : unwritable.content "s.json" = .ok one.toSnapshot.encode :=
    (Disk.content_of_entries disk unwritable rfl _).trans hcontent
  have hunreadable : unreadable.content "s.json" = .ok one.toSnapshot.encode :=
    (Disk.content_of_entries disk unreadable rfl _).trans hcontent
  have hrefused : load "s.json" unreadable = .error (.io "s.json") := by
    rw [load, Disk.read_refuseReading hcontent]
  have h0 : Unsteady "s.json" (.ok old.encode) ⟨some "s.json", start⟩ _ [] := .opened hload rfl (by decide)
  have h1 := hserved h0 (.change (.insert a)) (.inl rfl) (change_of_written (q := .insert a) trivial hwrite) (by decide)
  rw [holding_of_content hcontent] at h1
  have h2 := hserved h1 (.change (.insert a)) (.inl hunwritable)
    (change_of_unwritable (q := .insert a) trivial (disk.write?_refuseWriting _ _)) (by decide)
  rw [Disk.afterFailure_refuseWriting, holding_of_content hunwritable] at h2
  have h3 := hserved h2 .reopen (.inl hunreadable) (serve_reopen_of_error hrefused) (by decide)
  rw [holding_of_content hunreadable] at h3
  have h4 := hserved h3 .reopen (.inl hcontent) (serve_reopen_of_load (load_of_read hone hread)) (by decide)
  rw [holding_of_content hcontent] at h4
  have h5 := hserved h4 (.change (.insert a)) (.inl hcontent) (change_of_written (q := .insert a) trivial hagain) (by decide)
  have hkept : past.Kept (a.numbered 8) := ⟨[], a, _, rfl, by simp⟩
  obtain ⟨-, habove, hget⟩ := unsteady_lasting h5
  have hold := habove _ _ rfl (Snapshot.decode?_encode old) (a.numbered 7) (by simp [old])
  exact ⟨_, _, h5, hkept, rfl, hold, hget _ hkept⟩

end Lasting

end Shelf

end Criterion
