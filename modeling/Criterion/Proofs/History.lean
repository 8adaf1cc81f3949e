import Criterion.Proofs.Shelf
import Mathlib.Algebra.Group.Nat.Defs

/-! Histories of a shelf. A history is the requests so far with their answers; it dictates which records are
live and what the next request is answered. A shelf answers as its history dictates, whether its records are
in memory only or in a file that is opened again at any time. -/
namespace Criterion

/-- The requests with the answers they got, the earliest first. -/
abbrev History := List (Request × Except CatalogError Reply)

namespace History

def drafts (h : History) : List Draft :=
  h.filterMap fun
    | (.change (.insert d), _) => some d
    | _ => none

/-- The first record has the id 1, the second the id 2, and so on. -/
def inserted (h : History) : List Record := h.drafts.mapIdx fun k d => d.numbered (.ofNat (k + 1))

/-- The ids that were found and removed. -/
def removed (h : History) : List UInt64 :=
  h.filterMap fun
    | (.change (.remove id), .ok (.removed true)) => some id
    | _ => none

def live (h : History) : List Record := h.inserted.filter fun r => r.id ∉ h.removed

/-- The answer to a request after this history. -/
def dictates (h : History) : Request → Reply
  | .change (.insert d) => .inserted (d.numbered (.ofNat (h.drafts.length + 1)))
  | .change (.remove id) => .removed (h.live.any fun r => r.id = id)
  | .get id => .got (h.live.find? fun r => r.id = id)
  | .list => .listed h.live
  | .reopen => .reopened

/-- Every answer is the one that the history before it dictates. -/
inductive Dictated : History → Prop where
  | nil : Dictated []
  | snoc {past : History} (h : Dictated past) (q : Request) : Dictated (past ++ [(q, .ok (past.dictates q))])

/-- The history as it would be had the file never been opened again. -/
def unbroken (h : History) : History :=
  h.filter fun
    | (.reopen, _) => false
    | _ => true

variable {h past : History} {answer : Except CatalogError Reply}

theorem drafts_insert (d : Draft) : drafts (h ++ [(.change (.insert d), answer)]) = h.drafts ++ [d] := by
  simp [drafts]

theorem drafts_remove (id : UInt64) : drafts (h ++ [(.change (.remove id), answer)]) = h.drafts := by
  simp [drafts]

theorem removed_insert (d : Draft) : removed (h ++ [(.change (.insert d), answer)]) = h.removed := by
  simp [removed]

theorem removed_remove (id : UInt64) :
    removed (h ++ [(.change (.remove id), .ok (h.dictates (.change (.remove id))))]) =
      if h.live.any (fun r => r.id = id) then h.removed ++ [id] else h.removed := by
  cases hany : h.live.any fun r => r.id = id <;> simp [removed, dictates, hany]

theorem live_insert (d : Draft) (hfresh : UInt64.ofNat (h.drafts.length + 1) ∉ h.removed) :
    live (h ++ [(.change (.insert d), answer)]) = h.live ++ [d.numbered (.ofNat (h.drafts.length + 1))] := by
  rw [live, removed_insert, inserted, drafts_insert, List.mapIdx_concat, List.filter_append, live, inserted]
  congr 1
  exact List.filter_eq_self.mpr (by simpa [Draft.numbered] using hfresh)

theorem live_remove (id : UInt64) :
    live (h ++ [(.change (.remove id), .ok (h.dictates (.change (.remove id))))]) =
      h.live.filter fun r => r.id ≠ id := by
  rw [live, removed_remove, inserted, drafts_remove]
  split
  · rw [live, List.filter_filter, inserted]
    congr 1
    funext r
    by_cases hid : r.id = id <;> simp [hid]
  · rename_i hnone
    have hkept : h.live.filter (fun r => r.id ≠ id) = h.live :=
      List.filter_eq_self.mpr (by simpa using hnone)
    rw [hkept, live, inserted]

/-- Looking at the records leaves no trace, and neither does opening the file again. -/
theorem unchanged (h : History) (answer : Except CatalogError Reply) {q : Request} (hq : ∀ d, q ≠ .change d) :
    drafts (h ++ [(q, answer)]) = h.drafts ∧ removed (h ++ [(q, answer)]) = h.removed ∧
      live (h ++ [(q, answer)]) = h.live := by
  have hdrafts : drafts (h ++ [(q, answer)]) = h.drafts := by
    cases q with
    | change d => exact absurd rfl (hq d)
    | get | list | reopen => simp [drafts]
  have hremoved : removed (h ++ [(q, answer)]) = h.removed := by
    cases q with
    | change d => exact absurd rfl (hq d)
    | get | list | reopen => simp [removed]
  exact ⟨hdrafts, hremoved, by rw [live, live, inserted, inserted, hdrafts, hremoved]⟩

theorem dictates_unbroken (h : History) (q : Request) : h.unbroken.dictates q = h.dictates q := by
  have hdrafts : h.unbroken.drafts = h.drafts := by
    rw [drafts, drafts, unbroken, List.filterMap_filter]
    congr 1
    funext e
    obtain ⟨q, answer⟩ := e
    cases q <;> rfl
  have hremoved : h.unbroken.removed = h.removed := by
    rw [removed, removed, unbroken, List.filterMap_filter]
    congr 1
    funext e
    obtain ⟨q, answer⟩ := e
    cases q <;> rfl
  have hlive : h.unbroken.live = h.live := by rw [live, live, inserted, inserted, hdrafts, hremoved]
  cases q with
  | change d => cases d <;> simp only [dictates, hdrafts, hlive]
  | get id => simp only [dictates, hlive]
  | list => simp only [dictates, hlive]
  | reopen => rfl

theorem unbroken_append {q : Request} (hq : q ≠ .reopen) :
    unbroken (h ++ [(q, answer)]) = h.unbroken ++ [(q, answer)] := by
  cases q with
  | reopen => exact absurd rfl hq
  | change | get | list => simp [unbroken]

theorem dictated_unbroken (hd : Dictated h) : Dictated h.unbroken := by
  induction hd with
  | nil => exact .nil
  | @snoc past _ q ih =>
    by_cases hq : q = .reopen
    · subst hq
      simpa [unbroken] using ih
    · rw [unbroken_append hq, ← dictates_unbroken]
      exact ih.snoc q

end History

namespace Shelf

/-- Nobody else writes the file, and it can be written. -/
def Undisturbed (file : Option String) (left found : Disk) : Prop :=
  ∀ path ∈ file, found.read path = left.read path ∧ found.Writable path

/-- Requests to a new shelf in memory, or to one whose file does not exist at first. Each request finds the
file as the one before left it. Without a file there is nothing to open again. -/
inductive Run : Option String → Shelf → Disk → History → Prop where
  | inMemory (disk : Disk) : Run none inMemory disk []
  | opened {path : String} {disk : Disk} {s : Shelf} (hread : disk.read path = .error .missing)
      (hload : load path disk = .ok s) : Run (some path) s disk []
  | served {file : Option String} {s : Shelf} {left found : Disk} {past : History} (h : Run file s left past)
      (q : Request) (hfound : Undisturbed file left found) (hq : file = none → q ≠ .reopen) :
      Run file (s.serve found q).state (s.serve found q).disk (past ++ [(q, (s.serve found q).answer)])

/-- The catalog holds the live records of the history, and every id that was given out lies below the next
one. -/
structure Holds (c : Catalog) (h : History) : Prop where
  nextId : c.nextId = .ofNat (h.drafts.length + 1)
  records : c.records = h.live
  ordered : c.Ordered
  removed : ∀ id ∈ h.removed, id < c.nextId

section Holding

variable {c : Catalog} {h : History}

theorem holds_empty : Holds .empty [] := ⟨rfl, rfl, Catalog.ordered_empty, nofun⟩

theorem reply_of_holds (hc : Holds c h) (d : Change) : d.reply c = h.dictates (.change d) := by
  cases d with
  | insert d => rw [Change.reply, Catalog.insert, History.dictates, hc.nextId]
  | remove id => rw [Change.reply, Catalog.contains, History.dictates, hc.records]

theorem fits_insert (hc : Holds c h) (d : Draft) (hroom : h.drafts.length + 1 < 2 ^ 64 - 1) :
    (c.insert d).2.Fits := by
  have hnext : c.nextId.toNat = h.drafts.length + 1 := by
    rw [hc.nextId, UInt64.toNat_ofNat']
    omega
  intro r hr
  rw [Catalog.insert_records hc.ordered, List.mem_append, List.mem_singleton] at hr
  rcases hr with hr | rfl
  · have hlt := UInt64.lt_iff_toNat_lt.mp (hc.ordered.below r hr)
    simp only [UInt64.size]
    omega
  · simp only [Draft.numbered, UInt64.size]
    omega

theorem holds_insert (hc : Holds c h) (d : Draft) (answer : Except CatalogError Reply)
    (hroom : h.drafts.length + 1 < 2 ^ 64 - 1) : Holds (c.insert d).2 (h ++ [(.change (.insert d), answer)]) := by
  have hfits := fits_insert hc d hroom
  have hordered := Catalog.ordered_insert hc.ordered d hfits
  have hrecords := Catalog.insert_records hc.ordered d
  have hnext : c.nextId < (c.insert d).2.nextId := hordered.below (d.numbered c.nextId) (by simp [hrecords])
  refine ⟨?_, ?_, hordered, fun id hid => ?_⟩
  · rw [History.drafts_insert, Catalog.insert, hc.nextId]
    simp
  · have hfresh : UInt64.ofNat (h.drafts.length + 1) ∉ h.removed := by
      intro hmem
      have hlt := hc.removed _ hmem
      rw [hc.nextId] at hlt
      exact UInt64.lt_irrefl _ hlt
    rw [hrecords, History.live_insert d hfresh, hc.records, hc.nextId]
  · rw [History.removed_insert] at hid
    exact UInt64.lt_trans (hc.removed id hid) hnext

theorem holds_remove (hc : Holds c h) (id : UInt64) :
    Holds (c.erase id) (h ++ [(.change (.remove id), .ok (h.dictates (.change (.remove id))))]) := by
  refine ⟨?_, ?_, Catalog.ordered_erase hc.ordered id, fun other hother => ?_⟩
  · rw [History.drafts_remove]
    exact hc.nextId
  · rw [History.live_remove, ← hc.records, Catalog.erase]
  · rw [History.removed_remove] at hother
    split at hother
    · rename_i hany
      rcases List.mem_append.mp hother with hother | hother
      · exact hc.removed other hother
      · obtain rfl := List.mem_singleton.mp hother
        rw [← hc.records] at hany
        obtain ⟨r, hr, rfl⟩ := Catalog.contains_iff.mp hany
        exact hc.ordered.below r hr
    · exact hc.removed other hother

theorem holds_of_no_change (hc : Holds c h) {q : Request} (hq : ∀ d, q ≠ .change d)
    (answer : Except CatalogError Reply) : Holds c (h ++ [(q, answer)]) := by
  obtain ⟨hdrafts, hremoved, hlive⟩ := h.unchanged answer hq
  refine ⟨?_, ?_, hc.ordered, ?_⟩
  · rw [hdrafts, hc.nextId]
  · rw [hlive, hc.records]
  · rw [hremoved]
    exact hc.removed

end Holding

/-- Besides the catalog in memory there is the one in the file, the same unless nothing was ever written. -/
structure Follows (file : Option String) (s : Shelf) (disk : Disk) (h : History) : Prop where
  kept : s.file = file
  holds : Holds s.catalog h
  written : ∀ path ∈ file, disk.read path = .ok s.catalog.toSnapshot.encode ∨
    disk.read path = .error .missing ∧ s.catalog = .empty

variable {file : Option String} {s : Shelf} {disk left found : Disk} {past : History}

/-- Where the file can be read and written, a change does not fail, and the file holds its effect if it has any. -/
theorem change_of_writable {c : Catalog} (hreadable : ∀ path ∈ file, found.hides path = false)
    (hdisk : ∀ path ∈ file, found.Writable path) (d : Change) :
    (change ⟨file, c⟩ found d).answer = .ok (d.reply c) ∧ (change ⟨file, c⟩ found d).state = ⟨file, d.effect c⟩ ∧
      ∀ path ∈ file, (change ⟨file, c⟩ found d).disk.read path = .ok (d.effect c).toSnapshot.encode ∨
        (change ⟨file, c⟩ found d).disk = found ∧ d.effect c = c := by
  by_cases hd : d.Writes c
  · cases file with
    | none =>
      rw [change_in_memory]
      exact ⟨rfl, rfl, nofun⟩
    | some path =>
      obtain ⟨written, hwrite⟩ := hdisk path rfl (d.effect c).toSnapshot.encode
      rw [change_of_written hd hwrite]
      refine ⟨rfl, rfl, fun other hother => .inl ?_⟩
      obtain rfl := Option.some.inj hother
      exact Disk.read_of_write? (hreadable path rfl) hwrite
  · rw [change_of_not_writes hd]
    exact ⟨rfl, rfl, fun _ _ => .inr ⟨rfl, Change.effect_of_not_writes hd⟩⟩

theorem follows_change {c : Catalog} (h : Follows file ⟨file, c⟩ left past) (d : Change)
    (hfound : Undisturbed file left found)
    (hroom : (History.drafts (past ++ [(.change d, (change ⟨file, c⟩ found d).answer)])).length < 2 ^ 64 - 1) :
    (change ⟨file, c⟩ found d).answer = .ok (past.dictates (.change d)) ∧
      Follows file (change ⟨file, c⟩ found d).state (change ⟨file, c⟩ found d).disk
        (past ++ [(.change d, .ok (past.dictates (.change d)))]) := by
  have hreadable : ∀ path ∈ file, found.hides path = false := by
    intro path hp
    apply Disk.not_hides_of_read
    rw [(hfound path hp).1]
    rcases h.written path hp with hwritten | ⟨hmissing, -⟩
    · simp [hwritten]
    · simp [hmissing]
  obtain ⟨hanswer, hstate, hdisk⟩ := change_of_writable (c := c) hreadable (fun path hp => (hfound path hp).2) d
  rw [reply_of_holds h.holds] at hanswer
  rw [hstate]
  refine ⟨hanswer, rfl, ?_, fun path hp => ?_⟩
  · cases d with
    | insert d =>
      rw [History.drafts_insert, List.length_append] at hroom
      exact holds_insert h.holds d _ hroom
    | remove id => exact holds_remove h.holds id
  · rcases hdisk path hp with hread | ⟨hsame, heffect⟩
    · exact .inl hread
    · rw [hsame, heffect, (hfound path hp).1]
      exact h.written path hp

/-- Opening the file again gives the catalog that is in memory. -/
theorem load_of_follows {path : String} {c : Catalog} (h : Follows (some path) ⟨some path, c⟩ left past)
    (hfound : Undisturbed (some path) left found) : load path found = .ok ⟨some path, c⟩ := by
  have hread := (hfound path rfl).1
  rcases h.written path rfl with hwritten | ⟨hmissing, hempty⟩
  · exact load_of_read h.holds.ordered (hread.trans hwritten)
  · obtain rfl : c = .empty := hempty
    rw [load, hread, hmissing]

theorem follows_serve (h : Follows file s left past) (q : Request) (hfound : Undisturbed file left found)
    (hq : file = none → q ≠ .reopen)
    (hroom : (History.drafts (past ++ [(q, (s.serve found q).answer)])).length < 2 ^ 64 - 1) :
    (s.serve found q).answer = .ok (past.dictates q) ∧
      Follows file (s.serve found q).state (s.serve found q).disk (past ++ [(q, .ok (past.dictates q))]) := by
  obtain ⟨sfile, c⟩ := s
  obtain rfl : sfile = file := h.kept
  have hfile : ∀ path ∈ sfile, found.read path = .ok c.toSnapshot.encode ∨
      found.read path = .error .missing ∧ c = .empty := by
    intro path hp
    rw [(hfound path hp).1]
    exact h.written path hp
  cases q with
  | change d => exact follows_change h d hfound hroom
  | get id =>
    refine ⟨?_, rfl, holds_of_no_change h.holds (by simp) _, hfile⟩
    rw [serve, History.dictates, ← h.holds.records, Catalog.get?]
  | list =>
    refine ⟨?_, rfl, holds_of_no_change h.holds (by simp) _, hfile⟩
    rw [serve, History.dictates, ← h.holds.records]
  | reopen =>
    cases sfile with
    | none => exact absurd rfl (hq rfl)
    | some path =>
      rw [serve_reopen_of_load (load_of_follows h hfound)]
      exact ⟨rfl, rfl, holds_of_no_change h.holds (by simp) _, hfile⟩

theorem length_drafts_le {first : History} (h : first <+: past) : first.drafts.length ≤ past.drafts.length := by
  obtain ⟨later, rfl⟩ := h
  rw [History.drafts, History.drafts, List.filterMap_append, List.length_append]
  exact Nat.le_add_right _ _

theorem follows_run (h : Run file s disk past) (hroom : past.drafts.length < 2 ^ 64 - 1) :
    Follows file s disk past ∧ past.Dictated := by
  induction h with
  | inMemory disk => exact ⟨⟨rfl, holds_empty, nofun⟩, .nil⟩
  | @opened path disk s hread hload =>
    rw [load, hread] at hload
    obtain rfl := Except.ok.inj hload
    refine ⟨⟨rfl, holds_empty, fun other hother => .inr ⟨?_, rfl⟩⟩, .nil⟩
    obtain rfl := Option.some.inj hother
    exact hread
  | @served file s left found past _ q hfound hq ih =>
    have hlength := length_drafts_le (List.prefix_append past [(q, (s.serve found q).answer)])
    obtain ⟨hfollows, hdictated⟩ := ih (Nat.lt_of_le_of_lt hlength hroom)
    obtain ⟨hanswer, hnext⟩ := follows_serve hfollows q hfound hq hroom
    rw [hanswer]
    exact ⟨hnext, hdictated.snoc q⟩

theorem run_of_prefix {first : History} (h : Run file s disk past) (hfirst : first <+: past) :
    ∃ s disk, Run file s disk first := by
  induction h with
  | inMemory disk =>
    rw [List.prefix_nil.mp hfirst]
    exact ⟨_, disk, .inMemory disk⟩
  | opened hread hload =>
    rw [List.prefix_nil.mp hfirst]
    exact ⟨_, _, .opened hread hload⟩
  | served h q hfound hq ih =>
    rcases List.prefix_concat_iff.mp hfirst with rfl | hfirst
    · exact ⟨_, _, .served h q hfound hq⟩
    · exact ih hfirst

/-- While fewer than `2 ^ 64 - 1` records are inserted, a shelf answers every request as its history dictates,
and would answer the same had the file never been opened again. At every moment the live records stand in the
order of their ids. -/
theorem run_dictated (h : Run file s disk past) (hroom : past.drafts.length < 2 ^ 64 - 1) :
    past.Dictated ∧ past.unbroken.Dictated ∧ ∀ first : History, first <+: past → Catalog.Ascending first.live := by
  obtain ⟨-, hdictated⟩ := follows_run h hroom
  refine ⟨hdictated, History.dictated_unbroken hdictated, fun first hfirst => ?_⟩
  obtain ⟨s, disk, hrun⟩ := run_of_prefix h hfirst
  obtain ⟨hfollows, -⟩ := follows_run hrun (Nat.lt_of_le_of_lt (length_drafts_le hfirst) hroom)
  rw [← hfollows.holds.records]
  exact hfollows.holds.ordered.ascending

/-- A file that can be written can be written again. -/
theorem writable_serve {path : String} (hs : s.file = some path) (h : found.Writable path) (q : Request) :
    (s.serve found q).disk.Writable path := by
  obtain ⟨sfile, c⟩ := s
  obtain rfl : sfile = some path := hs
  cases q with
  | change d =>
    by_cases hd : d.Writes c
    · obtain ⟨written, hwrite⟩ := h (d.effect c).toSnapshot.encode
      rw [serve, change_of_written hd hwrite]
      exact Disk.writable_of_write? h hwrite
    · rw [serve, change_of_not_writes hd]
      exact h
  | get | list => exact h
  | reopen =>
    rw [serve]
    split
    · exact h
    · exact h

/-- The record with the highest id is removed before the file is opened again. -/
theorem run_dictated_reopened :
    let a : Draft := ⟨"a", "flag", "t"⟩
    ∃ s disk past, Run (some "s.json") s disk past ∧
      past.map Prod.fst = [.change (.insert a), .change (.remove 1), .reopen, .change (.insert a)] ∧
      past.drafts.length < 2 ^ 64 - 1 ∧ past.Dictated := by
  intro a
  have hserved {s : Shelf} {disk : Disk} {past : History} (h : Run (some "s.json") s disk past) (q : Request)
      (hs : s.file = some "s.json") (hdisk : disk.Writable "s.json") :
      Run (some "s.json") (s.serve disk q).state (s.serve disk q).disk (past ++ [(q, (s.serve disk q).answer)]) ∧
        (s.serve disk q).disk.Writable "s.json" := by
    refine ⟨h.served q (fun path hp => ⟨rfl, ?_⟩) (by simp), writable_serve hs hdisk q⟩
    obtain rfl := Option.some.inj hp
    exact hdisk
  have h0 : Run (some "s.json") ⟨some "s.json", .empty⟩ {} [] := .opened rfl rfl
  obtain ⟨h1, hdisk1⟩ := hserved h0 (.change (.insert a)) rfl fun _ => ⟨_, rfl⟩
  obtain ⟨h2, hdisk2⟩ := hserved h1 (.change (.remove 1)) (follows_run h1 (by decide)).1.kept hdisk1
  obtain ⟨h3, hdisk3⟩ := hserved h2 .reopen (follows_run h2 (by decide)).1.kept hdisk2
  obtain ⟨h4, -⟩ := hserved h3 (.change (.insert a)) (follows_run h3 (by decide)).1.kept hdisk3
  exact ⟨_, _, _, h4, rfl, by decide, (run_dictated h4 (by decide)).1⟩

end Shelf

end Criterion
