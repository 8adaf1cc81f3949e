import Criterion.Proofs.Durability
import Mathlib.Data.List.TakeWhile
import Mathlib.Logic.Function.Basic

/-! Several shelves on one file. Each is opened from the file once, works on a copy of its own from then on, and
writes that copy as a whole after every change. So the file holds the copy that was written last, and what others
have written since this copy was made is gone. As long as nobody writes from a copy that lacks a record of another
shelf, no record is lost and no id is given out twice. -/
namespace Criterion.Shelf

/-- What the shelves do, one after the other. -/
inductive Event (ι : Type) where
  | opened (i : ι)
  | changed (i : ι) (q : Change) (answer : Except CatalogError Reply)

variable {ι : Type}

/-- The change that an event has brought into the file, with the shelf that wrote it. -/
def Event.written? : Event ι → Option (ι × Request × Except CatalogError Reply)
  | .changed i q (.ok (.inserted r)) => some (i, .change q, .ok (.inserted r))
  | .changed i q (.ok (.removed true)) => some (i, .change q, .ok (.removed true))
  | _ => none

def Event.inserter? : Event ι → Option ι
  | .changed i _ (.ok (.inserted _)) => some i
  | _ => none

/-- All that was written, the earliest first. -/
def writes (past : List (Event ι)) : List (ι × Request × Except CatalogError Reply) :=
  past.filterMap Event.written?

/-- The history of the file, whoever wrote it. -/
def written (past : List (Event ι)) : History := (writes past).map Prod.snd

section Writing

variable {path : String} {disk : Disk} {past : List (Event ι)} {e : Event ι}

theorem writes_append : writes (past ++ [e]) = writes past ++ e.written?.toList := by
  cases h : e.written? <;> simp [writes, h]

/-- A change of a shelf whose file can be written succeeds. Either the file then holds the changed copy, or nothing
was to be changed. -/
theorem change_shared (hreadable : disk.hides path = false) (hdisk : disk.Writable path) (i : ι) (c : Catalog)
    (q : Change) :
    let o := change ⟨some path, c⟩ disk q
    o.answer = .ok (q.reply c) ∧ o.state = ⟨some path, q.effect c⟩ ∧ o.disk.Writable path ∧
      ((Event.changed i q o.answer).written? = some (i, .change q, o.answer) ∧
          o.disk.read path = .ok (q.effect c).toSnapshot.encode ∨
        (Event.changed i q o.answer).written? = none ∧ o.disk = disk ∧ q.effect c = c) := by
  intro o
  by_cases hq : q.Writes c
  · obtain ⟨written, hwrite⟩ := hdisk (q.effect c).toSnapshot.encode
    have ho : o = ⟨.ok (q.reply c), ⟨some path, q.effect c⟩, written⟩ := change_of_written hq hwrite
    have hwritten : (Event.changed i q (.ok (q.reply c))).written? = some (i, .change q, .ok (q.reply c)) := by
      cases q with
      | insert d => rfl
      | remove id =>
        have hid : c.contains id = true := hq
        rw [Change.reply, hid]
        rfl
    rw [ho]
    exact ⟨rfl, rfl, Disk.writable_of_write? hdisk hwrite, .inl ⟨hwritten, Disk.read_of_write? hreadable hwrite⟩⟩
  · have ho : o = ⟨.ok (q.reply c), ⟨some path, q.effect c⟩, disk⟩ := change_of_not_writes hq
    have hwritten : (Event.changed i q (.ok (q.reply c))).written? = none := by
      cases q with
      | insert d => exact absurd trivial hq
      | remove id =>
        have hid : c.contains id = false := by simpa [Change.Writes] using hq
        rw [Change.reply, hid]
        rfl
    rw [ho]
    exact ⟨rfl, rfl, hdisk, .inr ⟨hwritten, rfl, Change.effect_of_not_writes hq⟩⟩

end Writing

variable [DecidableEq ι]

def Event.opens (i : ι) : Event ι → Bool
  | .opened j => j = i
  | .changed .. => false

/-- What happened after the shelf was opened. -/
def since (i : ι) (past : List (Event ι)) : List (Event ι) := (past.dropWhile fun e => !e.opens i).tail

/-- The changes that the shelf itself made. -/
def own (i : ι) (past : List (Event ι)) : List Change :=
  past.filterMap fun
    | .changed j q _ => if j = i then some q else none
    | .opened _ => none

/-- Another shelf has inserted a record since this one was opened. -/
def Outdated (past : List (Event ι)) (i : ι) : Prop := ∃ j ∈ (since i past).filterMap Event.inserter?, j ≠ i

instance (past : List (Event ι)) (i : ι) : Decidable (Outdated past i) :=
  inferInstanceAs (Decidable (∃ j ∈ (since i past).filterMap Event.inserter?, j ≠ i))

/-- Nobody writes from a copy that is out of date. -/
def Orderly (past : List (Event ι)) : Prop :=
  ∀ before e, before ++ [e] <+: past → ∀ w ∈ e.written?, ¬ Outdated before w.1

/-- Shelves that are opened from one file, each of them once, and changed, in any order. The file can be opened at
first and can be written, and nobody else writes it. Every catalog on the way has room for further ids. -/
inductive Shared (path : String) (first : Disk) : (ι → Option Shelf) → Disk → List (Event ι) → Prop where
  | start {s : Shelf} (hwritable : first.Writable path) (hload : load path first = .ok s) (hfits : s.catalog.Fits) :
      Shared path first (fun _ => none) first []
  | opened {shelves : ι → Option Shelf} {disk : Disk} {past : List (Event ι)} {i : ι} {s : Shelf}
      (h : Shared path first shelves disk past) (hnew : shelves i = none) (hload : load path disk = .ok s) :
      Shared path first (Function.update shelves i (some s)) disk (past ++ [.opened i])
  | changed {shelves : ι → Option Shelf} {disk : Disk} {past : List (Event ι)} {i : ι} {s : Shelf}
      (h : Shared path first shelves disk past) (hs : shelves i = some s) (q : Change)
      (hfits : (s.change disk q).state.catalog.Fits) :
      Shared path first (Function.update shelves i (some (s.change disk q).state)) (s.change disk q).disk
        (past ++ [.changed i q (s.change disk q).answer])

section Events

variable {past : List (Event ι)} {e : Event ι} {i : ι}

theorem since_append (h : .opened i ∈ past) : since i (past ++ [e]) = since i past ++ [e] := by
  have hne : past.dropWhile (fun e => !e.opens i) ≠ [] := by
    intro hnil
    have hall := List.dropWhile_eq_nil_iff.mp hnil _ h
    simp [Event.opens] at hall
  rw [since, since, List.dropWhile_append, if_neg (by simpa using hne), List.tail_append_of_ne_nil hne]

theorem since_opened (h : .opened i ∉ past) : since i (past ++ [.opened i]) = [] := by
  have hnil : past.dropWhile (fun e => !e.opens i) = [] := by
    rw [List.dropWhile_eq_nil_iff]
    intro e he
    cases e with
    | opened j =>
      have hne : j ≠ i := fun heq => h (heq ▸ he)
      simpa [Event.opens] using hne
    | changed => rfl
  rw [since, List.dropWhile_append, hnil]
  simp [Event.opens]

theorem own_append : own i (past ++ [e]) = own i past ++ own i [e] := List.filterMap_append

theorem outdated_append (h : .opened i ∈ past) :
    Outdated (past ++ [e]) i ↔ Outdated past i ∨ ∃ j ∈ e.inserter?, j ≠ i := by
  rw [Outdated, Outdated, since_append h, List.filterMap_append]
  simp only [List.mem_append, or_and_right, exists_or]
  cases hinserter : e.inserter? <;> simp [hinserter]

theorem orderly_append : Orderly (past ++ [e]) ↔ Orderly past ∧ ∀ w ∈ e.written?, ¬ Outdated past w.1 := by
  constructor
  · intro h
    exact ⟨fun before f hf => h before f (hf.trans (List.prefix_append _ _)), h past e (List.prefix_refl _)⟩
  · rintro ⟨hpast, hlast⟩ before f hf
    rcases List.prefix_concat_iff.mp hf with heq | hf
    · obtain ⟨rfl, hfe⟩ := List.append_inj' heq rfl
      obtain rfl := List.head_eq_of_cons_eq hfe
      exact hlast
    · exact hpast before f hf

end Events

section Copies

variable {path : String} {first disk : Disk} {shelves : ι → Option Shelf} {past : List (Event ι)} {i : ι} {s : Shelf}

theorem eq_of_update {j : ι} {t : Shelf} (h : Function.update shelves i (some s) j = some t) :
    j = i ∧ t = s ∨ j ≠ i ∧ shelves j = some t := by
  by_cases hj : j = i
  · subst hj
    rw [Function.update_self] at h
    exact .inl ⟨rfl, (Option.some.inj h).symm⟩
  · rw [Function.update_of_ne hj] at h
    exact .inr ⟨hj, h⟩

/-- The file can be opened and written, and every shelf that is open holds a catalog in order. -/
structure Sound (path : String) (shelves : ι → Option Shelf) (disk : Disk) (past : List (Event ι)) : Prop where
  writable : disk.Writable path
  filed : ∃ c, load path disk = .ok ⟨some path, c⟩ ∧ c.Ordered
  held : ∀ i s, shelves i = some s → s.file = some path ∧ s.catalog.Ordered
  opened : ∀ i, .opened i ∈ past ↔ shelves i ≠ none

omit [DecidableEq ι] in
theorem Sound.readable (h : Sound path shelves disk past) : disk.hides path = false := by
  obtain ⟨c, hfiled, -⟩ := h.filed
  exact not_hides_of_load hfiled

theorem sound_opened (h : Sound path shelves disk past) (hload : load path disk = .ok s) :
    Sound path (Function.update shelves i (some s)) disk (past ++ [.opened i]) := by
  obtain ⟨c, hfiled, hordered⟩ := h.filed
  obtain rfl := Except.ok.inj (hfiled.symm.trans hload)
  refine ⟨h.writable, h.filed, fun j t ht => ?_, fun j => ?_⟩
  · rcases eq_of_update ht with ⟨-, rfl⟩ | ⟨-, ht⟩
    · exact ⟨rfl, hordered⟩
    · exact h.held j t ht
  · by_cases hj : j = i
    · simp [hj]
    · simp [hj, h.opened j]

theorem sound_changed (h : Sound path shelves disk past) (hs : shelves i = some s) (q : Change)
    (hfits : (s.change disk q).state.catalog.Fits) :
    Sound path (Function.update shelves i (some (s.change disk q).state)) (s.change disk q).disk
      (past ++ [.changed i q (s.change disk q).answer]) := by
  obtain ⟨file, c⟩ := s
  obtain ⟨rfl, hordered⟩ : file = some path ∧ c.Ordered := h.held i _ hs
  obtain ⟨-, hstate, hwritable, hfile⟩ := change_shared h.readable h.writable i c q
  rw [hstate] at hfits ⊢
  have hchanged : (q.effect c).Ordered := Change.ordered_effect hordered hfits
  refine ⟨hwritable, ?_, fun j t ht => ?_, fun j => ?_⟩
  · rcases hfile with ⟨-, hread⟩ | ⟨-, hsame, -⟩
    · exact ⟨_, load_of_read hchanged hread, hchanged⟩
    · rw [hsame]
      exact h.filed
  · rcases eq_of_update ht with ⟨-, rfl⟩ | ⟨-, ht⟩
    · exact ⟨rfl, hchanged⟩
    · exact h.held j t ht
  · by_cases hj : j = i
    · simp [hj, h.opened i, hs]
    · simp [hj, h.opened j]

theorem sound_of_shared (h : Shared path first shelves disk past) : Sound path shelves disk past := by
  induction h with
  | @start s hwritable hload hfits =>
    obtain ⟨file, c⟩ := s
    obtain rfl : file = some path := (load_ok hload).1
    exact ⟨hwritable, ⟨c, hload, ordered_of_load hload hfits⟩, by simp, by simp⟩
  | opened _ _ hload ih => exact sound_opened ih hload
  | changed _ hs q hfits ih => exact sound_changed ih hs q hfits

/-- Every change is answered as if the shelf were the only one. -/
theorem answer_of_shared (h : Shared path first shelves disk past) {before : List (Event ι)} {q : Change}
    {answer : Except CatalogError Reply} (hq : before ++ [.changed i q answer] <+: past) :
    ∃ shelves disk s, Shared path first shelves disk before ∧ shelves i = some s ∧
      answer = .ok (q.reply s.catalog) := by
  induction h with
  | start => simp at hq
  | opened _ _ _ ih =>
    rcases List.prefix_concat_iff.mp hq with heq | hq
    · obtain ⟨-, he⟩ := List.append_inj' heq rfl
      simp at he
    · exact ih hq
  | @changed shelves disk past j s h hs q' _ ih =>
    rcases List.prefix_concat_iff.mp hq with heq | hq
    · obtain ⟨rfl, he⟩ := List.append_inj' heq rfl
      obtain ⟨rfl, rfl, rfl⟩ := Event.changed.inj (List.head_eq_of_cons_eq he)
      obtain ⟨file, c⟩ := s
      obtain rfl : file = some path := ((sound_of_shared h).held i _ hs).1
      exact ⟨shelves, disk, _, h, hs, (change_shared (sound_of_shared h).readable (sound_of_shared h).writable i c q).1⟩
    · exact ih hq

/-- The shelf is a copy of what the file held when it was opened, with its own changes since then. -/
def Copied (path : String) (first : Disk) (past : List (Event ι)) (i : ι) (s : Shelf) : Prop :=
  ∃ before shelves disk c, past = before ++ .opened i :: since i past ∧ Shared path first shelves disk before ∧
    load path disk = .ok ⟨some path, c⟩ ∧ s = ⟨some path, Change.effects c (own i (since i past))⟩

theorem copied_append {c : Catalog} (h : Copied path first past i ⟨some path, c⟩) (e : Event ι) :
    Copied path first (past ++ [e]) i ⟨some path, Change.effects c (own i [e])⟩ := by
  obtain ⟨before, shelves, disk, filed, hpast, hbefore, hload, hcopy⟩ := h
  obtain rfl := (Shelf.mk.inj hcopy).2
  have hmem : .opened i ∈ past := by
    rw [hpast]
    simp
  refine ⟨before, shelves, disk, filed, ?_, hbefore, hload, ?_⟩
  · rw [since_append hmem, ← List.cons_append, ← List.append_assoc, ← hpast]
  · rw [since_append hmem, own_append, Change.effects, Change.effects, Change.effects, List.foldl_append]

theorem copied_of_shared (h : Shared path first shelves disk past) (hs : shelves i = some s) :
    Copied path first past i s := by
  induction h generalizing s with
  | start => contradiction
  | @opened shelves disk past j t h hnew hload ih =>
    rcases eq_of_update hs with ⟨rfl, rfl⟩ | ⟨hne, hs⟩
    · have hfresh : .opened i ∉ past := fun hmem => ((sound_of_shared h).opened i).mp hmem hnew
      obtain ⟨file, c⟩ := s
      obtain rfl : file = some path := (load_ok hload).1
      refine ⟨past, shelves, disk, c, ?_, h, hload, ?_⟩
      · rw [since_opened hfresh]
      · rw [since_opened hfresh]
        rfl
    · obtain ⟨file, c⟩ := s
      obtain rfl : file = some path := ((sound_of_shared h).held i _ hs).1
      exact copied_append (ih hs) (.opened j)
  | @changed shelves disk past j t h ht q hfits ih =>
    rcases eq_of_update hs with ⟨rfl, rfl⟩ | ⟨hne, hs⟩
    · obtain ⟨file, c⟩ := t
      obtain rfl : file = some path := ((sound_of_shared h).held i _ ht).1
      have hown : own i [.changed i q (change ⟨some path, c⟩ disk q).answer] = [q] := by simp [own]
      have hcopied := copied_append (ih ht) (.changed i q (change ⟨some path, c⟩ disk q).answer)
      rw [hown] at hcopied
      rw [change_state]
      exact hcopied
    · obtain ⟨file, c⟩ := s
      obtain rfl : file = some path := ((sound_of_shared h).held i _ hs).1
      have hown : own i [.changed j q (t.change disk q).answer] = [] := by simp [own, Ne.symm hne]
      have hcopied := copied_append (ih hs) (.changed j q (t.change disk q).answer)
      rwa [hown] at hcopied

/-- The file holds the copy of the shelf that wrote last. -/
theorem last_of_shared (h : Shared path first shelves disk past) :
    match (writes past).getLast? with
    | none => disk = first
    | some w => ∃ s, shelves w.1 = some s ∧ load path disk = .ok s := by
  induction h with
  | start => rfl
  | @opened shelves disk past i s h hnew hload ih =>
    have hwrites : writes (past ++ [.opened i]) = writes past := by simp [writes_append, Event.written?]
    rw [hwrites]
    split at ih
    · exact ih
    · rename_i w _
      obtain ⟨t, ht, hfiled⟩ := ih
      have hne : w.1 ≠ i := fun heq => by simp [heq, hnew] at ht
      exact ⟨t, by rwa [Function.update_of_ne hne], hfiled⟩
  | @changed shelves disk past i s h hs q hfits ih =>
    have hsound := sound_of_shared h
    obtain ⟨file, c⟩ := s
    obtain ⟨rfl, hordered⟩ : file = some path ∧ c.Ordered := hsound.held i _ hs
    obtain ⟨-, hstate, -, hfile⟩ := change_shared hsound.readable hsound.writable i c q
    rw [hstate] at hfits ⊢
    rw [writes_append]
    rcases hfile with ⟨hwritten, hread⟩ | ⟨hwritten, hsame, heffect⟩
    · have hload := load_of_read (Change.ordered_effect hordered hfits) hread
      rw [hwritten]
      simpa using hload
    · have hkept : Function.update shelves i (some ⟨some path, c⟩) = shelves := by rw [← hs, Function.update_eq_self]
      rw [hwritten, heffect, hsame, hkept]
      simpa using ih

/-- While nobody writes from a copy that is out of date, the other copies have what the history of the file promises,
and so has the file. -/
structure Agreed (path : String) (shelves : ι → Option Shelf) (disk : Disk) (past : List (Event ι)) : Prop where
  filed : ∃ c, load path disk = .ok ⟨some path, c⟩ ∧ Covers c [] (written past)
  ascending : Catalog.Ascending (written past).stored
  copies : ∀ i s, shelves i = some s → ¬ Outdated past i → Covers s.catalog [] (written past)

theorem covers_change {c : Catalog} {old : List Record} {past : History} (h : Covers c old past)
    (hascending : Catalog.Ascending (old ++ past.stored)) (q : Change) (hfits : (q.effect c).Fits) :
    Covers (q.effect c) old (past ++ [(.change q, .ok (q.reply c))]) ∧
      Catalog.Ascending (old ++ History.stored (past ++ [(.change q, .ok (q.reply c))])) := by
  cases q with
  | insert d => exact ⟨covers_insert h d hfits, ascending_insert h hascending d⟩
  | remove id =>
    have hbarren : History.Barren (.change (.remove id), .ok (Change.reply (.remove id) c)) := by
      simp [History.Barren]
    rw [History.stored_append hbarren]
    exact ⟨covers_effect h hbarren hfits, hascending⟩

/-- An event that writes nothing brings no copy out of date. -/
theorem agreed_unwritten (h : Agreed path shelves disk past) (hsound : Sound path shelves disk past)
    {e : Event ι} (he : e.written? = none) : Agreed path shelves disk (past ++ [e]) := by
  have hwritten : written (past ++ [e]) = written past := by simp [written, writes_append, he]
  refine ⟨by rw [hwritten]; exact h.filed, by rw [hwritten]; exact h.ascending, fun j t ht hcurrent => ?_⟩
  rw [hwritten]
  have hmem : .opened j ∈ past := (hsound.opened j).mpr (by simp [ht])
  exact h.copies j t ht fun hold => hcurrent ((outdated_append hmem).mpr (.inl hold))

theorem agreed_opened (h : Agreed path shelves disk past) (hsound : Sound path shelves disk past)
    (hload : load path disk = .ok s) :
    Agreed path (Function.update shelves i (some s)) disk (past ++ [.opened i]) := by
  have hagreed : Agreed path shelves disk (past ++ [.opened i]) := agreed_unwritten h hsound rfl
  refine ⟨hagreed.filed, hagreed.ascending, fun j t ht hcurrent => ?_⟩
  rcases eq_of_update ht with ⟨rfl, rfl⟩ | ⟨-, ht⟩
  · obtain ⟨c, hfiled, hcovers⟩ := hagreed.filed
    obtain rfl := Except.ok.inj (hfiled.symm.trans hload)
    exact hcovers
  · exact hagreed.copies j t ht hcurrent

theorem agreed_changed (h : Agreed path shelves disk past) (hsound : Sound path shelves disk past)
    (hs : shelves i = some s) (q : Change) (hfits : (s.change disk q).state.catalog.Fits)
    (hcurrent : ∀ w ∈ (Event.changed i q (s.change disk q).answer).written?, ¬ Outdated past w.1) :
    Agreed path (Function.update shelves i (some (s.change disk q).state)) (s.change disk q).disk
      (past ++ [.changed i q (s.change disk q).answer]) := by
  obtain ⟨file, c⟩ := s
  obtain rfl : file = some path := (hsound.held i _ hs).1
  obtain ⟨hanswer, hstate, -, ⟨hwrite, hread⟩ | ⟨hwrite, hsame, heffect⟩⟩ := change_shared hsound.readable hsound.writable i c q
  · rw [hstate] at hfits
    have hcopy : Covers c [] (written past) := h.copies i _ hs (hcurrent _ hwrite)
    obtain ⟨hcovers, hascending⟩ := covers_change hcopy h.ascending q hfits
    have hwritten : written (past ++ [.changed i q (change ⟨some path, c⟩ disk q).answer]) =
        written past ++ [(.change q, .ok (q.reply c))] := by
      rw [written, writes_append, hwrite, hanswer, written]
      simp
    refine ⟨⟨_, load_of_read hcovers.ordered hread, ?_⟩, ?_, fun j t ht hstill => ?_⟩
    · rwa [hwritten]
    · rwa [hwritten]
    · rw [hwritten]
      rcases eq_of_update ht with ⟨-, rfl⟩ | ⟨hne, hother⟩
      · rw [hstate]
        exact hcovers
      · have hmem : .opened j ∈ past := (hsound.opened j).mpr (by simp [hother])
        rw [outdated_append hmem, not_or] at hstill
        cases q with
        | insert d =>
          rw [hanswer] at hstill
          exact absurd ⟨i, rfl, Ne.symm hne⟩ hstill.2
        | remove id => exact covers_append (h.copies j t hother hstill.1) (by simp [History.Barren])
  · have hkept : Function.update shelves i (some ⟨some path, c⟩) = shelves := by rw [← hs, Function.update_eq_self]
    rw [hstate, heffect, hkept, hsame]
    exact agreed_unwritten h hsound hwrite

theorem agreed_of_orderly (h : Shared path first shelves disk past) (horderly : Orderly past) :
    Agreed path shelves disk past := by
  induction h with
  | @start s hwritable hload hfits =>
    obtain ⟨file, c⟩ := s
    obtain rfl : file = some path := (load_ok hload).1
    have hcovers : Covers c [] [] := by
      refine ⟨ordered_of_load hload hfits, by simp [History.stored], ?_⟩
      rintro r ⟨before, d, after, hnil, -⟩
      simp at hnil
    exact ⟨⟨c, hload, hcovers⟩, .nil, by simp⟩
  | opened h hnew hload ih => exact agreed_opened (ih (orderly_append.mp horderly).1) (sound_of_shared h) hload
  | changed h hs q hfits ih =>
    obtain ⟨hpast, hlast⟩ := orderly_append.mp horderly
    exact agreed_changed (ih hpast) (sound_of_shared h) hs q hfits hlast

/-- Each shelf answers from its own copy, and the file holds the copy of the shelf that wrote last. While nobody writes
from a copy that is out of date, ids ascend over all shelves together, and every record that was inserted and not
removed is there when the file is opened. -/
theorem shared_last_copy (h : Shared path first shelves disk past) :
    (∀ before i q answer, before ++ [.changed i q answer] <+: past → ∃ shelves disk s,
      Shared path first shelves disk before ∧ shelves i = some s ∧ answer = .ok (q.reply s.catalog)) ∧
    (∀ i s, shelves i = some s → Copied path first past i s) ∧
    (match (writes past).getLast? with
      | none => disk = first
      | some w => ∃ s, shelves w.1 = some s ∧ load path disk = .ok s) ∧
    (Orderly past → Catalog.Ascending (written past).stored ∧
      ∃ s, load path disk = .ok s ∧ ∀ r, (written past).Kept r → s.catalog.get? r.id = some r) := by
  refine ⟨fun before i q answer hq => answer_of_shared h hq, fun i s hs => copied_of_shared h hs, last_of_shared h,
    fun horderly => ?_⟩
  have hagreed := agreed_of_orderly h horderly
  obtain ⟨c, hfiled, hcovers⟩ := hagreed.filed
  exact ⟨hagreed.ascending, _, hfiled, hcovers.kept⟩

theorem Shared.of_change {q : Change} {answer : Except CatalogError Reply} {t : Shelf} {left : Disk}
    (h : Shared path first shelves disk past) (hs : shelves i = some s) (hchange : s.change disk q = ⟨answer, t, left⟩)
    (hfits : t.catalog.Fits) :
    Shared path first (Function.update shelves i (some t)) left (past ++ [.changed i q answer]) := by
  have hnext := h.changed hs q (by rwa [hchange])
  rwa [hchange] at hnext

/-- The first shelf writes before the second one is opened. Its copy is out of date in the end, but the record it is
then asked to remove is not in it. -/
theorem shared_last_copy_in_turn :
    let a : Draft := ⟨"a", "flag", "t"⟩
    let b : Draft := ⟨"b", "flag", "t"⟩
    let past : List (Event Bool) := [.opened false, .changed false (.insert a) (.ok (.inserted (a.numbered 1))),
      .opened true, .changed true (.insert b) (.ok (.inserted (b.numbered 2))),
      .changed false (.remove 2) (.ok (.removed false))]
    ∃ shelves disk s, Shared "s.json" {} shelves disk past ∧ Outdated past false ∧ Orderly past ∧
      load "s.json" disk = .ok s ∧ s.catalog.get? 1 = some (a.numbered 1) ∧ s.catalog.get? 2 = some (b.numbered 2) := by
  intro a b past
  let one := (Change.insert a).effect .empty
  let first : Request × Except CatalogError Reply := (.change (.insert a), .ok (.inserted (a.numbered 1)))
  let second : Request × Except CatalogError Reply := (.change (.insert b), .ok (.inserted (b.numbered 2)))
  have hwritable : ({} : Disk).Writable "s.json" := fun _ => ⟨_, rfl⟩
  obtain ⟨disk, hwrite⟩ := hwritable one.toSnapshot.encode
  obtain ⟨written, hagain⟩ := Disk.writable_of_write? hwritable hwrite (one.insert b).2.toSnapshot.encode
  have hone : one.Ordered := Catalog.ordered_insert Catalog.ordered_empty a (by decide)
  have hempty : load "s.json" {} = .ok ⟨some "s.json", .empty⟩ := rfl
  have hload : load "s.json" disk = .ok ⟨some "s.json", one⟩ := load_of_read hone (Disk.read_of_write? rfl hwrite)
  have hmissing : ¬ (Change.remove 2).Writes one := by
    have hcontains : one.contains 2 = false := rfl
    simp [Change.Writes, hcontains]
  have h0 : @Shared Bool _ "s.json" {} (fun _ => none) {} [] := .start hwritable hempty (by decide)
  have h1 := h0.opened (i := false) rfl hempty
  have h2 := h1.of_change (i := false) rfl (change_of_written (q := .insert a) trivial hwrite) (by decide)
  have h3 := h2.opened (i := true) rfl hload
  have h4 := h3.of_change (i := true) rfl (change_of_written (q := .insert b) trivial hagain) (by decide)
  have h5 := h4.of_change (i := false) rfl (change_of_not_writes hmissing) (by decide)
  have houtdated : Outdated past false := ⟨true, .tail _ (.head _), by decide⟩
  have horderly : Orderly past := by
    have o1 := (@orderly_append Bool _ [] (.opened false)).mpr ⟨by simp [Orderly], by simp [Event.written?]⟩
    have o2 := (@orderly_append _ _ _ (.changed false (.insert a) (.ok (.inserted (a.numbered 1))))).mpr
      ⟨o1, by rintro _ ⟨⟩; decide⟩
    have o3 := (@orderly_append _ _ _ (.opened true)).mpr ⟨o2, by simp [Event.written?]⟩
    have o4 := (@orderly_append _ _ _ (.changed true (.insert b) (.ok (.inserted (b.numbered 2))))).mpr
      ⟨o3, by rintro _ ⟨⟩; decide⟩
    exact (@orderly_append _ _ _ (.changed false (.remove 2) (.ok (.removed false)))).mpr ⟨o4, by simp [Event.written?]⟩
  obtain ⟨-, -, -, hpresent⟩ := shared_last_copy h5
  obtain ⟨-, s, hs, hget⟩ := hpresent horderly
  refine ⟨_, _, s, h5, houtdated, horderly, hs, hget (a.numbered 1) ?_, hget (b.numbered 2) ?_⟩
  · exact ⟨[], a, [second], rfl, by simp [second]⟩
  · exact ⟨[first], b, [], rfl, by simp⟩

/-- Of two shelves that are both opened before either one writes, the second overwrites the first. Both records are
given the same id, and the first of them is lost. -/
theorem shared_update_lost :
    let a : Draft := ⟨"a", "flag", "t"⟩
    let b : Draft := ⟨"b", "flag", "t"⟩
    let past : List (Event Bool) := [.opened false, .opened true,
      .changed false (.insert a) (.ok (.inserted (a.numbered 1))),
      .changed true (.insert b) (.ok (.inserted (b.numbered 1)))]
    ∃ shelves disk s, Shared "s.json" {} shelves disk past ∧ load "s.json" disk = .ok s ∧
      s.catalog.get? 1 ≠ some (a.numbered 1) ∧ s.catalog.records = [b.numbered 1] := by
  intro a b past
  let one := (Change.insert a).effect .empty
  let other := (Change.insert b).effect .empty
  have hwritable : ({} : Disk).Writable "s.json" := fun _ => ⟨_, rfl⟩
  obtain ⟨disk, hwrite⟩ := hwritable one.toSnapshot.encode
  obtain ⟨written, hagain⟩ := Disk.writable_of_write? hwritable hwrite other.toSnapshot.encode
  have hreadable : disk.hides "s.json" = false := (Disk.hides_of_write? hwrite).trans rfl
  have hother : other.Ordered := Catalog.ordered_insert Catalog.ordered_empty b (by decide)
  have hempty : load "s.json" {} = .ok ⟨some "s.json", .empty⟩ := rfl
  have hload : load "s.json" written = .ok ⟨some "s.json", other⟩ := load_of_read hother (Disk.read_of_write? hreadable hagain)
  have h0 : @Shared Bool _ "s.json" {} (fun _ => none) {} [] := .start hwritable hempty (by decide)
  have h1 := h0.opened (i := false) rfl hempty
  have h2 := h1.opened (i := true) rfl hempty
  have h3 := h2.of_change (i := false) rfl (change_of_written (q := .insert a) trivial hwrite) (by decide)
  have h4 := h3.of_change (i := true) rfl (change_of_written (q := .insert b) trivial hagain) (by decide)
  exact ⟨_, _, _, h4, hload, by decide, rfl⟩

end Copies

end Criterion.Shelf
