import Criterion.Disk
import Criterion.Proofs.Text

/-! Writing a file and reading it back. A file is no directory, so no name leads through it: disks that differ
in one file only have the same ways to all places, and all other files are read alike. Where writing fails the
file is what it was, or it has lost what it held and has a part of what was to be written. -/
namespace Criterion.Disk

variable {d written : Disk} {name content : String} {place : List String}

theorem target?_eq_some_iff :
    d.target? name = some place ↔ d.locate name = .ok place ∧ namesDirectory name = false ∧
      place ∉ d.unwritable ∧ d.lookup? place ≠ some .directory := by
  unfold target?
  constructor
  · intro h
    split at h
    · contradiction
    · rename_i found hlocate
      split at h
      · contradiction
      · rename_i hname
        split at h
        · contradiction
        · rename_i hdir
          obtain rfl := Option.some.inj h
          simp only [Bool.or_eq_true, List.contains_eq_mem, decide_eq_true_eq, not_or, Bool.not_eq_true] at hname
          exact ⟨hlocate, hname.1, hname.2, hdir⟩
  · rintro ⟨hlocate, hname, hrefused, hdir⟩
    simp [hlocate, hname, hrefused]

theorem write?_eq_some_iff :
    d.write? name content = some written ↔
      ∃ place, d.target? name = some place ∧ d.hasRoom place content = true ∧ d.set place (.text content) = written := by
  rw [write?]
  cases d.target? name with
  | none => simp
  | some place => simp

theorem lookup_filter {entries : List (List String × Entry)} {other : List String} (h : other ≠ place) :
    (entries.filter fun entry => entry.1 ≠ place).lookup other = entries.lookup other := by
  induction entries with
  | nil => rfl
  | cons entry entries ih =>
    obtain ⟨p, e⟩ := entry
    by_cases hp : p = place
    · have hne : (other == p) = false := by simpa [hp] using h
      rw [List.filter_cons_of_neg (by simpa using hp), List.lookup_cons, hne]
      exact ih
    · rw [List.filter_cons_of_pos (by simpa using hp), List.lookup_cons, List.lookup_cons, ih]

theorem lookup?_set_of_ne {other : List String} (h : other ≠ place) (e : Entry) :
    (d.set place e).lookup? other = d.lookup? other := by
  have hne : (other == place) = false := by simpa using h
  simp only [lookup?, set, List.lookup_cons, hne, lookup_filter h]

theorem lookup?_set_self (h : d.lookup? place ≠ some .directory) (e : Entry) :
    (d.set place e).lookup? place = some e := by
  unfold lookup? at h ⊢
  split at h
  · exact absurd rfl h
  · rename_i hplace
    rw [if_neg hplace]
    simp [set]

/-- The disks differ at most in one file, be it in what it holds or in whether there is one. -/
structure SameBut (place : List String) (d other : Disk) : Prop where
  unreadable : other.unreadable = d.unreadable
  unwritable : other.unwritable = d.unwritable
  room : other.room = d.room
  elsewhere : ∀ p, p ≠ place → other.lookup? p = d.lookup? p
  file : d.lookup? place ≠ some .directory
  otherFile : other.lookup? place ≠ some .directory

variable {other : Disk} {text : String}

theorem SameBut.symm (h : d.SameBut place other) : other.SameBut place d :=
  ⟨h.unreadable.symm, h.unwritable.symm, h.room.symm, fun p hp => (h.elsewhere p hp).symm, h.otherFile, h.file⟩

theorem sameBut_set (h : d.lookup? place ≠ some .directory) {e : Entry} (he : e ≠ .directory) :
    d.SameBut place (d.set place e) := by
  refine ⟨rfl, rfl, rfl, fun p hp => lookup?_set_of_ne hp _, h, ?_⟩
  rw [lookup?_set_self h]
  exact fun hdir => he (Option.some.inj hdir)

/-- Directories stay where they are, and a way leads through nothing else. -/
theorem follow_sameBut (h : d.SameBut place other) {start target : List String} {steps : List String}
    (hfollow : d.follow start steps = .ok target) : other.follow start steps = .ok target := by
  induction steps generalizing start with
  | nil => exact hfollow
  | cons step rest ih =>
    rw [follow] at hfollow ⊢
    split at hfollow
    · contradiction
    · rename_i hdir
      have hne : start ≠ place := fun heq => h.file (heq ▸ hdir)
      rw [h.elsewhere start hne, hdir]
      simp only
      split at hfollow
      · rename_i hstep
        rw [if_pos hstep]
        exact ih hfollow
      · contradiction
    · contradiction

theorem locate_sameBut (h : d.SameBut place other) {target : List String} (hlocate : d.locate name = .ok target) :
    other.locate name = .ok target := by
  unfold locate at hlocate ⊢
  split at hlocate
  · contradiction
  · rename_i hempty
    rw [if_neg hempty]
    split at hlocate
    · rename_i hname
      rw [if_pos hname]
      exact follow_sameBut h hlocate
    · contradiction

theorem hides_of_locate (h : d.locate name = .ok place) : d.hides name = d.unreadable.contains place := by
  rw [hides, h]
  rfl

theorem hides_sameBut (h : d.SameBut place other) {target : List String} (hlocate : d.locate name = .ok target) :
    other.hides name = d.hides name := by
  rw [hides_of_locate hlocate, hides_of_locate (locate_sameBut h hlocate), h.unreadable]

/-- A file is read if it can be read and holds a text. -/
theorem read_eq_ok_iff : d.read name = .ok text ↔ d.hides name = false ∧ d.content name = .ok text := by
  rw [read]
  cases d.hides name <;> simp

theorem read_of_not_hides (h : d.hides name = false) : d.read name = d.content name := by
  rw [read, h]
  rfl

theorem not_hides_of_read (h : d.read name ≠ .error .unreadable) : d.hides name = false := by
  cases hhides : d.hides name with
  | false => rfl
  | true => exact absurd (by rw [read, hhides]; rfl) h

theorem exists_locate_of_content (h : d.content name = .ok text) : ∃ target, d.locate name = .ok target := by
  unfold content at h
  split at h
  · contradiction
  · rename_i target hlocate
    exact ⟨target, hlocate⟩

/-- All files but the one hold what they held. -/
theorem content_sameBut (h : d.SameBut place other) (hname : d.locate name ≠ .ok place)
    (hcontent : d.content name = .ok text) : other.content name = .ok text := by
  obtain ⟨target, hlocate⟩ := exists_locate_of_content hcontent
  have hne : target ≠ place := fun heq => hname (heq ▸ hlocate)
  rw [content, hlocate] at hcontent
  rw [content, locate_sameBut h hlocate]
  simpa only [h.elsewhere target hne] using hcontent

/-- All files but the one can be read as before. -/
theorem read_sameBut (h : d.SameBut place other) (hname : d.locate name ≠ .ok place) (hread : d.read name = .ok text) :
    other.read name = .ok text := by
  obtain ⟨hhides, hcontent⟩ := read_eq_ok_iff.mp hread
  obtain ⟨target, hlocate⟩ := exists_locate_of_content hcontent
  exact read_eq_ok_iff.mpr ⟨(hides_sameBut h hlocate).trans hhides, content_sameBut h hname hcontent⟩

theorem read_sameBut_iff (h : d.SameBut place other) (hname : d.locate name ≠ .ok place) :
    other.read name = .ok text ↔ d.read name = .ok text := by
  refine ⟨read_sameBut h.symm fun hlocate => hname ?_, read_sameBut h hname⟩
  exact locate_sameBut h.symm hlocate

section Writing

/-- Writing changes nothing but the file. -/
theorem sameBut_of_write? (h : d.write? name content = some written) :
    ∃ place, d.locate name = .ok place ∧ d.SameBut place written := by
  obtain ⟨place, htarget, -, rfl⟩ := write?_eq_some_iff.mp h
  obtain ⟨hlocate, -, -, hfile⟩ := target?_eq_some_iff.mp htarget
  exact ⟨place, hlocate, sameBut_set hfile nofun⟩

/-- A file that could be opened for writing holds what is put there. -/
theorem content_set (htarget : d.target? name = some place) {e : Entry} (he : e ≠ .directory) :
    (d.set place e).content name = e.content := by
  obtain ⟨hlocate, hname, -, hfile⟩ := target?_eq_some_iff.mp htarget
  rw [Disk.content, locate_sameBut (sameBut_set hfile he) hlocate]
  simp only [lookup?_set_self hfile, hname, Bool.false_eq_true, if_false]

/-- The file holds what was written. -/
theorem content_of_write? (h : d.write? name content = some written) : written.content name = .ok content := by
  obtain ⟨place, htarget, -, rfl⟩ := write?_eq_some_iff.mp h
  exact content_set htarget nofun

theorem hides_of_write? (h : d.write? name content = some written) : written.hides name = d.hides name := by
  obtain ⟨place, hlocate, hsame⟩ := sameBut_of_write? h
  exact hides_sameBut hsame hlocate

/-- What was written is what is read. -/
theorem read_of_write? (hhides : d.hides name = false) (h : d.write? name content = some written) :
    written.read name = .ok content :=
  read_eq_ok_iff.mpr ⟨(hides_of_write? h).trans hhides, content_of_write? h⟩

theorem target?_set (htarget : d.target? name = some place) {e : Entry} (he : e ≠ .directory) :
    (d.set place e).target? name = some place := by
  obtain ⟨hlocate, hname, hrefused, hfile⟩ := target?_eq_some_iff.mp htarget
  have hsame := sameBut_set hfile he
  exact target?_eq_some_iff.mpr ⟨locate_sameBut hsame hlocate, hname, hrefused, hsame.otherFile⟩

/-- The file can be written, whatever its content is to be. -/
def Writable (d : Disk) (name : String) : Prop := ∀ content, ∃ written, d.write? name content = some written

theorem writable_of_write? (hd : d.Writable name) (h : d.write? name content = some written) :
    written.Writable name := by
  obtain ⟨place, htarget, -, rfl⟩ := write?_eq_some_iff.mp h
  intro next
  obtain ⟨_, hnext⟩ := hd next
  obtain ⟨other, hother, hroom, -⟩ := write?_eq_some_iff.mp hnext
  obtain rfl := Option.some.inj (htarget.symm.trans hother)
  exact ⟨_, write?_eq_some_iff.mpr ⟨place, target?_set htarget nofun, hroom, rfl⟩⟩

end Writing

section Failing

/-- A write that fails leaves the disk as it was. -/
def Intact (d : Disk) (name : String) : Prop :=
  ∀ content, d.write? name content = none → d.afterFailure name content = d

/-- Writing the text has broken off. No other file has changed, and this one is missing something at the end, or
ends inside a character and is no text at all. -/
structure BrokenOff (name content : String) (before after : Disk) : Prop where
  only : ∃ place, before.locate name = .ok place ∧ before.SameBut place after
  front : after.content name = .error .unreadable ∨
    ∃ held, after.content name = .ok held ∧ ∃ missing ≠ [], content.toList = held.toList ++ missing

theorem content_cutOff {bytes : Nat} (hlong : bytes < content.utf8ByteSize) :
    (cutOff bytes content).content = .error .unreadable ∨
      ∃ held, (cutOff bytes content).content = .ok held ∧ ∃ missing ≠ [], content.toList = held.toList ++ missing := by
  unfold cutOff
  split
  · rename_i front hfront
    obtain ⟨missing, hcontent, hbytes⟩ := Text.takeBytes?_eq_some hfront
    refine .inr ⟨String.ofList front, rfl, missing, ?_, by rw [hcontent, String.toList_ofList]⟩
    rintro rfl
    rw [← String.utf8Len_toList, hcontent, List.append_nil, hbytes] at hlong
    exact Nat.lt_irrefl _ hlong
  · exact .inl rfl

/-- Too little room makes writing break off. -/
theorem brokenOff_of_room {bytes : Nat} (htarget : d.target? name = some place)
    (hroom : d.room.lookup place = some bytes) (hlong : bytes < content.utf8ByteSize) :
    d.write? name content = none ∧ BrokenOff name content d (d.afterFailure name content) := by
  obtain ⟨hlocate, -, -, hfile⟩ := target?_eq_some_iff.mp htarget
  have hcut : cutOff bytes content ≠ .directory := by
    unfold cutOff
    split <;> exact nofun
  constructor
  · simpa [write?, htarget, hasRoom, hroom] using hlong
  · rw [afterFailure, htarget]
    simp only [hroom]
    refine ⟨⟨place, hlocate, sameBut_set hfile hcut⟩, ?_⟩
    rw [content_set htarget hcut]
    exact content_cutOff hlong

/-- What a write that fails leaves behind. -/
theorem afterFailure_cases (h : d.write? name content = none) :
    d.afterFailure name content = d ∨ BrokenOff name content d (d.afterFailure name content) := by
  cases htarget : d.target? name with
  | none => exact .inl (by rw [afterFailure, htarget])
  | some place =>
    cases hroom : d.room.lookup place with
    | none => exact .inl (by rw [afterFailure, htarget]; simp only [hroom])
    | some bytes =>
      have hlong : bytes < content.utf8ByteSize := by
        simpa [write?, htarget, hasRoom, hroom] using h
      exact .inr (brokenOff_of_room htarget hroom hlong).2

end Failing

section Refusing

/-- What can be followed is up to the entries. -/
theorem follow_of_entries {d other : Disk} (h : other.entries = d.entries) (start steps : List String) :
    other.follow start steps = d.follow start steps := by
  have hlookup (place : List String) : other.lookup? place = d.lookup? place := by rw [lookup?, lookup?, h]
  induction steps generalizing start with
  | nil => rfl
  | cons step rest ih => simp only [follow, hlookup, ih]

theorem locate_of_entries (d other : Disk) (h : other.entries = d.entries) (name : String) :
    other.locate name = d.locate name := by
  rw [locate, locate, follow_of_entries h]

theorem content_of_entries (d other : Disk) (h : other.entries = d.entries) (name : String) :
    other.content name = d.content name := by
  simp only [content, locate_of_entries d other h, lookup?, h]

theorem place_of_follow {start : List String} {steps : List String} (h : d.follow start steps = .ok place) :
    place = steps.foldl enter start := by
  induction steps generalizing start with
  | nil => exact (Except.ok.inj h).symm
  | cons step rest ih =>
    rw [follow] at h
    split at h
    · contradiction
    · split at h
      · exact ih h
      · contradiction
    · contradiction

theorem place_of_locate (h : d.locate name = .ok place) : place = placeOf (steps name) := by
  unfold locate at h
  split at h
  · contradiction
  · split at h
    · exact place_of_follow h
    · contradiction

theorem target?_refuseWriting (d : Disk) (name : String) : (d.refuseWriting name).target? name = none := by
  rw [Option.eq_none_iff_forall_ne_some]
  intro place h
  obtain ⟨hlocate, -, hrefused, -⟩ := target?_eq_some_iff.mp h
  exact hrefused (by simp [refuseWriting, place_of_locate hlocate])

theorem write?_refuseWriting (d : Disk) (name content : String) : (d.refuseWriting name).write? name content = none := by
  rw [write?, target?_refuseWriting]

theorem afterFailure_refuseWriting (d : Disk) (name content : String) :
    (d.refuseWriting name).afterFailure name content = d.refuseWriting name := by
  rw [afterFailure, target?_refuseWriting]

theorem read_refuseReading (h : d.content name = .ok text) :
    (d.refuseReading name).read name = .error .unreadable := by
  obtain ⟨place, hlocate⟩ := exists_locate_of_content h
  have hagain : (d.refuseReading name).locate name = .ok place := (locate_of_entries d (d.refuseReading name) rfl name).trans hlocate
  rw [read, hides_of_locate hagain, place_of_locate hlocate]
  simp [refuseReading]

end Refusing

end Criterion.Disk
