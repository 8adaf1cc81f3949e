import Criterion.Proofs.Catalog
import Mathlib.Data.List.Induction
import Mathlib.Data.List.Nodup

/-! Opening a snapshot, whoever wrote it. Its records may stand in any order and its next id may be too low; both are
put right. Only another schema and a repeated id are refused, and the catalog that is opened, as well as whatever is
made of it from then on, is opened again from its own snapshot as it is. -/
namespace Criterion

namespace Snapshot

/-- The least next id that is not below the written one and above all ids, 1 at least. -/
def raised (s : Snapshot) : Nat := s.records.foldr (fun r next => max (r.id.toNat + 1) next) (max s.nextId.toNat 1)

/-- The snapshot with its records in the order of their ids and with the next id raised. -/
def normal (s : Snapshot) : Snapshot :=
  { s with nextId := .ofNat s.raised, records := s.records.mergeSort fun r t => r.id ≤ t.id }

/-- Why a snapshot is refused: for its schema, and else for the first record that repeats an id. -/
inductive Refused (s : Snapshot) : CatalogError → Prop
  | schema (h : s.schema ≠ supportedSchema) : Refused s (.unsupportedSchema s.schema)
  | repeated {before after : List Record} {r : Record} (hschema : s.schema = supportedSchema)
      (h : s.records = before ++ r :: after) (hbefore : (before.map Record.id).Nodup) (hr : r.id ∈ before.map Record.id) :
      Refused s (.duplicateId r.id)

end Snapshot

namespace Catalog

/-- Catalogs that are opened from a snapshot and changed from then on. No id is given out that has no successor. -/
inductive Used : Catalog → Prop
  | opened {s : Snapshot} {c : Catalog} (h : ofSnapshot s = .ok c) (hfits : ∀ r ∈ s.records, r.id.toNat + 1 < UInt64.size) :
      Used c
  | inserted {c : Catalog} (h : Used c) (d : Draft) (hroom : c.nextId.toNat + 1 < UInt64.size) : Used (c.insert d).2
  | erased {c : Catalog} (h : Used c) (id : UInt64) : Used (c.erase id)

section Arranging

variable {r : Record} {placed before after rs : List Record}

theorem perm_place (hnew : ∀ s ∈ rs, s.id ≠ r.id) : (place r rs).Perm (r :: rs) := by
  induction rs with
  | nil => exact .refl _
  | cons s rs ih =>
    have hs : r.id ≠ s.id := (hnew s (by simp)).symm
    rw [place, if_neg hs]
    split
    · exact .refl _
    · exact ((ih fun t ht => hnew t (by simp [ht])).cons s).trans (.swap r s rs)

theorem arrange_append (placed before rest : List Record) :
    arrange placed (before ++ rest) = (arrange placed before >>= fun between => arrange between rest) := by
  induction before generalizing placed with
  | nil => rfl
  | cons r before ih =>
    rw [List.cons_append, arrange, arrange]
    split
    · rfl
    · exact ih (place r placed)

/-- Records without a repeated id are all placed. -/
theorem exists_arrange (h : ((placed ++ rs).map Record.id).Nodup) :
    ∃ out, arrange placed rs = .ok out ∧ out.Perm (placed ++ rs) := by
  induction rs generalizing placed with
  | nil => exact ⟨placed, rfl, by rw [List.append_nil]⟩
  | cons r rs ih =>
    have hnew : ∀ s ∈ placed, s.id ≠ r.id := by
      intro s hs heq
      rw [List.map_append] at h
      exact (List.nodup_append.mp h).2.2 s.id (List.mem_map_of_mem hs) r.id (by simp) heq
    have hperm : (place r placed ++ rs).Perm (placed ++ r :: rs) :=
      ((perm_place hnew).append_right rs).trans List.perm_middle.symm
    obtain ⟨out, hout, hmembers⟩ := ih ((hperm.map Record.id).nodup_iff.mpr h)
    refine ⟨out, ?_, hmembers.trans hperm⟩
    rw [arrange, if_neg (by simpa using hnew), hout]

/-- A record whose id is placed already ends the arranging. -/
theorem arrange_repeated (h : (before.map Record.id).Nodup) (hr : r.id ∈ before.map Record.id) :
    arrange [] (before ++ r :: after) = .error (.duplicateId r.id) := by
  obtain ⟨between, hbetween, hperm⟩ := @exists_arrange [] before h
  have hany : between.any (fun s => s.id = r.id) = true := by
    obtain ⟨s, hs, hid⟩ := List.mem_map.mp hr
    simp only [List.any_eq_true, decide_eq_true_eq]
    exact ⟨s, hperm.mem_iff.mpr hs, hid⟩
  rw [arrange_append, hbetween, ok_bind, arrange, if_pos hany]

/-- Where ids repeat, there is a first record that repeats one. -/
theorem exists_repeated (h : ¬ (rs.map Record.id).Nodup) :
    ∃ before r after, rs = before ++ r :: after ∧ (before.map Record.id).Nodup ∧ r.id ∈ before.map Record.id := by
  induction rs using List.reverseRecOn with
  | nil => simp at h
  | append_singleton rs r ih =>
    by_cases hrs : (rs.map Record.id).Nodup
    · refine ⟨rs, r, [], rfl, hrs, ?_⟩
      apply Decidable.byContradiction
      intro hnew
      apply h
      rw [List.map_append, List.map_singleton, List.nodup_append]
      refine ⟨hrs, by simp, ?_⟩
      rintro id hid other hother rfl
      exact hnew (List.mem_singleton.mp hother ▸ hid)
    · obtain ⟨before, t, after, rfl, hbefore, ht⟩ := ih hrs
      exact ⟨before, t, after ++ [r], by simp, hbefore, ht⟩

end Arranging

section Opening

variable {s : Snapshot} {c : Catalog}

theorem ofSnapshot_of_nodup (hschema : s.schema = Snapshot.supportedSchema) (h : (s.records.map Record.id).Nodup) :
    ∃ records, records.Perm s.records ∧ ofSnapshot s = .ok ⟨max s.nextId (afterLast records), records⟩ := by
  obtain ⟨records, harrange, hperm⟩ := @exists_arrange [] s.records h
  exact ⟨records, hperm, ofSnapshot_eq_ok_iff.mpr ⟨hschema, harrange, rfl⟩⟩

theorem ofSnapshot_of_refused {e : CatalogError} (h : s.Refused e) : ofSnapshot s = .error e := by
  cases h with
  | schema h => rw [ofSnapshot, if_pos h]
  | repeated hschema hrecords hbefore hr => simp [ofSnapshot, hschema, hrecords, arrange_repeated hbefore hr]

/-- A snapshot that is not refused can be opened. -/
theorem refused_or_nodup (s : Snapshot) :
    (∃ e, s.Refused e) ∨ s.schema = Snapshot.supportedSchema ∧ (s.records.map Record.id).Nodup := by
  by_cases hschema : s.schema = Snapshot.supportedSchema
  · by_cases h : (s.records.map Record.id).Nodup
    · exact .inr ⟨hschema, h⟩
    · obtain ⟨before, r, after, hrecords, hbefore, hr⟩ := exists_repeated h
      exact .inl ⟨_, .repeated hschema hrecords hbefore hr⟩
  · exact .inl ⟨_, .schema hschema⟩

theorem ofSnapshot_eq_error_iff {e : CatalogError} : ofSnapshot s = .error e ↔ s.Refused e := by
  constructor
  · intro h
    rcases refused_or_nodup s with ⟨other, hother⟩ | ⟨hschema, hnodup⟩
    · rw [ofSnapshot_of_refused hother] at h
      obtain rfl := Except.error.inj h
      exact hother
    · obtain ⟨records, -, hok⟩ := ofSnapshot_of_nodup hschema hnodup
      rw [hok] at h
      contradiction
  · exact ofSnapshot_of_refused

theorem nodup_of_ofSnapshot (h : ofSnapshot s = .ok c) :
    s.schema = Snapshot.supportedSchema ∧ (s.records.map Record.id).Nodup := by
  rcases refused_or_nodup s with ⟨e, he⟩ | hgood
  · rw [ofSnapshot_of_refused he] at h
    contradiction
  · exact hgood

end Opening

section Normal

variable {s : Snapshot} {c : Catalog} {rs : List Record}

theorem foldr_max_le_iff {least next : Nat} :
    rs.foldr (fun r next => max (r.id.toNat + 1) next) least ≤ next ↔ least ≤ next ∧ ∀ r ∈ rs, r.id.toNat + 1 ≤ next := by
  induction rs with
  | nil => simp
  | cons r rs ih =>
    rw [List.foldr_cons, Nat.max_le, ih, List.forall_mem_cons]
    exact and_left_comm

theorem raised_le_iff {next : Nat} :
    s.raised ≤ next ↔ s.nextId.toNat ≤ next ∧ 1 ≤ next ∧ ∀ r ∈ s.records, r.id.toNat + 1 ≤ next := by
  rw [Snapshot.raised, foldr_max_le_iff, Nat.max_le, and_assoc]

/-- Of records in order the last one decides about the next id. -/
theorem afterLast_le_iff (ha : Ascending rs) (hfits : ∀ r ∈ rs, r.id.toNat + 1 < UInt64.size) {next : Nat} :
    (afterLast rs).toNat ≤ next ↔ 1 ≤ next ∧ ∀ r ∈ rs, r.id.toNat + 1 ≤ next := by
  constructor
  · intro h
    have hone := UInt64.le_iff_toNat_le.mp (one_le_afterLast hfits)
    rw [UInt64.toNat_one] at hone
    refine ⟨by omega, fun r hr => ?_⟩
    have hlt := UInt64.lt_iff_toNat_lt.mp (lt_afterLast ha hfits hr)
    omega
  · rintro ⟨hone, hall⟩
    unfold afterLast
    split
    · rename_i last hlast
      have hmem := List.mem_of_getLast? hlast
      have hroom := hfits last hmem
      have hle := hall last hmem
      rw [UInt64.toNat_add, UInt64.toNat_one]
      simp only [UInt64.size] at hroom
      omega
    · exact hone

/-- The records of an opened catalog are those of the snapshot. -/
theorem perm_ofSnapshot (h : ofSnapshot s = .ok c) : c.records.Perm s.records := by
  obtain ⟨hschema, hnodup⟩ := nodup_of_ofSnapshot h
  obtain ⟨records, hperm, hok⟩ := ofSnapshot_of_nodup hschema hnodup
  rw [h] at hok
  obtain rfl := Except.ok.inj hok
  exact hperm

theorem toNat_nextId (h : ofSnapshot s = .ok c) (hfits : ∀ r ∈ s.records, r.id.toNat + 1 < UInt64.size) :
    c.nextId.toNat = s.raised := by
  obtain ⟨-, -, hnext⟩ := ofSnapshot_eq_ok_iff.mp h
  have hfits' : c.Fits := fun r hr => hfits r ((mem_ofSnapshot h).mp hr)
  have hbounds (next : Nat) : c.nextId.toNat ≤ next ↔ s.raised ≤ next := by
    rw [hnext, toNat_max, Nat.max_le, afterLast_le_iff (ascending_ofSnapshot h) hfits', raised_le_iff]
    simp only [mem_ofSnapshot h]
  exact Nat.le_antisymm ((hbounds _).mpr (Nat.le_refl _)) ((hbounds _).mp (Nat.le_refl _))

theorem find?_eq_some_iff_of_nodup (h : (rs.map Record.id).Nodup) {id : UInt64} {r : Record} :
    rs.find? (fun s => s.id = id) = some r ↔ r ∈ rs ∧ r.id = id := by
  constructor
  · intro hfind
    exact ⟨List.mem_of_find?_eq_some hfind, by simpa using List.find?_some hfind⟩
  · rintro ⟨hr, rfl⟩
    cases hfind : rs.find? (fun s => s.id = r.id) with
    | none => simpa using List.find?_eq_none.mp hfind r hr
    | some t =>
      have ht : t.id = r.id := by simpa using List.find?_some hfind
      rw [List.inj_on_of_nodup_map h (List.mem_of_find?_eq_some hfind) hr ht]

theorem get?_of_ofSnapshot (h : ofSnapshot s = .ok c) (id : UInt64) :
    c.get? id = s.records.find? fun r => r.id = id := by
  obtain ⟨-, hnodup⟩ := nodup_of_ofSnapshot h
  have hnodup' : (c.records.map Record.id).Nodup := ((perm_ofSnapshot h).map Record.id).nodup_iff.mpr hnodup
  apply Option.ext
  intro r
  rw [get?, find?_eq_some_iff_of_nodup hnodup', find?_eq_some_iff_of_nodup hnodup, mem_ofSnapshot h]

theorem pairwise_mergeSort_id (rs : List Record) :
    (rs.mergeSort fun r t => r.id ≤ t.id).Pairwise fun r t => r.id ≤ t.id := by
  have htrans : ∀ a b c : Record, decide (a.id ≤ b.id) = true → decide (b.id ≤ c.id) = true →
      decide (a.id ≤ c.id) = true := by
    intro a b c hab hbc
    rw [decide_eq_true_eq] at hab hbc ⊢
    exact UInt64.le_trans hab hbc
  have htotal : ∀ a b : Record, (decide (a.id ≤ b.id) || decide (b.id ≤ a.id)) = true := by
    intro a b
    rw [Bool.or_eq_true, decide_eq_true_eq, decide_eq_true_eq]
    exact UInt64.le_total a.id b.id
  exact (List.pairwise_mergeSort htrans htotal rs).imp fun h => by simpa using h

/-- Ids that do not repeat leave one way to order their records. -/
theorem eq_mergeSort (hperm : rs.Perm s.records) (ha : Ascending rs) (hnodup : (s.records.map Record.id).Nodup) :
    rs = s.records.mergeSort fun r t => r.id ≤ t.id := by
  have hsame := List.mergeSort_perm s.records fun r t => r.id ≤ t.id
  have hunique : ∀ r t : Record, r ∈ rs → t ∈ s.records.mergeSort (fun r t => r.id ≤ t.id) → r.id ≤ t.id →
      t.id ≤ r.id → r = t := by
    intro r t hr ht hrt htr
    have hid : r.id = t.id := UInt64.le_antisymm hrt htr
    exact List.inj_on_of_nodup_map hnodup (hperm.mem_iff.mp hr) (hsame.mem_iff.mp ht) hid
  exact List.Perm.eq_of_pairwise hunique (ha.imp UInt64.le_of_lt) (pairwise_mergeSort_id s.records)
    (hperm.trans hsame.symm)

theorem toSnapshot_of_ofSnapshot (h : ofSnapshot s = .ok c) (hfits : ∀ r ∈ s.records, r.id.toNat + 1 < UInt64.size) :
    c.toSnapshot = s.normal := by
  obtain ⟨hschema, hnodup⟩ := nodup_of_ofSnapshot h
  have hrecords := eq_mergeSort (perm_ofSnapshot h) (ascending_ofSnapshot h) hnodup
  rw [toSnapshot, Snapshot.normal, ← toNat_nextId h hfits, UInt64.ofNat_toNat, ← hrecords, hschema]

end Normal

/-- A catalog in use is in order, so it is opened again as it is. -/
theorem ordered_of_used {c : Catalog} (h : Used c) : c.Ordered := by
  induction h with
  | @opened s c h hfits => exact ordered_ofSnapshot h fun r hr => hfits r ((mem_ofSnapshot h).mp hr)
  | @inserted c _ d hroom ih =>
    refine ordered_insert ih d fun r hr => ?_
    rw [insert_records ih, List.mem_append, List.mem_singleton] at hr
    rcases hr with hr | rfl
    · have hlt := UInt64.lt_iff_toNat_lt.mp (ih.below r hr)
      omega
    · exact hroom
  | erased _ id ih => exact ordered_erase ih id

/-- A snapshot opens if its schema is the supported one and no id repeats; else the schema, or the first record that
repeats an id, is named. The opened catalog has the records of the snapshot, each under its own id, and a next id
above them all, its own snapshot is the first one put right, and no catalog in use is changed by opening it again. -/
theorem ofSnapshot_normalizes {s : Snapshot} (hfits : ∀ r ∈ s.records, r.id.toNat + 1 < UInt64.size) :
    ((∃ c, ofSnapshot s = .ok c) ↔ s.schema = Snapshot.supportedSchema ∧ (s.records.map Record.id).Nodup) ∧
    (∀ e, ofSnapshot s = .error e ↔ s.Refused e) ∧
    (∀ c, ofSnapshot s = .ok c →
      (∀ id, c.get? id = s.records.find? fun r => r.id = id) ∧
      1 ≤ c.nextId ∧ s.nextId ≤ c.nextId ∧ (∀ r ∈ s.records, r.id < c.nextId) ∧ c.toSnapshot = s.normal) ∧
    ∀ c, Used c → ofSnapshot c.toSnapshot = .ok c := by
  refine ⟨⟨fun ⟨_, h⟩ => nodup_of_ofSnapshot h, ?_⟩, fun _ => ofSnapshot_eq_error_iff, fun c h => ?_, fun c h => ?_⟩
  · rintro ⟨hschema, hnodup⟩
    obtain ⟨records, -, h⟩ := ofSnapshot_of_nodup hschema hnodup
    exact ⟨_, h⟩
  · obtain ⟨hwritten, hone, habove⟩ := raised_le_iff.mp (Nat.le_of_eq (toNat_nextId h hfits).symm)
    refine ⟨get?_of_ofSnapshot h, ?_, UInt64.le_iff_toNat_le.mpr hwritten, fun r hr => ?_,
      toSnapshot_of_ofSnapshot h hfits⟩
    · exact UInt64.le_iff_toNat_le.mpr hone
    · exact UInt64.lt_iff_toNat_lt.mpr (habove r hr)
  · exact ofSnapshot_toSnapshot (ordered_of_used h)

/-- Two records in the wrong order, under a next id that is zero. -/
theorem ofSnapshot_normalizes_stale :
    let a : Record := ⟨7, "a", "flag", "t"⟩
    let b : Record := ⟨3, "b", "flag", "t"⟩
    let s : Snapshot := ⟨Snapshot.supportedSchema, 0, [a, b]⟩
    (∀ r ∈ s.records, r.id.toNat + 1 < UInt64.size) ∧
      ∃ c, ofSnapshot s = .ok c ∧ c.toSnapshot = ⟨Snapshot.supportedSchema, 8, [b, a]⟩ ∧ c.get? 7 = some a := by
  intro a b s
  have hfits : ∀ r ∈ s.records, r.id.toNat + 1 < UInt64.size := by decide
  obtain ⟨hopens, -, hopened, -⟩ := ofSnapshot_normalizes hfits
  obtain ⟨c, hc⟩ := hopens.mpr ⟨rfl, by decide⟩
  obtain ⟨hget, -, -, -, hnormal⟩ := hopened c hc
  have hsorted : [b, a] = s.records.mergeSort fun r t => r.id ≤ t.id := eq_mergeSort (.swap a b []) (by decide) (by decide)
  have hs : s.normal = ⟨Snapshot.supportedSchema, 8, [b, a]⟩ := by
    rw [Snapshot.normal, ← hsorted]
    rfl
  exact ⟨hfits, c, hc, hnormal.trans hs, hget 7⟩

end Catalog

end Criterion
