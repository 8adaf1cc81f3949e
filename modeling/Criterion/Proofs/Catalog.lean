import Criterion.Catalog
import Criterion.Proofs.Failure

/-! Catalogs whose records stand in the order of their ids, all below the next id. Opening a snapshot makes
such a catalog, inserting and erasing keep it one, and it is opened again from its own snapshot unchanged. -/
namespace Criterion.Catalog

abbrev Ascending (rs : List Record) : Prop := rs.Pairwise fun r s => r.id < s.id

/-- The records ascend, and the next id is above them all. -/
structure Ordered (c : Catalog) : Prop where
  ascending : Ascending c.records
  below : ∀ r ∈ c.records, r.id < c.nextId
  positive : 1 ≤ c.nextId

/-- Every id has a successor. -/
def Fits (c : Catalog) : Prop := ∀ r ∈ c.records, r.id.toNat + 1 < UInt64.size

instance (c : Catalog) : Decidable c.Fits :=
  inferInstanceAs (Decidable (∀ r ∈ c.records, r.id.toNat + 1 < UInt64.size))

theorem toNat_max (a b : UInt64) : (max a b).toNat = max a.toNat b.toNat := by
  have hmax : max a b = if a ≤ b then b else a := rfl
  rw [hmax]
  split
  · rename_i hle
    rw [UInt64.le_iff_toNat_le] at hle
    omega
  · rename_i hlt
    rw [UInt64.le_iff_toNat_le] at hlt
    omega

theorem le_max (a b : UInt64) : a ≤ max a b ∧ b ≤ max a b := by
  simp only [UInt64.le_iff_toNat_le, toNat_max]
  omega

theorem max_eq_left {a b : UInt64} (h : b ≤ a) : max a b = a := by
  rw [UInt64.le_iff_toNat_le] at h
  rw [← UInt64.toNat_inj, toNat_max]
  omega

theorem lt_successor {id : UInt64} (h : id.toNat + 1 < UInt64.size) : id < id + 1 := by
  rw [UInt64.lt_iff_toNat_lt, UInt64.toNat_add]
  simp only [UInt64.size, UInt64.toNat_one] at *
  omega

section Place

variable {r s : Record} {rs : List Record}

theorem place_eq_append (h : ∀ s ∈ rs, s.id < r.id) : place r rs = rs ++ [r] := by
  induction rs with
  | nil => rfl
  | cons s rs ih =>
    have hs : s.id < r.id := h s (by simp)
    rw [place, if_neg (UInt64.not_lt.mpr (UInt64.le_of_lt hs)), if_neg (UInt64.ne_of_lt hs).symm,
      ih fun t ht => h t (by simp [ht]), List.cons_append]

theorem mem_place_self : r ∈ place r rs := by
  induction rs with
  | nil => simp [place]
  | cons s rs ih =>
    rw [place]
    split
    · simp
    · split
      · simp
      · exact List.mem_cons_of_mem s ih

/-- The record takes the place of any other with its id. -/
theorem mem_place (ha : Ascending rs) : s ∈ place r rs ↔ s = r ∨ s ∈ rs ∧ s.id ≠ r.id := by
  induction rs with
  | nil => simp [place]
  | cons t rs ih =>
    obtain ⟨ht, hrs⟩ := List.pairwise_cons.mp ha
    have hbehind {id : UInt64} (hid : id ≤ t.id) (hs : s ∈ rs) : s.id ≠ id :=
      (UInt64.ne_of_lt (UInt64.lt_of_le_of_lt hid (ht s hs))).symm
    rw [place]
    split
    · rename_i hlt
      have hfront : s = t → s.id ≠ r.id := fun heq => heq ▸ (UInt64.ne_of_lt hlt).symm
      have hrest : s ∈ rs → s.id ≠ r.id := hbehind (UInt64.le_of_lt hlt)
      grind
    · split
      · rename_i heq
        have hrest : s ∈ rs → s.id ≠ r.id := hbehind (heq ▸ UInt64.le_refl _)
        grind
      · rw [List.mem_cons, ih hrs]
        grind

theorem mem_of_mem_place (h : s ∈ place r rs) : s = r ∨ s ∈ rs := by
  induction rs with
  | nil => simpa [place] using h
  | cons t rs ih =>
    rw [place] at h
    split at h
    · simpa using h
    · split at h
      · exact (List.mem_cons.mp h).imp_right (List.mem_cons_of_mem t)
      · rcases List.mem_cons.mp h with rfl | h
        · exact .inr List.mem_cons_self
        · exact (ih h).imp_right (List.mem_cons_of_mem t)

theorem ascending_place (ha : Ascending rs) : Ascending (place r rs) := by
  induction rs with
  | nil => simp [place]
  | cons s rs ih =>
    obtain ⟨hs, hrs⟩ := List.pairwise_cons.mp ha
    rw [place]
    split
    · rename_i hlt
      refine List.pairwise_cons.mpr ⟨fun t ht => ?_, ha⟩
      rcases List.mem_cons.mp ht with rfl | ht
      · exact hlt
      · exact UInt64.lt_trans hlt (hs t ht)
    · rename_i hge
      split
      · rename_i heq
        exact List.pairwise_cons.mpr ⟨fun t ht => heq ▸ hs t ht, hrs⟩
      · rename_i hne
        refine List.pairwise_cons.mpr ⟨fun t ht => ?_, ih hrs⟩
        rcases mem_of_mem_place ht with rfl | ht
        · exact UInt64.lt_of_le_of_ne (UInt64.not_lt.mp hge) (Ne.symm hne)
        · exact hs t ht

theorem find?_place_of_ne {id : UInt64} (h : id ≠ r.id) :
    (place r rs).find? (fun s => s.id = id) = rs.find? (fun s => s.id = id) := by
  have hr : ¬ r.id = id := Ne.symm h
  induction rs with
  | nil => simp [place, hr]
  | cons s rs ih =>
    rw [place]
    split
    · rw [List.find?_cons_of_neg (by simpa using hr)]
    · split
      · rename_i heq
        rw [List.find?_cons_of_neg (by simpa using hr), List.find?_cons_of_neg (by simpa [← heq] using hr)]
      · rw [List.find?_cons, List.find?_cons, ih]

theorem find?_place_self : (place r rs).find? (fun s => s.id = r.id) = some r := by
  induction rs with
  | nil => simp [place]
  | cons s rs ih =>
    rw [place]
    split
    · rw [List.find?_cons_of_pos (by simp)]
    · split
      · rw [List.find?_cons_of_pos (by simp)]
      · rename_i hne
        rw [List.find?_cons_of_neg (by simpa using Ne.symm hne), ih]

end Place

section Opening

variable {placed rs out : List Record} {c : Catalog}

theorem arrange_ok (ha : Ascending placed) (h : arrange placed rs = .ok out) :
    Ascending out ∧ ∀ r, r ∈ out ↔ r ∈ placed ∨ r ∈ rs := by
  induction rs generalizing placed with
  | nil =>
    obtain rfl := Except.ok.inj h
    exact ⟨ha, by simp⟩
  | cons r rs ih =>
    rw [arrange] at h
    split at h
    · contradiction
    · rename_i hany
      have hnew : ∀ s ∈ placed, s.id ≠ r.id := by simpa using hany
      obtain ⟨hout, hmem⟩ := ih (ascending_place ha) h
      refine ⟨hout, fun s => ?_⟩
      have hkept : s ∈ placed ∧ s.id ≠ r.id ↔ s ∈ placed := and_iff_left_of_imp (hnew s)
      rw [hmem, mem_place ha, hkept, List.mem_cons, or_assoc]
      exact or_left_comm

/-- Records in order stay where they are. -/
theorem arrange_ascending (ha : Ascending (placed ++ rs)) : arrange placed rs = .ok (placed ++ rs) := by
  induction rs generalizing placed with
  | nil => simp [arrange]
  | cons r rs ih =>
    have hlt : ∀ s ∈ placed, s.id < r.id := fun s hs => (List.pairwise_append.mp ha).2.2 s hs r (by simp)
    have hnew : ¬ placed.any (fun s => s.id = r.id) = true := by
      simp only [List.any_eq_true, decide_eq_true_eq, not_exists, not_and]
      exact fun s hs => UInt64.ne_of_lt (hlt s hs)
    rw [arrange, if_neg hnew, place_eq_append hlt, ih (by simpa using ha)]
    simp

theorem getLast?_greatest {last r : Record} (ha : Ascending rs) (hlast : rs.getLast? = some last) (hr : r ∈ rs) :
    r.id ≤ last.id := by
  obtain ⟨front, rfl⟩ := List.getLast?_eq_some_iff.mp hlast
  rcases List.mem_append.mp hr with hr | hr
  · exact UInt64.le_of_lt ((List.pairwise_append.mp ha).2.2 r hr last (by simp))
  · rw [List.mem_singleton.mp hr]
    exact UInt64.le_refl _

theorem lt_afterLast {r : Record} (ha : Ascending rs) (hfits : ∀ s ∈ rs, s.id.toNat + 1 < UInt64.size)
    (hr : r ∈ rs) : r.id < afterLast rs := by
  unfold afterLast
  split
  · rename_i last hlast
    have hlt := lt_successor (hfits last (List.mem_of_getLast? hlast))
    exact UInt64.lt_of_le_of_lt (getLast?_greatest ha hlast hr) hlt
  · rename_i hnone
    rw [List.getLast?_eq_none_iff.mp hnone] at hr
    contradiction

theorem one_le_afterLast (hfits : ∀ s ∈ rs, s.id.toNat + 1 < UInt64.size) : 1 ≤ afterLast rs := by
  unfold afterLast
  split
  · rename_i last hlast
    have := hfits last (List.mem_of_getLast? hlast)
    rw [UInt64.le_iff_toNat_le, UInt64.toNat_add, UInt64.toNat_one]
    simp only [UInt64.size] at this
    omega
  · exact UInt64.le_refl 1

/-- Opening arranges the records of a supported snapshot and raises its next id. -/
theorem ofSnapshot_eq_ok_iff {s : Snapshot} :
    ofSnapshot s = .ok c ↔ s.schema = Snapshot.supportedSchema ∧ arrange [] s.records = .ok c.records ∧
      c.nextId = max s.nextId (afterLast c.records) := by
  obtain ⟨next, records⟩ := c
  rw [ofSnapshot]
  split
  · rename_i hschema
    simp [hschema]
  · rename_i hschema
    have hsupported : s.schema = Snapshot.supportedSchema := by simpa using hschema
    cases arrange [] s.records with
    | error e => simp
    | ok out =>
      simp only [hsupported, Except.ok.injEq, Catalog.mk.injEq, true_and]
      constructor
      · rintro ⟨rfl, rfl⟩
        exact ⟨rfl, rfl⟩
      · rintro ⟨rfl, rfl⟩
        exact ⟨rfl, rfl⟩

theorem ascending_ofSnapshot {s : Snapshot} (h : ofSnapshot s = .ok c) : Ascending c.records := by
  obtain ⟨-, harrange, -⟩ := ofSnapshot_eq_ok_iff.mp h
  exact (arrange_ok .nil harrange).1

/-- A catalog has the records of the snapshot it is opened from. -/
theorem mem_ofSnapshot {s : Snapshot} {r : Record} (h : ofSnapshot s = .ok c) : r ∈ c.records ↔ r ∈ s.records := by
  obtain ⟨-, harrange, -⟩ := ofSnapshot_eq_ok_iff.mp h
  obtain ⟨-, hmem⟩ := arrange_ok .nil harrange
  simpa using hmem r

theorem ordered_ofSnapshot {s : Snapshot} (h : ofSnapshot s = .ok c) (hfits : c.Fits) : c.Ordered := by
  obtain ⟨-, -, hnext⟩ := ofSnapshot_eq_ok_iff.mp h
  have ha := ascending_ofSnapshot h
  have hle : afterLast c.records ≤ c.nextId := hnext ▸ (le_max s.nextId (afterLast c.records)).2
  exact ⟨ha, fun r hr => UInt64.lt_of_lt_of_le (lt_afterLast ha hfits hr) hle,
    UInt64.le_trans (one_le_afterLast hfits) hle⟩

theorem afterLast_le {next : UInt64} (h : ∀ r ∈ rs, r.id < next) (hnext : 1 ≤ next) : afterLast rs ≤ next := by
  unfold afterLast
  split
  · rename_i last hlast
    have hlt := h last (List.mem_of_getLast? hlast)
    have := next.toNat_lt_size
    rw [UInt64.lt_iff_toNat_lt] at hlt
    rw [UInt64.le_iff_toNat_le, UInt64.toNat_add, UInt64.toNat_one]
    simp only [UInt64.size] at this
    omega
  · exact hnext

/-- Records in order are opened as they stand, with the next id above them. -/
theorem ofSnapshot_of_ascending (h : Ascending c.records) :
    ofSnapshot c.toSnapshot = .ok ⟨max c.nextId (afterLast c.records), c.records⟩ := by
  have harrange : arrange [] c.records = .ok c.records := arrange_ascending (by simpa using h)
  exact ofSnapshot_eq_ok_iff.mpr ⟨rfl, harrange, rfl⟩

/-- A catalog in order is what its own snapshot opens as. -/
theorem ofSnapshot_toSnapshot (h : c.Ordered) : ofSnapshot c.toSnapshot = .ok c := by
  rw [ofSnapshot_of_ascending h.ascending, max_eq_left (afterLast_le h.below h.positive)]

theorem ordered_empty : empty.Ordered := ⟨.nil, by simp [empty], UInt64.le_refl 1⟩

end Opening

section Changes

variable {c : Catalog}

theorem insert_records (h : c.Ordered) (d : Draft) :
    (c.insert d).2.records = c.records ++ [d.numbered c.nextId] :=
  place_eq_append h.below

/-- A record with an id above all others goes to the end. -/
theorem ascending_append {rs : List Record} {r : Record} (ha : Ascending rs) (h : ∀ s ∈ rs, s.id < r.id) :
    Ascending (rs ++ [r]) := by
  rw [Ascending, List.pairwise_append]
  refine ⟨ha, by simp, fun s hs t ht => ?_⟩
  rw [List.mem_singleton.mp ht]
  exact h s hs

theorem ordered_insert (h : c.Ordered) (d : Draft) (hfits : (c.insert d).2.Fits) : (c.insert d).2.Ordered := by
  have hrecords := insert_records h d
  have hnext : c.nextId.toNat + 1 < UInt64.size := hfits (d.numbered c.nextId) (by simp [hrecords])
  have hlt := lt_successor hnext
  refine ⟨?_, fun r hr => ?_, ?_⟩
  · rw [hrecords]
    exact ascending_append h.ascending h.below
  · rw [hrecords, List.mem_append, List.mem_singleton] at hr
    rcases hr with hr | rfl
    · exact UInt64.lt_trans (h.below r hr) hlt
    · exact hlt
  · exact UInt64.le_trans h.positive (UInt64.le_of_lt hlt)

theorem ordered_erase (h : c.Ordered) (id : UInt64) : (c.erase id).Ordered :=
  ⟨h.ascending.filter _, fun r hr => h.below r (List.mem_filter.mp hr).1, h.positive⟩

theorem get?_eq_none_iff {id : UInt64} : c.get? id = none ↔ ∀ r ∈ c.records, r.id ≠ id := by
  simp [get?]

theorem get?_nextId (h : c.Ordered) : c.get? c.nextId = none :=
  get?_eq_none_iff.mpr fun r hr => UInt64.ne_of_lt (h.below r hr)

theorem get?_insert_self (c : Catalog) (d : Draft) : (c.insert d).2.get? c.nextId = some (d.numbered c.nextId) :=
  @find?_place_self (d.numbered c.nextId) c.records

theorem get?_insert_of_ne {id : UInt64} (h : id ≠ c.nextId) (d : Draft) : (c.insert d).2.get? id = c.get? id :=
  @find?_place_of_ne (d.numbered c.nextId) _ _ h

theorem get?_erase (c : Catalog) (erased id : UInt64) :
    (c.erase erased).get? id = if id = erased then none else c.get? id := by
  rw [get?, erase, List.find?_filter]
  split
  · rename_i hid
    subst hid
    simp
  · rename_i hid
    rw [get?]
    congr 1
    funext r
    by_cases hr : r.id = id
    · simp [hr, hid]
    · simp [hr]

theorem contains_iff {id : UInt64} : c.contains id = true ↔ ∃ r ∈ c.records, r.id = id := by
  simp [contains]

end Changes

end Criterion.Catalog
