import Criterion.Json

/-! Canonical values. Each object of a canonical value has its members in the order of their keys and no key
twice, so that two of its kind are equal as soon as every key has the same value in both. -/
namespace Criterion.Json

abbrev Ascending (members : List (String × Json)) : Prop := members.Pairwise fun m n => m.1 < n.1

mutual

/-- All objects in the value ascend. -/
def Ordered : Json → Prop
  | .array items => OrderedItems items
  | .object members => Ascending members ∧ OrderedMembers members
  | _ => True

def OrderedItems : List Json → Prop
  | [] => True
  | v :: vs => Ordered v ∧ OrderedItems vs

def OrderedMembers : List (String × Json) → Prop
  | [] => True
  | (_, v) :: ms => Ordered v ∧ OrderedMembers ms

end

section Lookup

variable {key : String} {value : Json} {ms ns : List (String × Json)}

theorem mem_of_lookup? (h : lookup? key ms = some value) : (key, value) ∈ ms := by
  induction ms with
  | nil => contradiction
  | cons m ms ih =>
    obtain ⟨k, v⟩ := m
    rw [lookup?] at h
    split at h
    · rename_i hk
      obtain rfl := Option.some.inj h
      simp [hk]
    · exact List.mem_cons_of_mem _ (ih h)

theorem lookup?_eq_none_iff : lookup? key ms = none ↔ ∀ v, (key, v) ∉ ms := by
  induction ms with
  | nil => simp [lookup?]
  | cons m ms ih =>
    obtain ⟨k, v⟩ := m
    rw [lookup?]
    split
    · rename_i hk
      subst hk
      simp only [reduceCtorEq, false_iff]
      exact fun hall => hall v (by simp)
    · rename_i hk
      rw [ih]
      simp [Ne.symm hk]

theorem ordered_of_lookup? (h : OrderedMembers ms) (hlookup : lookup? key ms = some value) : Ordered value := by
  induction ms with
  | nil => contradiction
  | cons m ms ih =>
    obtain ⟨k, v⟩ := m
    obtain ⟨hv, hms⟩ := h
    rw [lookup?] at hlookup
    split at hlookup
    · obtain rfl := Option.some.inj hlookup
      exact hv
    · exact ih hms hlookup

/-- Where the members ascend, the one that is looked up is the only one of its key. -/
theorem lookup?_of_mem (ha : Ascending ms) (h : (key, value) ∈ ms) : lookup? key ms = some value := by
  induction ms with
  | nil => contradiction
  | cons m ms ih =>
    obtain ⟨k, v⟩ := m
    obtain ⟨hk, hms⟩ := List.pairwise_cons.mp ha
    rw [lookup?]
    rcases List.mem_cons.mp h with heq | h
    · obtain ⟨rfl, rfl⟩ := Prod.mk.inj heq
      rw [if_pos rfl]
    · have hlt : k < key := hk (key, value) h
      have hne : k ≠ key := by
        rintro rfl
        exact String.lt_irrefl k hlt
      rw [if_neg hne]
      exact ih hms h

theorem ascending_of_keys (h : (ms.map Prod.fst).Pairwise (· < ·)) : Ascending ms := List.pairwise_map.mp h

theorem nodup_of_ascending (ha : Ascending ms) : ms.Nodup := by
  refine ha.imp fun hlt heq => ?_
  rw [heq] at hlt
  exact String.lt_irrefl _ hlt

theorem eq_of_lookup? (hm : Ascending ms) (hn : Ascending ns) (h : ∀ key, lookup? key ms = lookup? key ns) :
    ms = ns := by
  have hperm : ms.Perm ns := by
    rw [List.perm_ext_iff_of_nodup (nodup_of_ascending hm) (nodup_of_ascending hn)]
    rintro ⟨key, value⟩
    constructor
    · intro hmem
      exact mem_of_lookup? ((h key).symm.trans (lookup?_of_mem hm hmem))
    · intro hmem
      exact mem_of_lookup? ((h key).trans (lookup?_of_mem hn hmem))
  exact hperm.eq_of_pairwise (fun m n _ _ hmn hnm => absurd hnm (String.lt_asymm hmn)) hm hn

end Lookup

section Canonical

variable {key : String} {value : Json} {ms : List (String × Json)}

theorem mem_adjoin {m : String × Json} (h : m ∈ adjoin key value ms) : m = (key, value) ∨ m ∈ ms := by
  induction ms with
  | nil => exact .inl (List.mem_singleton.mp h)
  | cons n ms ih =>
    obtain ⟨k, v⟩ := n
    rw [adjoin] at h
    split at h
    · exact List.mem_cons.mp h
    · split at h
      · exact .inr h
      · rcases List.mem_cons.mp h with rfl | h
        · exact .inr (by simp)
        · exact (ih h).imp_right (List.mem_cons_of_mem _)

theorem ascending_adjoin (ha : Ascending ms) : Ascending (adjoin key value ms) := by
  induction ms with
  | nil => simp [adjoin]
  | cons n ms ih =>
    obtain ⟨k, v⟩ := n
    obtain ⟨hk, hms⟩ := List.pairwise_cons.mp ha
    rw [adjoin]
    split
    · rename_i hlt
      refine List.pairwise_cons.mpr ⟨fun m hm => ?_, ha⟩
      rcases List.mem_cons.mp hm with rfl | hm
      · exact hlt
      · exact String.lt_trans hlt (hk m hm)
    · rename_i hnot
      split
      · exact ha
      · rename_i hne
        have hlt : k < key := by
          apply String.not_le.mp
          intro hle
          exact hne (String.le_antisymm hle (String.not_lt.mp hnot))
        refine List.pairwise_cons.mpr ⟨fun m hm => ?_, ih hms⟩
        rcases mem_adjoin hm with rfl | hm
        · exact hlt
        · exact hk m hm

theorem orderedMembers_adjoin (hv : Ordered value) (h : OrderedMembers ms) : OrderedMembers (adjoin key value ms) := by
  induction ms with
  | nil => exact ⟨hv, trivial⟩
  | cons n ms ih =>
    obtain ⟨k, v⟩ := n
    rw [adjoin]
    split
    · exact ⟨hv, h⟩
    · split
      · exact h
      · exact ⟨h.1, ih h.2⟩

mutual

theorem ordered_canonical (v : Json) : Ordered v.canonical := by
  match v with
  | .null | .bool _ | .number _ | .string _ => trivial
  | .array items => exact ordered_canonicalItems items
  | .object members => exact ordered_canonicalMembers members

theorem ordered_canonicalItems (items : List Json) : OrderedItems (canonicalItems items) := by
  match items with
  | [] => trivial
  | v :: vs => exact ⟨ordered_canonical v, ordered_canonicalItems vs⟩

theorem ordered_canonicalMembers (members : List (String × Json)) :
    Ascending (canonicalMembers members) ∧ OrderedMembers (canonicalMembers members) := by
  match members with
  | [] => exact ⟨.nil, trivial⟩
  | (k, v) :: ms =>
    obtain ⟨ha, hms⟩ := ordered_canonicalMembers ms
    exact ⟨ascending_adjoin ha, orderedMembers_adjoin (ordered_canonical v) hms⟩

end

theorem adjoin_of_lt (h : ∀ m ∈ ms, key < m.1) : adjoin key value ms = (key, value) :: ms := by
  cases ms with
  | nil => rfl
  | cons m ms => rw [adjoin, if_pos (h m (by simp))]

mutual

theorem canonical_of_ordered (v : Json) (h : Ordered v) : v.canonical = v := by
  match v with
  | .null | .bool _ | .number _ | .string _ => rfl
  | .array items => exact congrArg Json.array (canonicalItems_of_ordered items h)
  | .object members => exact congrArg Json.object (canonicalMembers_of_ordered members h.1 h.2)

theorem canonicalItems_of_ordered (items : List Json) (h : OrderedItems items) : canonicalItems items = items := by
  match items with
  | [] => rfl
  | v :: vs => rw [canonicalItems, canonical_of_ordered v h.1, canonicalItems_of_ordered vs h.2]

theorem canonicalMembers_of_ordered (members : List (String × Json)) (ha : Ascending members)
    (h : OrderedMembers members) : canonicalMembers members = members := by
  match members with
  | [] => rfl
  | (k, v) :: ms =>
    obtain ⟨hk, ha⟩ := List.pairwise_cons.mp ha
    rw [canonicalMembers, canonical_of_ordered v h.1, canonicalMembers_of_ordered ms ha h.2, adjoin_of_lt hk]

end

/-- Looking at a value a second time finds nothing to sort and nothing to drop. -/
theorem canonical_canonical (v : Json) : v.canonical.canonical = v.canonical :=
  canonical_of_ordered _ (ordered_canonical v)

end Canonical

end Criterion.Json
