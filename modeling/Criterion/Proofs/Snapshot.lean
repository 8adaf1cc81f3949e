import Criterion.Catalog.Snapshot
import Criterion.Proofs.Json.Prefix

/-! Snapshots of catalogs as text. A snapshot is read back from its file as it was written, whatever its
records say and whether or not a catalog can be opened from it. A text that is missing something at the end
holds no snapshot. -/
namespace Criterion

open Json

theorem exact_of_lt {n : Nat} (h : n < UInt64.size) : Exact n := by
  have hlow : Int64.minValue.toInt ≤ 0 := by decide
  exact ⟨by omega, by omega⟩

theorem exact_toNat (n : UInt64) : Exact n.toNat := exact_of_lt n.toNat_lt_size

theorem uint64?_ofUInt64 (n : UInt64) : (ofUInt64 n).uint64? = some n := Decimal.uint64?_toNat n

namespace Record

theorem whole_toJson (r : Record) : Whole r.toJson := ⟨exact_toNat r.id, trivial, trivial, trivial, trivial⟩

theorem wholeItems_toJson (rs : List Record) : WholeItems (rs.map toJson) := by
  induction rs with
  | nil => trivial
  | cons r rs ih => exact ⟨r.whole_toJson, ih⟩

theorem nesting_toJson (r : Record) : nesting r.toJson = 1 := rfl

theorem ofJson?_toJson (r : Record) : ofJson? r.toJson = some r := by
  have hslots : slots? ["id", "name", "expression", "ast_json"] r.toJson =
      some [some (ofUInt64 r.id), some (.string r.name), some (.string r.expression), some (.string r.encoded)] := rfl
  simp [ofJson?, hslots, uint64?_ofUInt64, string?]

end Record

namespace Snapshot

theorem whole_toJson (s : Snapshot) : Whole s.toJson :=
  ⟨trivial, exact_toNat s.nextId, Record.wholeItems_toJson s.records, trivial⟩

theorem nesting_toJson_le (s : Snapshot) : nesting s.toJson ≤ 3 := by
  have hrecords (rs : List Record) : nestingItems (rs.map Record.toJson) ≤ 1 := by
    induction rs with
    | nil => simp [nestingItems]
    | cons r rs ih => exact Nat.max_le.mpr ⟨Nat.le_of_eq r.nesting_toJson, ih⟩
  have := hrecords s.records
  simp only [toJson, nesting, nestingMembers, ofUInt64]
  omega

theorem mapM_ofJson?_toJson (rs : List Record) : rs.mapM (Record.ofJson? ∘ Record.toJson) = some rs := by
  induction rs with
  | nil => rfl
  | cons r rs ih => rw [List.mapM_cons, Function.comp_apply, r.ofJson?_toJson, ih]; rfl

theorem ofJson?_toJson (s : Snapshot) : ofJson? s.toJson = some s := by
  have hslots : slots? ["schema", "next_id", "expressions"] s.toJson =
      some [some (.string s.schema), some (ofUInt64 s.nextId), some (.array (s.records.map Record.toJson))] := rfl
  simp [ofJson?, hslots, uint64?_ofUInt64, string?, items?, mapM_ofJson?_toJson]

theorem readFirst_encode (s : Snapshot) : readFirst (some nestingLimit) s.encode = some (s.toJson, []) := by
  refine readFirst_eq_some_iff.mpr ⟨?_, ?_⟩
  · rw [encode, pretty, String.toList_ofList]
    exact spells_writePretty 0 s.toJson [] s.whole_toJson delimited_nil
  · have := s.nesting_toJson_le
    simp only [Option.mem_some, nestingLimit, forall_eq']
    omega

theorem decode?_encode (s : Snapshot) : decode? s.encode = some s := by
  have hread : read? (some nestingLimit) s.encode = some s.toJson :=
    read?_eq_some_iff.mpr ⟨[], s.readFirst_encode, rfl⟩
  rw [decode?, hread, Option.bind_some, ofJson?_toJson]

theorem head?_encode (s : Snapshot) : s.encode.toList.head? = some '{' := by
  rw [encode, pretty, String.toList_ofList]
  rfl

theorem decode?_of_missing {s : Snapshot} {front : String} {missing : List Char}
    (h : s.encode.toList = front.toList ++ missing) (hne : missing ≠ []) : decode? front = none := by
  rw [decode?, read?, readFirst_of_missing s.readFirst_encode s.head?_encode h hne]
  rfl

/-- Every snapshot comes back from its text, and no other one has that text. -/
theorem snapshot_lossless (s : Snapshot) : decode? s.encode = some s ∧ ∀ t : Snapshot, t.encode = s.encode ↔ t = s := by
  refine ⟨decode?_encode s, fun t => ⟨fun h => ?_, fun h => by rw [h]⟩⟩
  have ht : decode? t.encode = some t := decode?_encode t
  rw [h, decode?_encode] at ht
  exact (Option.some.inj ht).symm

end Snapshot

end Criterion
