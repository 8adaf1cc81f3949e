import Criterion.Proofs.Json.Canonical
import Criterion.Proofs.Location
import Mathlib.Logic.ExistsUnique

/-! What decoding accepts. A node is read by its `type`, which fixes the names of its members and the kind of
each value, so that a value which decodes is the tagged form of the tree it gives, member by member, and one
that does not has a fault which can be named, in the node itself or in a node below it. -/
namespace Criterion.Expr

open Json

/-! ### The form of what decodes -/

section Form

variable {path : String} {ms ns : List (String × Json)}

/-- Two lists of members that ascend are the same as soon as they agree on the keys either of them has. -/
theorem eq_of_keys (keys : List String) (hm : Ascending ms) (hn : Ascending ns) (hmkeys : ∀ m ∈ ms, m.1 ∈ keys)
    (hnkeys : ∀ n ∈ ns, n.1 ∈ keys) (h : ∀ key ∈ keys, lookup? key ms = lookup? key ns) : ms = ns := by
  apply eq_of_lookup? hm hn
  intro key
  by_cases hkey : key ∈ keys
  · exact h key hkey
  · have hnone : ∀ ls : List (String × Json), (∀ l ∈ ls, l.1 ∈ keys) → lookup? key ls = none := by
      intro ls hls
      rw [lookup?_eq_none_iff]
      intro v hv
      exact hkey (hls _ hv)
    rw [hnone ms hmkeys, hnone ns hnkeys]

theorem eq_valueNode {tag : String} {v : Json} (ha : Ascending ms) (htag : lookup? "type" ms = some (.string tag))
    (honly : onlyFields path ["value"] ms = .ok ()) (hvalue : lookup? "value" ms = some v) :
    ms = [("type", .string tag), ("value", v)] := by
  have hascending : Ascending [("type", .string tag), ("value", v)] := by
    apply ascending_of_keys
    show ["type", "value"].Pairwise (· < ·)
    decide
  refine eq_of_keys ["type", "value"] ha hascending (onlyFields_eq_ok_iff.mp honly) (by simp) ?_
  simp [htag, hvalue, lookup?]

theorem eq_binaryNode {symbol : String} {l r : Json} (ha : Ascending ms)
    (htag : lookup? "type" ms = some (.string "binaryOp"))
    (honly : onlyFields path ["op", "left", "right"] ms = .ok ()) (hop : lookup? "op" ms = some (.string symbol))
    (hl : lookup? "left" ms = some l) (hr : lookup? "right" ms = some r) :
    ms = [("left", l), ("op", .string symbol), ("right", r), ("type", .string "binaryOp")] := by
  have hascending :
      Ascending [("left", l), ("op", .string symbol), ("right", r), ("type", .string "binaryOp")] := by
    apply ascending_of_keys
    show ["left", "op", "right", "type"].Pairwise (· < ·)
    decide
  refine eq_of_keys ["type", "op", "left", "right"] ha hascending (onlyFields_eq_ok_iff.mp honly) (by simp) ?_
  simp [htag, hop, hl, hr, lookup?]

theorem eq_atomJson {tag : String} {a : Atom} (ha : Ascending ms) (htag : lookup? "type" ms = some (.string tag))
    (h : atomOfTag path tag ms = .ok a) : Json.object ms = (atomJson a).canonical := by
  unfold atomOfTag at h
  split at h
  all_goals first
    | contradiction
    | obtain ⟨_, honly, h⟩ := bind_eq_ok_iff.mp h
  · obtain ⟨s, hs, h⟩ := bind_eq_ok_iff.mp h
    obtain rfl := Except.ok.inj h
    rw [eq_valueNode ha htag honly (stringField_eq_ok_iff.mp hs)]
    rfl
  · obtain ⟨s, hs, h⟩ := bind_eq_ok_iff.mp h
    obtain rfl := Except.ok.inj h
    rw [eq_valueNode ha htag honly (stringField_eq_ok_iff.mp hs)]
    rfl
  · obtain ⟨v, hv, h⟩ := bind_eq_ok_iff.mp h
    rw [eq_valueNode ha htag honly (field_eq_ok_iff.mp hv)]
    split at h
    · rename_i n
      split at h
      · rename_i value hn
        obtain rfl := Except.ok.inj h
        rw [← Decimal.int64?_eq_some_iff.mp hn]
        rfl
      · contradiction
    · contradiction
  · obtain ⟨v, hv, h⟩ := bind_eq_ok_iff.mp h
    rw [eq_valueNode ha htag honly (field_eq_ok_iff.mp hv)]
    split at h
    · obtain rfl := Except.ok.inj h
      rfl
    · contradiction
  · obtain rfl := Except.ok.inj h
    have hms : ms = [("type", .string "nullNode")] := by
      refine eq_of_keys ["type"] ha (by simp) (onlyFields_eq_ok_iff.mp honly) (by simp) ?_
      simp [htag, lookup?]
    rw [hms]
    rfl

/-- All that decoding an object to a tree can have done. -/
theorem decodeAt_cases {e : Expr} (h : decodeAt (.object ms) path = .ok e) :
    (∃ tag a, lookup? "type" ms = some (.string tag) ∧ atomOfTag path tag ms = .ok a ∧ e = .atom a) ∨
    ∃ op l r left right, lookup? "type" ms = some (.string "binaryOp") ∧
      onlyFields path ["op", "left", "right"] ms = .ok () ∧
      lookup? "op" ms = some (.string (Operator.symbol op)) ∧
      lookup? "left" ms = some l ∧ decodeAt l (path ++ "." ++ "left") = .ok left ∧
      lookup? "right" ms = some r ∧ decodeAt r (path ++ "." ++ "right") = .ok right ∧
      e = .binary op left right := by
  rw [decodeAt] at h
  split at h
  · contradiction
  · rename_i htag
    obtain ⟨_, honly, h⟩ := bind_eq_ok_iff.mp h
    obtain ⟨symbol, hsymbol, h⟩ := bind_eq_ok_iff.mp h
    split at h
    · contradiction
    · rename_i op hop
      obtain ⟨left, hleft, h⟩ := bind_eq_ok_iff.mp h
      obtain ⟨right, hright, h⟩ := bind_eq_ok_iff.mp h
      rw [decodeChild_eq, bind_eq_ok_iff] at hleft hright
      obtain ⟨l, hl, hleft⟩ := hleft
      obtain ⟨r, hr, hright⟩ := hright
      obtain rfl := symbol_of_ofSymbol? hop
      exact .inr ⟨op, l, r, left, right, htag, honly, stringField_eq_ok_iff.mp hsymbol, field_eq_ok_iff.mp hl, hleft,
        field_eq_ok_iff.mp hr, hright, (Except.ok.inj h).symm⟩
  · rename_i tag _ htag
    obtain ⟨a, ha, h⟩ := bind_eq_ok_iff.mp h
    exact .inl ⟨tag, a, htag, ha, (Except.ok.inj h).symm⟩
  · contradiction

/-- What decodes is the tagged form of the tree that it gives. -/
theorem eq_toJson {v : Json} {e : Expr} (hv : Json.Ordered v) (h : decodeAt v path = .ok e) :
    v = e.toJson.canonical := by
  induction e generalizing v path with
  | atom a =>
    cases v with
    | object ms =>
      rcases decodeAt_cases h with ⟨tag, b, htag, hb, he⟩ | ⟨_, _, _, _, _, _, _, _, _, _, _, _, he⟩
      · obtain rfl := Expr.atom.inj he
        exact eq_atomJson hv.1 htag hb
      · contradiction
    | _ => contradiction
  | binary op left right hl hr =>
    cases v with
    | object ms =>
      rcases decodeAt_cases h with ⟨_, _, _, _, he⟩ |
        ⟨op', l, r, left', right', htag, honly, hop, hlookl, hleft, hlookr, hright, he⟩
      · contradiction
      · obtain ⟨rfl, rfl, rfl⟩ := Expr.binary.inj he
        have hlform : l = left.toJson.canonical := hl (ordered_of_lookup? hv.2 hlookl) hleft
        have hrform : r = right.toJson.canonical := hr (ordered_of_lookup? hv.2 hlookr) hright
        rw [eq_binaryNode hv.1 htag honly hop hlookl hlookr, hlform, hrform, canonical_binary]
    | _ => contradiction

theorem decodeAt_eq_ok_iff {v : Json} {e : Expr} (hv : Json.Ordered v) :
    decodeAt v path = .ok e ↔ v = e.toJson.canonical := by
  constructor
  · exact eq_toJson hv
  · rintro rfl
    exact decodeAt_toJson e path

end Form

/-! ### Faults -/

/-- Values in which some node is no object, has no type that exists, has a member too many or one too few, or has
a member of the wrong kind. -/
inductive Faulty : Json → Prop
  | bare {v : Json} (h : ∀ ms, v ≠ .object ms) : Faulty v
  | untyped {ms : List (String × Json)}
      (h : ∀ tag fields, lookup? "type" ms = some (.string tag) → contents? tag ≠ some fields) : Faulty (.object ms)
  | extra {ms : List (String × Json)} {tag : String} {fields : List (String × Content)} {key : String} {v : Json}
      (htag : lookup? "type" ms = some (.string tag)) (hfields : contents? tag = some fields) (hmem : (key, v) ∈ ms)
      (htype : key ≠ "type") (hnot : ∀ content, (key, content) ∉ fields) : Faulty (.object ms)
  | missing {ms : List (String × Json)} {tag : String} {fields : List (String × Content)} {key : String}
      {content : Content} (htag : lookup? "type" ms = some (.string tag)) (hfields : contents? tag = some fields)
      (hfield : (key, content) ∈ fields) (hnone : lookup? key ms = none) : Faulty (.object ms)
  | mistyped {ms : List (String × Json)} {tag : String} {fields : List (String × Content)} {key : String}
      {content : Content} {v : Json} (htag : lookup? "type" ms = some (.string tag))
      (hfields : contents? tag = some fields) (hfield : (key, content) ∈ fields) (hvalue : lookup? key ms = some v)
      (hnot : ¬ content.Admits v) : Faulty (.object ms)
  | inner {ms : List (String × Json)} {tag : String} {fields : List (String × Content)} {key : String} {v : Json}
      (htag : lookup? "type" ms = some (.string tag)) (hfields : contents? tag = some fields)
      (hfield : (key, .node) ∈ fields) (hvalue : lookup? key ms = some v) (h : Faulty v) : Faulty (.object ms)

section Faults

variable {path tag : String} {fields : List (String × Content)} {content : Content} {ms : List (String × Json)}
  {v w : Json} {steps : List Side} {cause : DecodeCause} {err : DecodeError}

theorem faulty_of_fault (h : Fault v cause) : Faulty v := by
  cases h with
  | bare h => exact .bare h
  | untyped h => exact .untyped fun tag fields htag => by simp [h] at htag
  | mistyped h hv =>
    refine .untyped fun tag fields htag => ?_
    exact absurd (Option.some.inj (h.symm.trans htag)) (hv tag)
  | alien htag h =>
    refine .untyped fun tag' fields htag' hfields => ?_
    obtain rfl := Json.string.inj (Option.some.inj (htag.symm.trans htag'))
    rw [h] at hfields
    contradiction
  | @extra ms before after tag key fields v htag hfields hms hbefore hkey =>
    have hmem : (key, v) ∈ ms := by simp [hms]
    rw [List.mem_cons, not_or] at hkey
    exact .extra htag hfields hmem hkey.1 fun content hcontent => hkey.2 (List.mem_map_of_mem hcontent)
  | missing htag hfields _ _ hnone => exact .missing htag hfields List.mem_append_cons_self hnone
  | unfit htag hfields _ _ hvalue hv =>
    exact .mistyped htag hfields List.mem_append_cons_self hvalue (not_admits_of_unfit hv)

/-- A fault stays one however many operations stand above it. -/
theorem faulty_of_leads (h : Leads v steps w) (hw : Faulty w) : Faulty v := by
  have hfields : contents? "binaryOp" = some [("op", .symbol), ("left", .node), ("right", .node)] := rfl
  induction h with
  | here => exact hw
  | left h hl _ ih => exact .inner h.tag hfields (by simp) hl (ih hw)
  | right h _ _ hr _ ih => exact .inner h.tag hfields (by simp) hr (ih hw)

/-- Whatever is refused has a fault. -/
theorem faulty_of_decodeAt (h : decodeAt v path = .error err) : Faulty v := by
  rcases decodes_or_faults v with ⟨e, he⟩ | ⟨steps, w, cause, hleads, hfault⟩
  · rw [he] at h
    contradiction
  · exact faulty_of_leads hleads (faulty_of_fault hfault)

/-- A node has no fault if its members are those of its type and each has a value that will do. -/
theorem not_faulty (htag : lookup? "type" ms = some (.string tag)) (hfields : contents? tag = some fields)
    (hkeys : ∀ m ∈ ms, m.1 = "type" ∨ ∃ content, (m.1, content) ∈ fields)
    (hvalues : ∀ f ∈ fields, ∃ v, lookup? f.1 ms = some v ∧ f.2.Admits v ∧ (f.2 = .node → ¬ Faulty v)) :
    ¬ Faulty (.object ms) := by
  have hsame : ∀ {tag' : String} {fields' : List (String × Content)},
      lookup? "type" ms = some (.string tag') → contents? tag' = some fields' → fields' = fields := by
    intro tag' fields' htag' hfields'
    rw [htag] at htag'
    obtain rfl : tag = tag' := by simpa using htag'
    rw [hfields] at hfields'
    exact (Option.some.inj hfields').symm
  intro hfault
  cases hfault with
  | bare h => exact h ms rfl
  | untyped h => exact h tag fields htag hfields
  | extra htag' hfields' hmem htype hnot =>
    obtain rfl := hsame htag' hfields'
    rcases hkeys _ hmem with heq | ⟨content, hcontent⟩
    · exact htype heq
    · exact hnot content hcontent
  | missing htag' hfields' hfield hnone =>
    obtain rfl := hsame htag' hfields'
    obtain ⟨v, hv, -⟩ := hvalues _ hfield
    simp [hnone] at hv
  | mistyped htag' hfields' hfield hvalue hnot =>
    obtain rfl := hsame htag' hfields'
    obtain ⟨v, hv, hadmits, -⟩ := hvalues _ hfield
    obtain rfl : _ = v := Option.some.inj (hvalue.symm.trans hv)
    exact hnot hadmits
  | inner htag' hfields' hfield hvalue hinner =>
    obtain rfl := hsame htag' hfields'
    obtain ⟨v, hv, -, hsound⟩ := hvalues _ hfield
    obtain rfl : _ = v := Option.some.inj (hvalue.symm.trans hv)
    exact hsound rfl hinner

theorem not_faulty_valueNode {v : Json} (hfields : contents? tag = some [("value", content)]) (hv : content.Admits v)
    (hleaf : content ≠ .node) : ¬ Faulty (.object [("type", .string tag), ("value", v)]) := by
  have htag : lookup? "type" [("type", .string tag), ("value", v)] = some (.string tag) := rfl
  have hvalue : lookup? "value" [("type", .string tag), ("value", v)] = some v := rfl
  refine not_faulty htag hfields (by simp) fun f hf => ?_
  obtain rfl := List.mem_singleton.mp hf
  exact ⟨v, hvalue, hv, fun h => absurd h hleaf⟩

theorem not_faulty_toJson (e : Expr) : ¬ Faulty e.toJson.canonical := by
  induction e with
  | atom a =>
    cases a with
    | «variable» path => exact not_faulty_valueNode rfl ⟨path, rfl⟩ (by simp)
    | text value => exact not_faulty_valueNode rfl ⟨value, rfl⟩ (by simp)
    | number value => exact not_faulty_valueNode rfl ⟨value.toInt, rfl, value.le_toInt, value.toInt_lt⟩ (by simp)
    | truth value => exact not_faulty_valueNode rfl ⟨value, rfl⟩ (by simp)
    | null =>
      have htag : lookup? "type" [("type", .string "nullNode")] = some (.string "nullNode") := rfl
      have hsound := not_faulty htag rfl (by simp) (by simp)
      exact hsound
  | binary op left right hl hr =>
    rw [canonical_binary]
    have hshape : ∀ e : Expr, ∃ members, e.toJson.canonical = .object members := by
      intro e
      cases e with
      | atom a => cases a <;> exact ⟨_, rfl⟩
      | binary => exact ⟨_, rfl⟩
    have hsymbol : ∃ op', op.symbol = Operator.symbol op' := ⟨op, rfl⟩
    have htag : lookup? "type" [("left", left.toJson.canonical), ("op", .string op.symbol),
        ("right", right.toJson.canonical), ("type", .string "binaryOp")] = some (.string "binaryOp") := rfl
    refine not_faulty htag rfl (by simp) ?_
    simp [lookup?, Content.Admits, hshape, hsymbol, hl, hr]

/-- A value decodes to a tree exactly if it is the tagged form of that tree, each tree has one such value, and what
does not decode is what has a fault somewhere. -/
theorem decode_exact :
    (∀ (v : Json) (e : Expr), decode v.canonical = .ok e ↔ v.canonical = e.toJson.canonical) ∧
    (∀ e : Expr, ∃! v : Json, v.canonical = v ∧ decode v = .ok e) ∧
    ∀ v : Json, (∃ err, decode v.canonical = .error err) ↔ Faulty v.canonical := by
  have hexact : ∀ (v : Json) (e : Expr), decode v.canonical = .ok e ↔ v.canonical = e.toJson.canonical :=
    fun v _ => decodeAt_eq_ok_iff (ordered_canonical v)
  refine ⟨hexact, fun e => ?_, fun v => ⟨?_, ?_⟩⟩
  · refine ⟨e.toJson.canonical, ⟨canonical_canonical _, decodeAt_toJson e "$"⟩, ?_⟩
    rintro v ⟨hcanonical, hv⟩
    rw [← hcanonical] at hv ⊢
    exact (hexact v e).mp hv
  · rintro ⟨err, h⟩
    exact faulty_of_decodeAt h
  · intro hfault
    cases h : decode v.canonical with
    | error err => exact ⟨err, rfl⟩
    | ok e =>
      rw [(hexact v e).mp h] at hfault
      exact absurd hfault (not_faulty_toJson e)

end Faults

end Criterion.Expr
