import Criterion.Proofs.Decimal
import Criterion.Proofs.Encoding
import Mathlib.Algebra.Group.Int.Defs

/-! Where decoding stops. A value that does not decode has a first bad node, found by going down from the root, to the
left first. The error names the steps that lead to it and what is wrong with that node by itself, so that decoding
the node alone fails in the same way. -/
namespace Criterion.Expr

open Json

/-! ### Looking up members -/

section Members

variable {path name : String} {fields : List String} {ms : List (String × Json)}

theorem onlyFields_eq_ok_iff :
    onlyFields path fields ms = .ok () ↔ ∀ m ∈ ms, m.1 ∈ "type" :: fields := by
  have hnone : unknownField? fields ms = none ↔ ∀ m ∈ ms, m.1 ∈ "type" :: fields := by
    simp only [unknownField?, List.find?_eq_none, List.forall_mem_map, Bool.and_eq_true, decide_eq_true_eq,
      Bool.not_eq_true', List.contains_eq_mem, decide_eq_false_iff_not, not_and, Decidable.not_not, List.mem_cons]
    exact forall₂_congr fun m _ => Decidable.or_iff_not_imp_left.symm
  rw [← hnone, onlyFields]
  split
  · rename_i h
    simp [h]
  · rename_i h
    simp [h]

theorem field_eq_ok_iff {v : Json} : field path name ms = .ok v ↔ lookup? name ms = some v := by
  rw [field]
  split
  · rename_i h
    simp [h]
  · rename_i h
    simp [h]

theorem stringField_eq_ok_iff {s : String} :
    stringField path name ms = .ok s ↔ lookup? name ms = some (.string s) := by
  rw [stringField, bind_eq_ok_iff]
  constructor
  · rintro ⟨v, hv, h⟩
    rw [field_eq_ok_iff] at hv
    cases v with
    | string t =>
      obtain rfl : t = s := by simpa using h
      exact hv
    | _ => contradiction
  · intro h
    exact ⟨.string s, field_eq_ok_iff.mpr h, rfl⟩

/-- A child is decoded by looking its member up and going one step down. -/
theorem decodeChild_eq :
    decodeChild name path ms = field path name ms >>= fun v => decodeAt v (path ++ "." ++ name) := by
  induction ms with
  | nil => rfl
  | cons m ms ih =>
    obtain ⟨k, v⟩ := m
    rw [decodeChild, field, lookup?]
    split
    · rfl
    · exact ih

theorem symbol_of_ofSymbol? {symbol : String} {op : Operator} (h : Operator.ofSymbol? symbol = some op) :
    symbol = op.symbol := by
  unfold Operator.ofSymbol? at h
  split at h
  all_goals first
    | contradiction
    | (obtain rfl := Option.some.inj h; rfl)

end Members

/-! ### Faults -/

/-- What the value of a member has to be. -/
inductive Content where
  | text | symbol | integer | truth | node

def Content.Admits : Content → Json → Prop
  | .text, v => ∃ s, v = .string s
  | .symbol, v => ∃ op, v = .string (Operator.symbol op)
  | .integer, v => ∃ n : Int, v = .number (.whole n) ∧ -2 ^ 63 ≤ n ∧ n < 2 ^ 63
  | .truth, v => ∃ b, v = .bool b
  | .node, v => ∃ members, v = .object members

/-- The members that a node of a type has besides its `type`. -/
def contents? : String → Option (List (String × Content))
  | "binaryOp" => some [("op", .symbol), ("left", .node), ("right", .node)]
  | "value" | "string" => some [("value", .text)]
  | "number" => some [("value", .integer)]
  | "booleanNode" => some [("value", .truth)]
  | "nullNode" => some []
  | _ => none

/-- A step from an operation to one of its operands. -/
inductive Side where
  | left
  | right
  deriving DecidableEq, Repr

def Side.name : Side → String
  | .left => "left"
  | .right => "right"

/-- The path of the node that the steps lead to. -/
def location (path : String) (steps : List Side) : String := steps.foldl (fun path s => path ++ "." ++ s.name) path

/-- The value is the form of a tree, at whatever path it stands. -/
def Decodes (v : Json) : Prop := ∃ e, ∀ path, decodeAt v path = .ok e

/-- An operation as far as it can be told without its operands. -/
structure Operation (ms : List (String × Json)) : Prop where
  tag : lookup? "type" ms = some (.string "binaryOp")
  only : ∀ m ∈ ms, m.1 ∈ ["type", "op", "left", "right"]
  known : ∃ op, lookup? "op" ms = some (.string (Operator.symbol op))

/-- The steps lead from the first value to the second. They leave operations only, and an operation is left to the
right only if its left operand decodes. -/
inductive Leads : Json → List Side → Json → Prop
  | here (v : Json) : Leads v [] v
  | left {ms : List (String × Json)} {l w : Json} {steps : List Side} (h : Operation ms)
      (hl : lookup? "left" ms = some l) (hrest : Leads l steps w) : Leads (.object ms) (.left :: steps) w
  | right {ms : List (String × Json)} {l r w : Json} {steps : List Side} (h : Operation ms)
      (hl : lookup? "left" ms = some l) (hdecodes : Decodes l) (hr : lookup? "right" ms = some r)
      (hrest : Leads r steps w) : Leads (.object ms) (.right :: steps) w

/-- Why a node cannot do with the value of a member. Operands are nodes themselves and never the reason. -/
inductive Unfit (name : String) : Content → Json → DecodeCause → Prop
  | text {v : Json} (h : ¬ Content.text.Admits v) : Unfit name .text v (.invalidField name "string")
  | symbol {v : Json} (h : ∀ s, v ≠ .string s) : Unfit name .symbol v (.invalidField name "string")
  | unknown {s : String} (h : ∀ op, s ≠ Operator.symbol op) : Unfit name .symbol (.string s) (.unknownOperator s)
  | integer {v : Json} (h : ¬ Content.integer.Admits v) : Unfit name .integer v (.invalidField name "integer")
  | truth {v : Json} (h : ¬ Content.truth.Admits v) : Unfit name .truth v (.invalidField name "boolean")

theorem not_admits_of_unfit {name : String} {content : Content} {v : Json} {cause : DecodeCause}
    (h : Unfit name content v cause) : ¬ content.Admits v := by
  cases h with
  | text h | integer h | truth h => exact h
  | symbol h => exact fun ⟨op, hop⟩ => h _ hop
  | unknown h => exact fun ⟨op, hop⟩ => h op (Json.string.inj hop)

/-- The member is there and the node can do with it. -/
def Provided (ms : List (String × Json)) (field : String × Content) : Prop :=
  ∃ v, lookup? field.1 ms = some v ∧ field.2.Admits v ∧ (field.2 = .node → Decodes v)

/-- What is wrong with a node by itself. Its members are gone through in the order in which its type has them, so all
that come before the one to blame are sound. -/
inductive Fault : Json → DecodeCause → Prop
  | bare {v : Json} (h : ∀ ms, v ≠ .object ms) : Fault v .notAnObject
  | untyped {ms : List (String × Json)} (h : lookup? "type" ms = none) : Fault (.object ms) .missingType
  | mistyped {ms : List (String × Json)} {v : Json} (h : lookup? "type" ms = some v) (hv : ∀ tag, v ≠ .string tag) :
      Fault (.object ms) (.invalidField "type" "string")
  | alien {ms : List (String × Json)} {tag : String} (htag : lookup? "type" ms = some (.string tag))
      (h : contents? tag = none) : Fault (.object ms) (.unknownType tag)
  | extra {ms before after : List (String × Json)} {tag key : String} {fields : List (String × Content)} {v : Json}
      (htag : lookup? "type" ms = some (.string tag)) (hfields : contents? tag = some fields)
      (hms : ms = before ++ (key, v) :: after) (hbefore : ∀ m ∈ before, m.1 ∈ "type" :: fields.map Prod.fst)
      (hkey : key ∉ "type" :: fields.map Prod.fst) : Fault (.object ms) (.unknownField key)
  | missing {ms : List (String × Json)} {tag key : String} {before after : List (String × Content)} {content : Content}
      (htag : lookup? "type" ms = some (.string tag)) (hfields : contents? tag = some (before ++ (key, content) :: after))
      (honly : ∀ m ∈ ms, m.1 ∈ "type" :: (before ++ (key, content) :: after).map Prod.fst)
      (hbefore : ∀ f ∈ before, Provided ms f) (hnone : lookup? key ms = none) : Fault (.object ms) (.missingField key)
  | unfit {ms : List (String × Json)} {tag key : String} {before after : List (String × Content)} {content : Content}
      {v : Json} {cause : DecodeCause} (htag : lookup? "type" ms = some (.string tag))
      (hfields : contents? tag = some (before ++ (key, content) :: after))
      (honly : ∀ m ∈ ms, m.1 ∈ "type" :: (before ++ (key, content) :: after).map Prod.fst)
      (hbefore : ∀ f ∈ before, Provided ms f) (hvalue : lookup? key ms = some v) (hv : Unfit key content v cause) :
      Fault (.object ms) cause

/-! ### Decoding one node -/

section Node

variable {path tag name key : String} {names : List String} {ms : List (String × Json)} {content : Content} {v : Json}
  {cause : DecodeCause}

theorem onlyFields_of_extra {before after : List (String × Json)} (hbefore : ∀ m ∈ before, m.1 ∈ "type" :: names)
    (hkey : key ∉ "type" :: names) :
    onlyFields path names (before ++ (key, v) :: after) = .error ⟨path, .unknownField key⟩ := by
  have hfind : unknownField? names (before ++ (key, v) :: after) = some key := by
    rw [unknownField?, List.map_append, List.find?_append, List.map_cons, List.find?_cons_of_pos]
    · rw [List.find?_eq_none.mpr, Option.none_or]
      simpa [or_iff_not_imp_left] using hbefore
    · simpa using hkey
  rw [onlyFields, hfind]

/-- The first member that a node of the type does not have, if there is any. -/
theorem only_or_extra (names : List String) (ms : List (String × Json)) :
    (∀ m ∈ ms, m.1 ∈ "type" :: names) ∨
      ∃ before key v after, ms = before ++ (key, v) :: after ∧ (∀ m ∈ before, m.1 ∈ "type" :: names) ∧
        key ∉ "type" :: names := by
  induction ms with
  | nil => exact .inl (by simp)
  | cons m ms ih =>
    by_cases hm : m.1 ∈ "type" :: names
    · rcases ih with hall | ⟨before, key, v, after, rfl, hbefore, hkey⟩
      · exact .inl (List.forall_mem_cons.mpr ⟨hm, hall⟩)
      · exact .inr ⟨m :: before, key, v, after, rfl, List.forall_mem_cons.mpr ⟨hm, hbefore⟩, hkey⟩
    · exact .inr ⟨[], m.1, m.2, ms, rfl, by simp, hm⟩

/-- What does not do for a member that is no operand has a reason. -/
theorem exists_unfit (name : String) (h : ¬ content.Admits v) (hleaf : content ≠ .node) :
    ∃ cause, Unfit name content v cause := by
  cases content with
  | text => exact ⟨_, .text h⟩
  | symbol =>
    cases v with
    | string s => exact ⟨_, .unknown fun op hs => h ⟨op, congrArg Json.string hs⟩⟩
    | _ => exact ⟨_, .symbol (by simp)⟩
  | integer => exact ⟨_, .integer h⟩
  | truth => exact ⟨_, .truth h⟩
  | node => exact absurd rfl hleaf

theorem decodeAt_leaf (htag : lookup? "type" ms = some (.string tag)) (hleaf : tag ≠ "binaryOp") (path : String) :
    decodeAt (.object ms) path = (atomOfTag path tag ms >>= fun a => .ok (.atom a)) := by
  rw [decodeAt, htag]
  split
  · contradiction
  · rename_i heq
    exact absurd (Json.string.inj (Option.some.inj heq)) hleaf
  · rename_i other _ heq
    obtain rfl := Json.string.inj (Option.some.inj heq)
    rfl
  · rename_i other _ hstring heq
    exact absurd (Option.some.inj heq).symm (hstring tag)

theorem decodeAt_operation (htag : lookup? "type" ms = some (.string "binaryOp"))
    (honly : ∀ m ∈ ms, m.1 ∈ ["type", "op", "left", "right"]) (path : String) :
    decodeAt (.object ms) path = (stringField path "op" ms >>= fun symbol =>
      match Operator.ofSymbol? symbol with
      | none => .error ⟨path, .unknownOperator symbol⟩
      | some op => decodeChild "left" path ms >>= fun left =>
        decodeChild "right" path ms >>= fun right => .ok (.binary op left right)) := by
  rw [decodeAt, htag]
  simp only [onlyFields_eq_ok_iff.mpr honly, ok_bind]
  rfl

theorem decodeChild_of_some (h : lookup? name ms = some v) (path : String) :
    decodeChild name path ms = decodeAt v (path ++ "." ++ name) := by
  rw [decodeChild_eq, field_eq_ok_iff.mpr h, ok_bind]

theorem field_of_none (h : lookup? name ms = none) (path : String) :
    field path name ms = .error ⟨path, .missingField name⟩ := by
  rw [field, h]

theorem decodeChild_of_none (h : lookup? name ms = none) (path : String) :
    decodeChild name path ms = .error ⟨path, .missingField name⟩ := by
  rw [decodeChild_eq, field_of_none h, error_bind]

theorem stringField_of_not_string (h : lookup? name ms = some v) (hv : ∀ s, v ≠ .string s) (path : String) :
    stringField path name ms = .error ⟨path, .invalidField name "string"⟩ := by
  rw [stringField, field_eq_ok_iff.mpr h, ok_bind]
  split
  · rename_i s
    exact absurd rfl (hv s)
  · rfl

/-- The types of the nodes that have a value. -/
theorem leaf_cases (h : contents? tag = some [(key, content)]) :
    key = "value" ∧ ((tag = "value" ∨ tag = "string") ∧ content = .text ∨ tag = "number" ∧ content = .integer ∨
      tag = "booleanNode" ∧ content = .truth) := by
  unfold contents? at h
  split at h <;> simp_all

/-- Leaves look for members that they do not have before they look at their value. -/
theorem atomOfTag_of_extra {fields : List (String × Content)} {err : DecodeError} (hfields : contents? tag = some fields)
    (hleaf : tag ≠ "binaryOp") (h : onlyFields path (fields.map Prod.fst) ms = .error err) :
    atomOfTag path tag ms = .error err := by
  unfold contents? at hfields
  split at hfields
  · exact absurd rfl hleaf
  all_goals first
    | contradiction
    | (obtain rfl := Option.some.inj hfields
       exact congrArg (· >>= _) h)

theorem atomOfTag_of_none (hfields : contents? tag = some [(key, content)]) (honly : ∀ m ∈ ms, m.1 ∈ ["type", key])
    (hnone : lookup? key ms = none) : atomOfTag path tag ms = .error ⟨path, .missingField key⟩ := by
  obtain ⟨rfl, htag⟩ := leaf_cases hfields
  rcases htag with ⟨rfl | rfl, rfl⟩ | ⟨rfl, rfl⟩ | ⟨rfl, rfl⟩ <;>
    simp [atomOfTag, onlyFields_eq_ok_iff.mpr honly, stringField, field_of_none hnone]

theorem atomOfTag_of_unfit (hfields : contents? tag = some [(key, content)]) (honly : ∀ m ∈ ms, m.1 ∈ ["type", key])
    (hvalue : lookup? key ms = some v) (hv : Unfit key content v cause) :
    atomOfTag path tag ms = .error ⟨path, cause⟩ := by
  obtain ⟨rfl, htag⟩ := leaf_cases hfields
  have hfield : field path "value" ms = .ok v := field_eq_ok_iff.mpr hvalue
  rcases htag with ⟨htag, rfl⟩ | ⟨rfl, rfl⟩ | ⟨rfl, rfl⟩
  · cases hv with
    | text h =>
      have hstring := stringField_of_not_string hvalue (fun s hs => h ⟨s, hs⟩) path
      rcases htag with rfl | rfl <;> simp [atomOfTag, onlyFields_eq_ok_iff.mpr honly, hstring]
  · cases hv with
    | integer h =>
      simp only [atomOfTag, onlyFields_eq_ok_iff.mpr honly, hfield, ok_bind]
      split
      · rename_i n
        split
        · rename_i value hn
          obtain rfl := Decimal.int64?_eq_some_iff.mp hn
          exact absurd ⟨_, rfl, value.le_toInt, value.toInt_lt⟩ h
        · rfl
      · rfl
  · cases hv with
    | truth h =>
      simp only [atomOfTag, onlyFields_eq_ok_iff.mpr honly, hfield, ok_bind]
      split
      · rename_i b
        exact absurd ⟨b, rfl⟩ h
      · rfl

theorem exists_atomOfTag (hfields : contents? tag = some [(key, content)]) (honly : ∀ m ∈ ms, m.1 ∈ ["type", key])
    (hvalue : lookup? key ms = some v) (hv : content.Admits v) : ∃ a, ∀ path, atomOfTag path tag ms = .ok a := by
  obtain ⟨rfl, htag⟩ := leaf_cases hfields
  have hfield (path : String) : field path "value" ms = .ok v := field_eq_ok_iff.mpr hvalue
  have hfields' (path : String) : onlyFields path ["value"] ms = .ok () := onlyFields_eq_ok_iff.mpr honly
  rcases htag with ⟨rfl | rfl, rfl⟩ | ⟨rfl, rfl⟩ | ⟨rfl, rfl⟩
  · obtain ⟨s, rfl⟩ := hv
    exact ⟨.variable s, fun path => by simp [atomOfTag, hfields', stringField, hfield]⟩
  · obtain ⟨s, rfl⟩ := hv
    exact ⟨.text s, fun path => by simp [atomOfTag, hfields', stringField, hfield]⟩
  · obtain ⟨n, rfl, hlow, hhigh⟩ := hv
    have hn : (Int64.ofInt n).toInt = n := Int64.toInt_ofInt_of_le hlow hhigh
    exact ⟨.number (.ofInt n), fun path => by simp [atomOfTag, hfields', hfield, Decimal.int64?_eq_some_iff.mpr hn]⟩
  · obtain ⟨b, rfl⟩ := hv
    exact ⟨.truth b, fun path => by simp [atomOfTag, hfields', hfield]⟩

end Node

/-! ### The first bad node -/

section Location

variable {tag key : String} {ms : List (String × Json)} {content : Content} {before after : List (String × Content)}
  {v w : Json} {steps : List Side} {cause : DecodeCause}

/-- The members of an operation in front of one of them. -/
theorem operation_cases (h : contents? "binaryOp" = some (before ++ (key, content) :: after)) :
    (before = [] ∧ key = "op" ∧ content = .symbol) ∨
    (before = [("op", .symbol)] ∧ key = "left" ∧ content = .node) ∨
    (before = [("op", .symbol), ("left", .node)] ∧ key = "right" ∧ content = .node) := by
  have hlist : [("op", .symbol), ("left", .node), ("right", .node)] = before ++ (key, content) :: after :=
    Option.some.inj h
  match before with
  | [] => simp_all
  | [f] => simp_all
  | [f, g] =>
    simp only [List.cons_append, List.nil_append, List.cons.injEq, Prod.mk.injEq] at hlist
    obtain ⟨rfl, rfl, ⟨rfl, rfl⟩, -⟩ := hlist
    exact .inr (.inr ⟨rfl, rfl, rfl⟩)
  | f :: g :: k :: rest => simp at hlist

theorem operation_of_provided (htag : lookup? "type" ms = some (.string "binaryOp"))
    (honly : ∀ m ∈ ms, m.1 ∈ ["type", "op", "left", "right"]) (hop : Provided ms ("op", .symbol)) : Operation ms := by
  obtain ⟨_, hv, ⟨op, rfl⟩, -⟩ := hop
  exact ⟨htag, honly, op, hv⟩

/-- An operation decodes its operands, the left one first. -/
theorem decodeAt_operands (h : Operation ms) : ∃ op, ∀ path,
    decodeAt (.object ms) path = (decodeChild "left" path ms >>= fun left =>
      decodeChild "right" path ms >>= fun right => .ok (.binary op left right)) := by
  obtain ⟨op, hop⟩ := h.known
  refine ⟨op, fun path => ?_⟩
  rw [decodeAt_operation h.tag h.only, stringField_eq_ok_iff.mpr hop, ok_bind, Operator.ofSymbol?_symbol]

/-- A leaf has one member besides its type at most. -/
theorem leaf_fields (hleaf : tag ≠ "binaryOp") (h : contents? tag = some (before ++ (key, content) :: after)) :
    before = [] ∧ after = [] := by
  unfold contents? at h
  split at h
  · exact absurd rfl hleaf
  all_goals first
    | contradiction
    | (have hlist := Option.some.inj h
       cases before with
       | nil => cases hlist <;> exact ⟨rfl, rfl⟩
       | cons f before => simp at hlist)

theorem decodeAt_of_missing (htag : lookup? "type" ms = some (.string tag))
    (hfields : contents? tag = some (before ++ (key, content) :: after))
    (honly : ∀ m ∈ ms, m.1 ∈ "type" :: (before ++ (key, content) :: after).map Prod.fst)
    (hbefore : ∀ f ∈ before, Provided ms f) (hnone : lookup? key ms = none) (path : String) :
    decodeAt (.object ms) path = .error ⟨path, .missingField key⟩ := by
  by_cases hop : tag = "binaryOp"
  · subst hop
    rw [← Option.some.inj hfields] at honly
    rcases operation_cases hfields with ⟨rfl, rfl, rfl⟩ | ⟨rfl, rfl, rfl⟩ | ⟨rfl, rfl, rfl⟩
    · rw [decodeAt_operation htag honly, stringField, field_of_none hnone]
      rfl
    · obtain ⟨op, hoperands⟩ := decodeAt_operands (operation_of_provided htag honly (hbefore _ (by simp)))
      rw [hoperands, decodeChild_of_none hnone, error_bind]
    · obtain ⟨op, hoperands⟩ := decodeAt_operands (operation_of_provided htag honly (hbefore _ (by simp)))
      obtain ⟨l, hl, -, hdecodes⟩ := hbefore ("left", .node) (by simp)
      obtain ⟨e, he⟩ := hdecodes rfl
      rw [hoperands, decodeChild_of_some hl, he, ok_bind, decodeChild_of_none hnone, error_bind]
  · obtain ⟨rfl, rfl⟩ := leaf_fields hop hfields
    rw [decodeAt_leaf htag hop, atomOfTag_of_none hfields honly hnone, error_bind]

theorem decodeAt_of_unfit (htag : lookup? "type" ms = some (.string tag))
    (hfields : contents? tag = some (before ++ (key, content) :: after))
    (honly : ∀ m ∈ ms, m.1 ∈ "type" :: (before ++ (key, content) :: after).map Prod.fst)
    (hvalue : lookup? key ms = some v) (hv : Unfit key content v cause) (path : String) :
    decodeAt (.object ms) path = .error ⟨path, cause⟩ := by
  by_cases hop : tag = "binaryOp"
  · subst hop
    rw [← Option.some.inj hfields] at honly
    -- Operands are of no concern here, so the member is the operator.
    rcases operation_cases hfields with ⟨rfl, rfl, rfl⟩ | ⟨rfl, rfl, rfl⟩ | ⟨rfl, rfl, rfl⟩
    · rw [decodeAt_operation htag honly]
      cases hv with
      | symbol h => rw [stringField_of_not_string hvalue h, error_bind]
      | @unknown s h =>
        have hnone : Operator.ofSymbol? s = none := by
          cases hs : Operator.ofSymbol? s with
          | none => rfl
          | some op => exact absurd (symbol_of_ofSymbol? hs) (h op)
        rw [stringField_eq_ok_iff.mpr hvalue, ok_bind, hnone]
    · cases hv
    · cases hv
  · obtain ⟨rfl, rfl⟩ := leaf_fields hop hfields
    rw [decodeAt_leaf htag hop, atomOfTag_of_unfit hfields honly hvalue hv, error_bind]

/-- A node that is at fault does not decode, for that reason and at its own path. -/
theorem decodeAt_of_fault (h : Fault w cause) (path : String) : decodeAt w path = .error ⟨path, cause⟩ := by
  cases h with
  | bare h =>
    cases w with
    | object ms => exact absurd rfl (h ms)
    | _ => rfl
  | untyped h => rw [decodeAt, h]
  | mistyped h hv =>
    rw [decodeAt, h]
    split
    · contradiction
    · rename_i heq
      exact absurd (Option.some.inj heq) (hv "binaryOp")
    · rename_i tag _ heq
      exact absurd (Option.some.inj heq) (hv tag)
    · rfl
  | @alien ms tag htag h =>
    have hleaf : tag ≠ "binaryOp" := by
      rintro rfl
      contradiction
    rw [decodeAt_leaf htag hleaf]
    unfold contents? at h
    unfold atomOfTag
    split at h <;> first | contradiction | simp_all
  | @extra ms before after tag key fields v htag hfields hms hbefore hkey =>
    subst hms
    have honly := @onlyFields_of_extra path key _ v before after hbefore hkey
    by_cases hop : tag = "binaryOp"
    · subst hop
      obtain rfl := Option.some.inj hfields
      rw [decodeAt, htag]
      exact congrArg (· >>= _) honly
    · rw [decodeAt_leaf htag hop, atomOfTag_of_extra hfields hop honly, error_bind]
  | missing htag hfields honly hbefore hnone => exact decodeAt_of_missing htag hfields honly hbefore hnone path
  | unfit htag hfields honly _ hvalue hv => exact decodeAt_of_unfit htag hfields honly hvalue hv path

/-- A fault is reported wherever the steps lead to it from. -/
theorem decodeAt_of_leads (h : Leads v steps w) (hfault : Fault w cause) (path : String) :
    decodeAt v path = .error ⟨location path steps, cause⟩ := by
  induction h generalizing path with
  | here w => exact decodeAt_of_fault hfault path
  | @left ms l w steps h hl _ ih =>
    obtain ⟨op, hoperands⟩ := decodeAt_operands h
    rw [hoperands, decodeChild_of_some hl, ih hfault, error_bind]
    rfl
  | @right ms l r w steps h hl hdecodes hr _ ih =>
    obtain ⟨op, hoperands⟩ := decodeAt_operands h
    obtain ⟨e, he⟩ := hdecodes
    rw [hoperands, decodeChild_of_some hl, he, ok_bind, decodeChild_of_some hr, ih hfault, error_bind]
    rfl

/-- A value with a fault at the end of some steps. -/
def Faults (v : Json) : Prop := ∃ steps w cause, Leads v steps w ∧ Fault w cause

theorem faults_here (h : Fault v cause) : Faults v := ⟨[], v, cause, .here v, h⟩

theorem leaf_decodes_or_faults (htag : lookup? "type" ms = some (.string tag)) (hop : tag ≠ "binaryOp")
    {fields : List (String × Content)} (hfields : contents? tag = some fields)
    (honly : ∀ m ∈ ms, m.1 ∈ "type" :: fields.map Prod.fst) : Decodes (.object ms) ∨ Faults (.object ms) := by
  match fields with
  | [] =>
    obtain rfl : tag = "nullNode" := by
      unfold contents? at hfields
      split at hfields <;> simp_all
    refine .inl ⟨.atom .null, fun path => ?_⟩
    have hempty : onlyFields path [] ms = .ok () := onlyFields_eq_ok_iff.mpr honly
    rw [decodeAt_leaf htag hop]
    simp [atomOfTag, hempty]
  | (key, content) :: rest =>
    obtain ⟨-, rfl⟩ := @leaf_fields tag key content [] rest hop hfields
    cases hvalue : lookup? key ms with
    | none => exact .inr (faults_here (@Fault.missing _ _ _ [] _ _ htag hfields honly (by simp) hvalue))
    | some v =>
      by_cases hv : content.Admits v
      · obtain ⟨a, ha⟩ := exists_atomOfTag hfields honly hvalue hv
        refine .inl ⟨.atom a, fun path => ?_⟩
        rw [decodeAt_leaf htag hop, ha, ok_bind]
      · have hnode : content ≠ .node := by
          obtain ⟨-, hcontent⟩ := leaf_cases hfields
          rintro rfl
          simp at hcontent
        obtain ⟨cause, hcause⟩ := exists_unfit key hv hnode
        exact .inr (faults_here (@Fault.unfit _ _ _ [] _ _ _ _ htag hfields honly (by simp) hvalue hcause))

theorem object_of_decodes (h : Decodes v) : ∃ ms, v = .object ms := by
  obtain ⟨e, he⟩ := h
  cases v with
  | object ms => exact ⟨ms, rfl⟩
  | _ => exact absurd (he "$") (by simp [decodeAt])

/-- An operation decodes if both operands do, or else one of them is missing or has a fault somewhere. -/
theorem operands_decode_or_fault (h : Operation ms)
    (hoperands : ∀ name v, lookup? name ms = some v → Decodes v ∨ Faults v) :
    Decodes (.object ms) ∨ Faults (.object ms) := by
  obtain ⟨op, hop⟩ := h.known
  have hknown : Provided ms ("op", .symbol) := ⟨_, hop, ⟨op, rfl⟩, by simp⟩
  cases hl : lookup? "left" ms with
  | none =>
    have hfields : contents? "binaryOp" = some ([("op", .symbol)] ++ ("left", .node) :: [("right", .node)]) := rfl
    have hbefore : ∀ f ∈ [("op", Content.symbol)], Provided ms f := by simpa using hknown
    exact .inr (faults_here (.missing h.tag hfields h.only hbefore hl))
  | some l =>
    rcases hoperands "left" l hl with hleft | ⟨steps, w, cause, hleads, hfault⟩
    · cases hr : lookup? "right" ms with
      | none =>
        have hfields : contents? "binaryOp" = some ([("op", .symbol), ("left", .node)] ++ ("right", .node) :: []) := rfl
        have hfirst : Provided ms ("left", .node) := ⟨l, hl, object_of_decodes hleft, fun _ => hleft⟩
        have hbefore : ∀ f ∈ [("op", Content.symbol), ("left", Content.node)], Provided ms f := by simp [hknown, hfirst]
        exact .inr (faults_here (.missing h.tag hfields h.only hbefore hr))
      | some r =>
        rcases hoperands "right" r hr with hright | ⟨steps, w, cause, hleads, hfault⟩
        · obtain ⟨op, hdecode⟩ := decodeAt_operands h
          obtain ⟨left, hleft⟩ := hleft
          obtain ⟨right, hright⟩ := hright
          refine .inl ⟨.binary op left right, fun path => ?_⟩
          rw [hdecode, decodeChild_of_some hl, hleft, ok_bind, decodeChild_of_some hr, hright, ok_bind]
        · exact .inr ⟨_, w, cause, .right h hl hleft hr hleads, hfault⟩
    · exact .inr ⟨_, w, cause, .left h hl hleads, hfault⟩

theorem operation_decodes_or_faults (htag : lookup? "type" ms = some (.string "binaryOp"))
    (honly : ∀ m ∈ ms, m.1 ∈ ["type", "op", "left", "right"])
    (hoperands : ∀ name v, lookup? name ms = some v → Decodes v ∨ Faults v) :
    Decodes (.object ms) ∨ Faults (.object ms) := by
  have hfields : contents? "binaryOp" = some ([] ++ ("op", .symbol) :: [("left", .node), ("right", .node)]) := rfl
  cases hvalue : lookup? "op" ms with
  | none => exact .inr (faults_here (.missing htag hfields honly (by simp) hvalue))
  | some v =>
    by_cases hv : Content.symbol.Admits v
    · exact operands_decode_or_fault (operation_of_provided htag honly ⟨v, hvalue, hv, by simp⟩) hoperands
    · obtain ⟨cause, hcause⟩ := exists_unfit "op" hv (by simp)
      exact .inr (faults_here (.unfit htag hfields honly (by simp) hvalue hcause))

mutual

/-- Whatever does not decode has a first fault. -/
theorem decodes_or_faults (v : Json) : Decodes v ∨ Faults v := by
  match v with
  | .null | .bool _ | .number _ | .string _ | .array _ => exact .inr (faults_here (.bare fun ms => by simp))
  | .object ms =>
    have hoperands := lookup_decodes_or_faults ms
    cases htype : lookup? "type" ms with
    | none => exact .inr (faults_here (.untyped htype))
    | some v =>
      cases v with
      | string tag =>
        cases hfields : contents? tag with
        | none => exact .inr (faults_here (.alien htype hfields))
        | some fields =>
          rcases only_or_extra (fields.map Prod.fst) ms with honly | ⟨before, key, v, after, hms, hbefore, hkey⟩
          · by_cases hop : tag = "binaryOp"
            · subst hop
              obtain rfl := Option.some.inj hfields
              exact operation_decodes_or_faults htype honly hoperands
            · exact leaf_decodes_or_faults htype hop hfields honly
          · exact .inr (faults_here (.extra htype hfields hms hbefore hkey))
      | _ => exact .inr (faults_here (.mistyped htype (by simp)))

theorem lookup_decodes_or_faults (ms : List (String × Json)) (name : String) (v : Json)
    (h : lookup? name ms = some v) : Decodes v ∨ Faults v := by
  match ms with
  | [] => contradiction
  | (k, v') :: ms =>
    have hv := decodes_or_faults v'
    rw [lookup?] at h
    split at h
    · obtain rfl := Option.some.inj h
      exact hv
    · exact lookup_decodes_or_faults ms name v h

end

/-- A value does not decode exactly if steps from its root, all of them from one operation to an operand and never
past an operand that does not decode, lead to a node that is at fault by itself. The path of the error spells these
steps, and the node alone is refused for the same cause. -/
theorem decode_located (v : Json) (err : DecodeError) :
    decode v = .error err ↔ ∃ steps w, err.path = location "$" steps ∧ Leads v steps w ∧ Fault w err.cause ∧
      decode w = .error ⟨"$", err.cause⟩ := by
  constructor
  · intro h
    rcases decodes_or_faults v with ⟨e, he⟩ | ⟨steps, w, cause, hleads, hfault⟩
    · rw [decode, he] at h
      contradiction
    · rw [decode, decodeAt_of_leads hleads hfault] at h
      obtain rfl := Except.error.inj h
      exact ⟨steps, w, rfl, hleads, hfault, decodeAt_of_fault hfault "$"⟩
  · rintro ⟨steps, w, hpath, hleads, hfault, -⟩
    obtain ⟨path, cause⟩ := err
    obtain rfl : path = location "$" steps := hpath
    exact decodeAt_of_leads hleads hfault "$"

/-- Of two bad nodes the one further to the left is to blame. -/
example : decode (.object [("type", .string "binaryOp"), ("op", .string "AND"),
    ("left", .object [("type", .string "nullNode")]),
    ("right", .object [("type", .string "binaryOp"), ("op", .string "OR"),
      ("left", .object [("type", .string "value")]), ("right", .null)])]) =
    .error ⟨"$.right.left", .missingField "value"⟩ := by
  rfl

end Location

end Criterion.Expr
