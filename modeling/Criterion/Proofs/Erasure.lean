import Criterion.Proofs.Dependence
import Criterion.Proofs.Json.Canonical
import Criterion.Proofs.Text

/-! What the language cannot see of a document: members that are null, members whose key has a dot in it, and the
items of arrays. A path comes to the same text in a document without them, so no tree can tell it from the
document it is made of, and a member that is null might as well be missing. -/
namespace Criterion

namespace Json

def isNull : Json → Bool
  | .null => true
  | _ => false

/-- Says whether no path can make anything of a member. -/
def hidden (key : String) (value : Json) : Bool := key.toList.contains '.' || value.isNull

mutual

/-- The value without the members that are hidden and without the items of arrays. -/
def erase : Json → Json
  | .array _ => .array []
  | .object members => .object (eraseMembers members)
  | v => v

def eraseMembers : List (String × Json) → List (String × Json)
  | [] => []
  | (k, v) :: ms => if hidden k v then eraseMembers ms else (k, v.erase) :: eraseMembers ms

end

variable {key : String} {v : Json} {ms : List (String × Json)}

theorem isNull_iff : v.isNull = true ↔ v = .null := by
  cases v <;> simp [isNull]

@[simp] theorem isNull_erase (v : Json) : v.erase.isNull = v.isNull := by
  cases v <;> rfl

theorem scalarText_erase (v : Json) : v.erase.scalarText = v.scalarText := by
  cases v <;> rfl

/-- In a document each key stands once, so nothing comes to light behind a member that is dropped. -/
theorem lookup?_eraseMembers (hkey : '.' ∉ key.toList) (ha : Ascending ms) :
    lookup? key (eraseMembers ms) = ((lookup? key ms).filter fun v => !v.isNull).map erase := by
  induction ms with
  | nil => rfl
  | cons m ms ih =>
    obtain ⟨k, v⟩ := m
    obtain ⟨hk, hms⟩ := List.pairwise_cons.mp ha
    have hrest := ih hms
    rw [eraseMembers, lookup?]
    by_cases hkeys : k = key
    · subst hkeys
      have hhidden : hidden k v = v.isNull := by simp [hidden, hkey]
      have hnone : lookup? k ms = none :=
        lookup?_eq_none_iff.mpr fun w hw => String.lt_irrefl k (hk (k, w) hw)
      rw [hnone] at hrest
      cases hnull : v.isNull with
      | true => simp [hhidden, hnull, hrest, Option.filter]
      | false => simp [hhidden, hnull, lookup?, Option.filter]
    · rw [if_neg hkeys, ← hrest]
      split
      · rfl
      · rw [lookup?, if_neg hkeys]

theorem member?_erase (hkey : '.' ∉ key.toList) (h : Ordered v) :
    v.erase.member? key = ((v.member? key).filter fun w => !w.isNull).map erase := by
  cases v with
  | object members => exact lookup?_eraseMembers hkey h.1
  | null | bool | number | string | array => rfl

theorem ordered_of_member? {w : Json} (h : Ordered v) (hw : v.member? key = some w) : Ordered w := by
  cases v with
  | object members => exact ordered_of_lookup? h.2 hw
  | null | bool | number | string | array => contradiction

end Json

namespace Path

variable {v : Json} {segments : List String} {segment : String}

theorem present?_eq_filter (p : Path) (v : Json) : p.present? v = (p.lookup? v).filter fun w => !w.isNull := by
  rw [present?]
  cases p.lookup? v with
  | none => rfl
  | some w => cases w <;> rfl

/-- A null on the way ends a path as a missing member does. -/
theorem present?_cons (segment : String) (segments : List String) (v : Json) :
    present? ⟨segment :: segments⟩ v =
      ((v.member? segment).filter fun w => !w.isNull).bind (present? ⟨segments⟩) := by
  rw [present?_eq_filter, lookup?, follow]
  cases v.member? segment with
  | none => rfl
  | some w =>
    cases hnull : w.isNull with
    | false => simp [hnull, present?_eq_filter, lookup?, Option.filter]
    | true =>
      obtain rfl := Json.isNull_iff.mp hnull
      cases segments <;> rfl

/-- In a document without null members a path that leads anywhere leads to something. -/
theorem lookup?_erase (hne : segments ≠ []) (hdot : ∀ segment ∈ segments, '.' ∉ segment.toList) (h : v.Ordered) :
    lookup? ⟨segments⟩ v.erase = (present? ⟨segments⟩ v).map Json.erase := by
  induction segments generalizing v with
  | nil => exact absurd rfl hne
  | cons segment rest ih =>
    obtain ⟨hsegment, hrest⟩ := List.forall_mem_cons.mp hdot
    rw [present?_cons, lookup?, follow, Json.member?_erase hsegment h]
    cases hmember : v.member? segment with
    | none => rfl
    | some w =>
      have hw := Json.ordered_of_member? h hmember
      cases hnull : w.isNull with
      | true => simp [hnull, Option.filter]
      | false =>
        simp only [hnull, Option.filter, Bool.not_false, if_true, Option.map_some, Option.bind_some]
        cases rest with
        | nil => simp [present?_eq_filter, lookup?, follow, hnull, Option.filter]
        | cons next rest => exact ih (by simp) hrest hw

theorem dotless_ofString {path : String} (h : segment ∈ (ofString path).segments) : '.' ∉ segment.toList := by
  obtain ⟨piece, hpiece, rfl⟩ := List.mem_map.mp h
  rw [String.toList_ofList]
  exact Text.not_mem_of_mem_split hpiece

theorem segments_ofString_ne_nil (path : String) : (ofString path).segments ≠ [] := by
  simpa [ofString] using Text.split_ne_nil

theorem lookup?_ofString_erase (path : String) (h : v.Ordered) :
    (ofString path).lookup? v.erase = ((ofString path).present? v).map Json.erase :=
  lookup?_erase (segments_ofString_ne_nil path) (fun _ => dotless_ofString) h

theorem present?_eq_none_iff {p : Path} :
    p.present? v = none ↔ p.lookup? v = none ∨ p.lookup? v = some .null := by
  rw [present?_eq_filter]
  cases p.lookup? v with
  | none => simp
  | some w => simp [Json.isNull_iff]

/-- What is found at a path has the same text in both documents. -/
theorem alike_erase (path : String) (h : v.Ordered) : (ofString path).Alike v v.erase := by
  refine ⟨_, says_iff.mpr rfl, says_iff.mpr ?_⟩
  rw [present?_eq_filter, lookup?_ofString_erase path h, present?_eq_filter]
  cases (ofString path).lookup? v with
  | none => rfl
  | some w =>
    cases hnull : w.isNull with
    | true => simp [hnull, Option.filter]
    | false => simp [hnull, Json.scalarText_erase, Option.filter]

end Path

namespace Expr

variable {document other : Json}

theorem indistinct_erase (e : Expr) (h : document.Ordered) : Indistinct document document.erase e :=
  fun path _ => Path.alike_erase path h

theorem evaluate_erase (e : Expr) (h : document.Ordered) : e.evaluate document = e.evaluate document.erase :=
  evaluate_of_indistinct (indistinct_erase e h)

theorem resolve_erase (e : Expr) (h : document.Ordered) : e.resolve document = e.resolve document.erase := by
  rw [resolve, resolve, evaluate_erase e h, operand_of_indistinct (indistinct_erase e h)]

/-- A tree has the same outcome on a document and on what is left of it without what the language cannot see.
What is left leads nowhere exactly where the document leads nowhere or to a null, so documents that leave the same
have the same outcomes. -/
theorem outcome_erase (e : Expr) (h : document.Ordered) :
    (e.evaluate document = e.evaluate document.erase ∧ e.resolve document = e.resolve document.erase) ∧
      (∀ path, (Path.ofString path).lookup? document.erase = none ↔
        (Path.ofString path).lookup? document = none ∨ (Path.ofString path).lookup? document = some .null) ∧
      ∀ other, Json.Ordered other → other.erase = document.erase →
        e.evaluate other = e.evaluate document ∧ e.resolve other = e.resolve document := by
  refine ⟨⟨evaluate_erase e h, resolve_erase e h⟩, fun path => ?_, fun other hother hsame => ⟨?_, ?_⟩⟩
  · rw [Path.lookup?_ofString_erase path h, Option.map_eq_none_iff, Path.present?_eq_none_iff]
  · rw [evaluate_erase e hother, hsame, evaluate_erase e h]
  · rw [resolve_erase e hother, hsame, resolve_erase e h]

/-- A null in the middle of a path, a key with a dot and the items of an array make no difference. -/
theorem outcome_erase_nested :
    let document : Json := .object [("a", .object [("b", .null), ("c.d", .bool true)]), ("t", .array [.null])]
    let bare : Json := .object [("a", .object []), ("t", .array [])]
    let e : Expr := .binary .and (.binary .equal (.atom (.variable "t")) (.atom (.variable "a")))
      (.atom (.variable "a.b.c"))
    document.Ordered ∧ bare.Ordered ∧ document.erase = bare ∧ bare.erase = document.erase ∧
      e.evaluate document = .error (.missingCondition "a.b.c") ∧ e.evaluate bare = e.evaluate document ∧
      (Path.ofString "a.b").lookup? bare = none := by
  intro document bare e
  have houter : ["a", "t"].Pairwise (· < ·) := by decide
  have hinner : ["b", "c.d"].Pairwise (· < ·) := by decide
  have hordered : document.Ordered :=
    ⟨Json.ascending_of_keys houter, ⟨Json.ascending_of_keys hinner, trivial, trivial, trivial⟩,
      ⟨trivial, trivial⟩, trivial⟩
  have hbare : bare.Ordered := ⟨Json.ascending_of_keys houter, ⟨.nil, trivial⟩, trivial, trivial⟩
  have herase : document.erase = bare := rfl
  obtain ⟨-, hlookup, hother⟩ := outcome_erase e hordered
  refine ⟨hordered, hbare, herase, rfl, rfl, (hother bare hbare rfl).1, ?_⟩
  exact herase ▸ (hlookup "a.b").mpr (.inr rfl)

end Expr

end Criterion
