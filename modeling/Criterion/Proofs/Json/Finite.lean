import Criterion.Json.Read
import Criterion.Path
import Criterion.Proofs.Json.Canonical

/-! Documents hold finite numbers only. A number that rounds to infinity is refused where it is scanned, so that it
gets into none of the values that are read, and sorting the members of a value brings in no number. -/
namespace Criterion.Json

/-- All numbers in the value are finite. -/
inductive Finite : Json → Prop
  | null : Finite .null
  | bool (b : Bool) : Finite (.bool b)
  | number {n : Number} (h : n.isFinite = true) : Finite (.number n)
  | string (s : String) : Finite (.string s)
  | array {items : List Json} (h : ∀ v ∈ items, Finite v) : Finite (.array items)
  | object {members : List (String × Json)} (h : ∀ m ∈ members, Finite m.2) : Finite (.object members)

def Lexeme.Finite : Lexeme → Prop
  | .number n => n.isFinite = true
  | _ => True

abbrev FiniteItems (items : List Json) : Prop := ∀ v ∈ items, v.Finite

abbrev FiniteMembers (members : List (String × Json)) : Prop := ∀ m ∈ members, m.2.Finite

def Frame.Finite : Frame → Prop
  | .item before => FiniteItems before
  | .member before _ => FiniteMembers before

abbrev FiniteFrames (frames : List Frame) : Prop := ∀ f ∈ frames, f.Finite

def State.Finite : State → Prop
  | .value frames | .firstItem frames | .firstKey frames => FiniteFrames frames
  | .key before frames | .colon before _ frames | .afterMember before frames =>
    FiniteMembers before ∧ FiniteFrames frames
  | .afterItem items frames => FiniteItems items ∧ FiniteFrames frames

def Progress.Finite : Progress → Prop
  | .more s => s.Finite
  | .done v => v.Finite

section Scanning

variable {cs : List Char} {length : Nat}

theorem isFinite_of_scanUnsigned {negative : Bool} {n : Number} (h : scanUnsigned negative cs = some (n, length)) :
    n.isFinite = true := by
  unfold scanUnsigned at h
  dsimp -zeta only at h
  extract_lets whole at h
  split at h
  · contradiction
  · split at h
    · contradiction
    · extract_lets found at h
      split at h
      · rename_i hfinite
        obtain ⟨rfl, -⟩ := Prod.mk.inj (Option.some.inj h)
        exact hfinite
      · contradiction

theorem isFinite_of_scanNumber {n : Number} (h : scanNumber cs = some (n, length)) : n.isFinite = true := by
  unfold scanNumber at h
  split at h
  · obtain ⟨⟨m, k⟩, hscan, heq⟩ := Option.map_eq_some_iff.mp h
    obtain ⟨rfl, -⟩ := Prod.mk.inj heq
    exact isFinite_of_scanUnsigned hscan
  · exact isFinite_of_scanUnsigned h

theorem finite_of_scan? {l : Lexeme} (h : scan? cs = some (l, length)) : l.Finite := by
  unfold scan? at h
  split at h
  -- All lexemes but strings and numbers are known by their first characters.
  all_goals try (obtain ⟨rfl, -⟩ := Prod.mk.inj (Option.some.inj h); trivial)
  · obtain ⟨⟨s, k⟩, -, heq⟩ := Option.map_eq_some_iff.mp h
    obtain ⟨rfl, -⟩ := Prod.mk.inj heq
    trivial
  · obtain ⟨⟨n, k⟩, hscan, heq⟩ := Option.map_eq_some_iff.mp h
    obtain ⟨rfl, -⟩ := Prod.mk.inj heq
    exact isFinite_of_scanNumber hscan

end Scanning

section Reading

variable {limit : Option Nat} {frames : List Frame} {l : Lexeme} {p : Progress} {v : Json}

theorem finite_complete (hv : v.Finite) (hframes : FiniteFrames frames) : (complete v frames).Finite := by
  cases frames with
  | nil => exact hv
  | cons f rest =>
    obtain ⟨hf, hrest⟩ := List.forall_mem_cons.mp hframes
    cases f with
    | item before => exact ⟨List.forall_mem_cons.mpr ⟨hv, hf⟩, hrest⟩
    | member before key => exact ⟨List.forall_mem_cons.mpr ⟨hv, hf⟩, hrest⟩

theorem finite_beginValue (hl : l.Finite) (hframes : FiniteFrames frames)
    (h : beginValue limit frames l = some p) : p.Finite := by
  cases l with
  | null =>
    obtain rfl := Option.some.inj h
    exact finite_complete .null hframes
  | bool b =>
    obtain rfl := Option.some.inj h
    exact finite_complete (.bool b) hframes
  | number n =>
    obtain rfl := Option.some.inj h
    exact finite_complete (.number hl) hframes
  | string s =>
    obtain rfl := Option.some.inj h
    exact finite_complete (.string s) hframes
  | leftBracket =>
    rw [beginValue] at h
    split at h
    · obtain rfl := Option.some.inj h
      exact hframes
    · contradiction
  | leftBrace =>
    rw [beginValue] at h
    split at h
    · obtain rfl := Option.some.inj h
      exact hframes
    · contradiction
  | _ => contradiction

theorem finite_item_nil : (Frame.item []).Finite := List.forall_mem_nil _

theorem finite_step {s : State} (hs : s.Finite) (hl : l.Finite) (h : step limit s l = some p) : p.Finite := by
  unfold step at h
  split at h
  · exact finite_beginValue hl hs h
  · obtain rfl := Option.some.inj h
    exact finite_complete (.array (List.forall_mem_nil _)) hs
  · exact finite_beginValue hl (List.forall_mem_cons.mpr ⟨finite_item_nil, hs⟩) h
  · obtain rfl := Option.some.inj h
    exact finite_complete (.object (List.forall_mem_nil _)) hs
  · obtain rfl := Option.some.inj h
    exact ⟨List.forall_mem_nil _, hs⟩
  · obtain rfl := Option.some.inj h
    exact hs
  · obtain rfl := Option.some.inj h
    exact List.forall_mem_cons.mpr hs
  · obtain rfl := Option.some.inj h
    exact List.forall_mem_cons.mpr hs
  · obtain rfl := Option.some.inj h
    exact finite_complete (.array fun v hv => hs.1 v (List.mem_reverse.mp hv)) hs.2
  · obtain rfl := Option.some.inj h
    exact hs
  · obtain rfl := Option.some.inj h
    exact finite_complete (.object fun m hm => hs.1 m (List.mem_reverse.mp hm)) hs.2
  · contradiction

theorem finite_readFrom {s : State} {skip : Nat} {text rest : List Char} (hs : s.Finite)
    (h : readFrom limit s skip text = some (v, rest)) : v.Finite := by
  induction text generalizing s skip with
  | nil => cases skip <;> contradiction
  | cons c cs ih =>
    cases skip with
    | succ skip => exact ih hs h
    | zero =>
      rw [readFrom] at h
      split at h
      · exact ih hs h
      · split at h
        · contradiction
        · rename_i l length hscan
          split at h
          · contradiction
          · rename_i next hstep
            exact ih (finite_step hs (finite_of_scan? hscan) hstep) h
          · rename_i w hstep
            obtain ⟨rfl, -⟩ := Prod.mk.inj (Option.some.inj h)
            exact finite_step hs (finite_of_scan? hscan) hstep

theorem finite_of_read? {text : String} (h : read? limit text = some v) : v.Finite := by
  rw [read?, readFirst] at h
  split at h
  · rename_i w rest hread
    split at h
    · obtain rfl := Option.some.inj h
      have hstart : (State.value []).Finite := List.forall_mem_nil _
      exact finite_readFrom hstart hread
    · contradiction
  · contradiction

end Reading

section Members

variable {v w : Json} {key : String}

mutual

theorem finite_canonical (v : Json) (h : v.Finite) : v.canonical.Finite := by
  match v, h with
  | .null, h | .bool _, h | .number _, h | .string _, h => exact h
  | .array items, .array h => exact .array (finite_canonicalItems items h)
  | .object members, .object h => exact .object (finite_canonicalMembers members h)

theorem finite_canonicalItems (items : List Json) (h : FiniteItems items) : FiniteItems (canonicalItems items) := by
  match items with
  | [] => exact List.forall_mem_nil _
  | v :: vs =>
    obtain ⟨hv, hvs⟩ := List.forall_mem_cons.mp h
    exact List.forall_mem_cons.mpr ⟨finite_canonical v hv, finite_canonicalItems vs hvs⟩

theorem finite_canonicalMembers (members : List (String × Json)) (h : FiniteMembers members) :
    FiniteMembers (canonicalMembers members) := by
  match members with
  | [] => exact List.forall_mem_nil _
  | (k, v) :: ms =>
    obtain ⟨hv, hms⟩ := List.forall_mem_cons.mp h
    intro m hm
    rcases mem_adjoin hm with rfl | hm
    · exact finite_canonical v hv
    · exact finite_canonicalMembers ms hms m hm

end

theorem finite_of_document? {text : String} (h : document? text = some v) : v.Finite := by
  obtain ⟨w, hread, rfl⟩ := Option.map_eq_some_iff.mp h
  exact finite_canonical w (finite_of_read? hread)

theorem finite_of_member? (h : v.Finite) (hmember : v.member? key = some w) : w.Finite := by
  cases h with
  | object h => exact h _ (mem_of_lookup? hmember)
  | _ => contradiction

/-- What stands at a path of a value has no other numbers than the value. -/
theorem finite_of_follow {segments : List String} (h : v.Finite) (hfollow : Path.follow segments v = some w) :
    w.Finite := by
  induction segments generalizing v with
  | nil =>
    obtain rfl := Option.some.inj hfollow
    exact h
  | cons segment segments ih =>
    rw [Path.follow] at hfollow
    split at hfollow
    · rename_i next hmember
      exact ih (finite_of_member? h hmember) hfollow
    · contradiction

end Members

end Criterion.Json
