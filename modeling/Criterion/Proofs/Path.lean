import Criterion.Path
import Criterion.Proofs.Text

/-! Dotted paths, put together and taken apart. Cutting a text into segments and joining segments undo each other, and
a path that is written behind another one and a dot goes on from where that one leads. -/
namespace Criterion.Path

variable {front back : List String} {v : Json}

/-- The second part is followed from where the first one ends. -/
theorem follow_append : follow (front ++ back) v = (follow front v).bind (follow back) := by
  induction front generalizing v with
  | nil => rfl
  | cons segment front ih =>
    rw [List.cons_append, follow, follow]
    cases v.member? segment with
    | none => rfl
    | some next => exact ih

theorem lookup?_append (first second : String) (document : Json) :
    (ofString (first ++ "." ++ second)).lookup? document =
      ((ofString first).lookup? document).bind (ofString second).lookup? := by
  have hsegments :
      (ofString (first ++ "." ++ second)).segments = (ofString first).segments ++ (ofString second).segments :=
    Text.pieces_append '.' first second
  rw [lookup?, hsegments]
  exact follow_append

/-- Segments without a dot come back from the text that they are joined to, and every text comes back from its
segments. A path behind another one and a dot leads nowhere where that one does, and otherwise to what it leads to in
the value that is found there. -/
theorem paths_compose :
    (∀ segments : List String, segments ≠ [] → (∀ segment ∈ segments, '.' ∉ segment.toList) →
      (ofString (".".intercalate segments)).segments = segments) ∧
    (∀ text, (ofString text).toString = text) ∧
    ∀ (first second : String) (document : Json),
      (ofString (first ++ "." ++ second)).lookup? document =
        ((ofString first).lookup? document).bind (ofString second).lookup? :=
  ⟨fun _ hne hdot => Text.pieces_intercalate hne hdot, Text.intercalate_pieces '.', lookup?_append⟩

/-- Empty segments are segments, and the path with one more leads nowhere because a number has no members. -/
theorem paths_compose_empty :
    let segments := ["", "a", ""]
    let document : Json := .object [("", .object [("a", .number (.whole 5))])]
    segments ≠ [] ∧ (∀ segment ∈ segments, '.' ∉ segment.toList) ∧ (ofString ".a.").segments = segments ∧
      (ofString ".a").lookup? document = some (.number (.whole 5)) ∧ (ofString ".a.").lookup? document = none := by
  intro segments document
  obtain ⟨hsegments, -, hlookup⟩ := paths_compose
  have hne : segments ≠ [] := by simp [segments]
  have hdot : ∀ segment ∈ segments, '.' ∉ segment.toList := by decide
  have hfound : (ofString ".a").lookup? document = some (.number (.whole 5)) := rfl
  have hjoined : ".".intercalate segments = ".a." := by decide
  refine ⟨hne, hdot, ?_, hfound, ?_⟩
  · rw [← hjoined]
    exact hsegments segments hne hdot
  · rw [show ".a." = ".a" ++ "." ++ "" from by decide, hlookup, hfound]
    rfl

end Criterion.Path
