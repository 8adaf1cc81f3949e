import Criterion.Json
import Criterion.Text

/-! Dotted paths into a document. Every dot separates, so a path has one segment more than it has dots
and empty segments are names like any other. -/
namespace Criterion

structure Path where
  segments : List String
  deriving DecidableEq, Repr

namespace Path

def ofString (text : String) : Path := ⟨(Text.split '.' text.toList).map String.ofList⟩

def toString (p : Path) : String := ".".intercalate p.segments

def follow : List String → Json → Option Json
  | [], v => some v
  | segment :: rest, v =>
    match v.member? segment with
    | some next => follow rest next
    | none => none

/-- The value at a path. Only objects have members; an array has none, not even by number. -/
def lookup? (p : Path) (document : Json) : Option Json := follow p.segments document

/-- The value at a path, where an explicit null counts as no value. -/
def present? (p : Path) (document : Json) : Option Json :=
  match p.lookup? document with
  | some .null => none
  | v => v

end Path

end Criterion
