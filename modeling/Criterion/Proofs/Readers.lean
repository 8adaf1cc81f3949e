import Criterion.Proofs.Encoding
import Criterion.Proofs.Json.Spelling

/-! The two readers of trees. Both read a value and decode it, one without a limit on the nesting and looking at what
follows the value before it decodes, the other with the limit of documents and looking at what follows afterwards. So
they agree on every JSON text that nests no deeper than a document, and beyond that only the first one reads trees. They
refuse every other text, but where such a text begins with a value that is no tree, the second one says so. -/
namespace Criterion.Expr

open Json

variable {text : String} {v : Json}

theorem ofEncoded_of_read (h : read? none text = some v) : ofEncoded text = (decode v.canonical).mapError .refused := by
  rw [ofEncoded, h]
  cases hdecode : decode v.canonical <;> simp [hdecode, Except.mapError]

theorem ofEncoded_of_unread (h : read? none text = none) : ofEncoded text = .error .malformed := by
  rw [ofEncoded, h]

theorem ofDocument_of_read (h : read? none text = some v) :
    ofDocument text = if nesting v ≤ nestingLimit then ofEncoded text else .error .malformed := by
  obtain ⟨rest, hread, hblank⟩ := read?_eq_some_iff.mp h
  rw [ofDocument]
  split
  · rename_i hunread
    rw [if_neg]
    intro hfits
    rw [readFirst_limited_iff.mpr ⟨hread, hfits⟩] at hunread
    contradiction
  · rename_i w other hother
    obtain ⟨hagain, hfits⟩ := readFirst_limited_iff.mp hother
    obtain ⟨rfl, rfl⟩ := Prod.mk.inj (Option.some.inj (hread.symm.trans hagain))
    rw [if_pos hfits, ofEncoded_of_read h]
    cases decode v.canonical with
    | error e => rfl
    | ok e => simp [Except.mapError, hblank]

/-- The text begins with a value that documents may have and that is refused as a tree. -/
def Opens (text : String) (e : DecodeError) : Prop :=
  ∃ v rest, readFirst none text = some (v, rest) ∧ nesting v ≤ nestingLimit ∧ decode v.canonical = .error e

/-- A text that is no JSON text is refused, for the value in front if that is no tree. -/
theorem ofDocument_of_unread (h : read? none text = none) :
    (∃ e, Opens text e ∧ ofDocument text = .error (.refused e)) ∨
      (∀ e, ¬ Opens text e) ∧ ofDocument text = .error .malformed := by
  have hopens {e : DecodeError} (he : Opens text e) : ofDocument text = .error (.refused e) := by
    obtain ⟨v, rest, hread, hfits, hdecode⟩ := he
    rw [ofDocument, readFirst_limited_iff.mpr ⟨hread, hfits⟩]
    simp only [hdecode]
  by_cases hfront : ∃ e, Opens text e
  · obtain ⟨e, he⟩ := hfront
    exact .inl ⟨e, he, hopens he⟩
  · refine .inr ⟨not_exists.mp hfront, ?_⟩
    rw [ofDocument]
    split
    · rfl
    · rename_i v rest hread
      obtain ⟨hfirst, hfits⟩ := readFirst_limited_iff.mp hread
      split
      · rename_i e hdecode
        exact absurd ⟨e, v, rest, hfirst, hfits, hdecode⟩ hfront
      · rw [if_neg]
        intro hblank
        rw [read?_eq_some_iff.mpr ⟨rest, hfirst, hblank⟩] at h
        contradiction

/-- Both readers agree on the JSON texts that documents may have: they give the same tree or refuse it for the same
reason. A deeper text is refused by the reader of documents only, and a text that is no JSON text by both, where the
reader of documents may find fault with the value in front. -/
theorem readers_agree (text : String) :
    (∀ v, read? none text = some v →
      ofEncoded text = (decode v.canonical).mapError .refused ∧
      (nesting v ≤ nestingLimit → ofDocument text = ofEncoded text) ∧
      (nestingLimit < nesting v → ofDocument text = .error .malformed)) ∧
    (read? none text = none →
      ofEncoded text = .error .malformed ∧
      ((∃ e, Opens text e ∧ ofDocument text = .error (.refused e)) ∨
        (∀ e, ¬ Opens text e) ∧ ofDocument text = .error .malformed)) ∧
    ∀ e : Expr, ofEncoded e.encode = .ok e ∧
      ofDocument e.encode = if e.levels ≤ nestingLimit then .ok e else .error .malformed := by
  refine ⟨fun v h => ⟨ofEncoded_of_read h, fun hfits => ?_, fun hdeep => ?_⟩,
    fun h => ⟨ofEncoded_of_unread h, ofDocument_of_unread h⟩, fun e => ⟨ofEncoded_encode e, ?_⟩⟩
  · rw [ofDocument_of_read h, if_pos hfits]
  · rw [ofDocument_of_read h, if_neg (Nat.not_le.mpr hdeep)]
  · rw [ofDocument_of_read (read?_encode e), nesting_toJson, ofEncoded_encode]

/-- The value in front of a second one is no tree, which the reader of documents says first. -/
theorem refused_before_malformed :
    read? none "{} {}" = none ∧ ofEncoded "{} {}" = .error .malformed ∧
      ofDocument "{} {}" = .error (.refused ⟨"$", .missingType⟩) :=
  ⟨rfl, rfl, rfl⟩

end Criterion.Expr
