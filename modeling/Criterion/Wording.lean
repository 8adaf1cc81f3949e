/-! What the system and the libraries say of a failure. The messages of some errors end in such words, and nothing
else depends on them. -/
namespace Criterion

structure Wording where
  file : String := "the file cannot be used"
  input : String := "the input is not text"
  json : String := "the text is malformed"
  settings : String := "the text says no settings"
  nesting : String := "the tree is nested too deeply"
  filter : String := "a directive is malformed"
  deriving Repr

end Criterion
