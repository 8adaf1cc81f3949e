import Criterion.Json

/-! JSON text, on one line or indented by two spaces a level. Each function puts the text of its
argument in front of the text that follows. Strings escape the quote, the backslash and the control
characters below U+0020, nothing else. -/
namespace Criterion.Json

def hexDigit (n : Nat) : Char := Nat.digitChar (n % 16)

def escape (c : Char) (rest : List Char) : List Char :=
  if c = '"' then '\\' :: '"' :: rest
  else if c = '\\' then '\\' :: '\\' :: rest
  else if c = '\x08' then '\\' :: 'b' :: rest
  else if c = '\x0c' then '\\' :: 'f' :: rest
  else if c = '\n' then '\\' :: 'n' :: rest
  else if c = '\r' then '\\' :: 'r' :: rest
  else if c = '\t' then '\\' :: 't' :: rest
  else if c.toNat < 32 then
    '\\' :: 'u' :: '0' :: '0' :: hexDigit (c.toNat / 16) :: hexDigit c.toNat :: rest
  else c :: rest

def writeString (s : String) (rest : List Char) : List Char :=
  '"' :: s.toList.foldr escape ('"' :: rest)

def writeScalar : Json → List Char → List Char
  | .null, rest => 'n' :: 'u' :: 'l' :: 'l' :: rest
  | .bool true, rest => 't' :: 'r' :: 'u' :: 'e' :: rest
  | .bool false, rest => 'f' :: 'a' :: 'l' :: 's' :: 'e' :: rest
  | .number n, rest => n.digits ++ rest
  | .string s, rest => writeString s rest
  | .array _, rest => rest
  | .object _, rest => rest

mutual

def writeCompact : Json → List Char → List Char
  | .array items, rest => '[' :: writeItems items (']' :: rest)
  | .object members, rest => '{' :: writeMembers members ('}' :: rest)
  | v, rest => v.writeScalar rest

def writeItems : List Json → List Char → List Char
  | [], rest => rest
  | [v], rest => writeCompact v rest
  | v :: w :: vs, rest => writeCompact v (',' :: writeItems (w :: vs) rest)

def writeMembers : List (String × Json) → List Char → List Char
  | [], rest => rest
  | [(k, v)], rest => writeString k (':' :: writeCompact v rest)
  | (k, v) :: m :: ms, rest => writeString k (':' :: writeCompact v (',' :: writeMembers (m :: ms) rest))

end

def compact (v : Json) : String := String.ofList (v.writeCompact [])

def newline (depth : Nat) (rest : List Char) : List Char := '\n' :: (List.replicate (2 * depth) ' ' ++ rest)

mutual

/-- The text of a value that stands at the given depth. An empty array or object takes no lines. -/
def writePretty (depth : Nat) : Json → List Char → List Char
  | .array [], rest => '[' :: ']' :: rest
  | .array (v :: vs), rest => '[' :: writeLines (depth + 1) (v :: vs) (newline depth (']' :: rest))
  | .object [], rest => '{' :: '}' :: rest
  | .object (m :: ms), rest => '{' :: writeMemberLines (depth + 1) (m :: ms) (newline depth ('}' :: rest))
  | v, rest => v.writeScalar rest

def writeLines (depth : Nat) : List Json → List Char → List Char
  | [], rest => rest
  | [v], rest => newline depth (writePretty depth v rest)
  | v :: w :: vs, rest => newline depth (writePretty depth v (',' :: writeLines depth (w :: vs) rest))

def writeMemberLines (depth : Nat) : List (String × Json) → List Char → List Char
  | [], rest => rest
  | [(k, v)], rest => newline depth (writeString k (':' :: ' ' :: writePretty depth v rest))
  | (k, v) :: m :: ms, rest =>
    newline depth (writeString k (':' :: ' ' :: writePretty depth v (',' :: writeMemberLines depth (m :: ms) rest)))

end

def pretty (v : Json) : String := String.ofList (v.writePretty 0 [])

end Criterion.Json
