import Criterion.Decimal
import Criterion.Operator

/-! Lexemes of expression text. A word that is exactly a keyword is that keyword, any other word
starts a dotted variable, and two-character symbols win over their one-character beginnings. Positions
count the bytes of the UTF-8 form of the text. -/
namespace Criterion

inductive Kind where
  | operator (op : Operator)
  | leftParen
  | rightParen
  | variable
  | text
  | number
  | truth (b : Bool)
  | null
  deriving DecidableEq, Repr

/-- What the parser sees: the kind and the characters, a text literal without its quotes. -/
structure Lexeme where
  kind : Kind
  text : String
  deriving DecidableEq, Repr

structure Token extends Lexeme where
  pos : Nat
  deriving DecidableEq, Repr

inductive LexicalError where
  | unexpectedCharacter (ch : Char) (pos : Nat)
  | unterminatedText (pos : Nat)
  deriving DecidableEq, Repr

def Kind.name : Kind → String
  | .operator op => if op.isLogical then op.symbol else "'" ++ op.symbol ++ "'"
  | .leftParen => "'('"
  | .rightParen => "')'"
  | .variable => "variable"
  | .text => "string"
  | .number => "number"
  | .truth true => "true"
  | .truth false => "false"
  | .null => "null"

/-- How a lexeme is named in a message: kinds with many spellings show theirs. -/
def Lexeme.describe (l : Lexeme) : String :=
  match l.kind with
  | .variable => "variable `" ++ l.text ++ "`"
  | .text => "string \"" ++ l.text ++ "\""
  | .number => "number " ++ l.text
  | kind => kind.name

namespace LexicalError

def pos : LexicalError → Nat
  | .unexpectedCharacter _ pos => pos
  | .unterminatedText pos => pos

def message : LexicalError → String
  | .unexpectedCharacter ch pos => "unexpected character '" ++ ch.toString ++ "' at " ++ Decimal.text pos
  | .unterminatedText pos => "unterminated string at " ++ Decimal.text pos

end LexicalError

namespace Token

def isSpace (c : Char) : Bool :=
  c = ' ' || c = '\t' || c = '\n' || c = '\x0b' || c = '\x0c' || c = '\r'

def isLetter (c : Char) : Bool := c.isAlpha || c = '_'

def isWordChar (c : Char) : Bool := c.isAlphanum || c = '_'

def keyword? : List Char → Option Kind
  | ['A', 'N', 'D'] => some (.operator .and)
  | ['O', 'R'] => some (.operator .or)
  | ['n', 'u', 'l', 'l'] => some .null
  | ['t', 'r', 'u', 'e'] => some (.truth true)
  | ['f', 'a', 'l', 's', 'e'] => some (.truth false)
  | _ => none

/-- Counts what continues a dotted path whose first letter has been read. A dot belongs to the path
only when a letter follows it. -/
def pathTail : List Char → Nat
  | [] => 0
  | '.' :: c :: cs => if isLetter c then pathTail cs + 2 else 0
  | c :: cs => if isWordChar c then pathTail cs + 1 else 0

/-- The word at the front of a text that starts with the letter `c`. -/
def word (c : Char) (cs : List Char) : Kind × Nat :=
  let first := c :: cs.takeWhile isWordChar
  match keyword? first with
  | some kind => (kind, first.length)
  | none => (.variable, pathTail cs + 1)

/-- A text literal runs to the next quote; nothing in it is an escape. -/
def quoted? (cs : List Char) : Option (Kind × Nat) :=
  let body := cs.takeWhile (· ≠ '"')
  if body.length < cs.length then some (.text, body.length + 2) else none

/-- The lexeme at the front of a text, with its length in characters. -/
def scan? : List Char → Option (Kind × Nat)
  | '(' :: _ => some (.leftParen, 1)
  | ')' :: _ => some (.rightParen, 1)
  | '=' :: '=' :: _ => some (.operator .equal, 2)
  | '<' :: '=' :: _ => some (.operator .atMost, 2)
  | '>' :: '=' :: _ => some (.operator .atLeast, 2)
  | '!' :: '=' :: _ => some (.operator .unequal, 2)
  | '<' :: _ => some (.operator .less, 1)
  | '>' :: _ => some (.operator .greater, 1)
  | '"' :: cs => quoted? cs
  | c :: cs =>
    if isLetter c then some (word c cs)
    else if c.isDigit then some (.number, (cs.takeWhile Char.isDigit).length + 1)
    else none
  | [] => none

/-- Drops the quotes of a text literal and keeps any other lexeme as it stands. -/
def content : Kind → List Char → List Char
  | .text, cs => (cs.drop 1).dropLast
  | _, cs => cs

def refusal (c : Char) (pos : Nat) : LexicalError :=
  if c = '"' then .unterminatedText pos else .unexpectedCharacter c pos

/-- Reads on at byte `pos`, where the next `skip` characters belong to the lexeme before. -/
def scanFrom : Nat → Nat → List Char → Except LexicalError (List Token)
  | _, _, [] => .ok []
  | pos, skip + 1, c :: cs => scanFrom (pos + c.utf8Size) skip cs
  | pos, 0, c :: cs =>
    if isSpace c then scanFrom (pos + c.utf8Size) 0 cs
    else
      match scan? (c :: cs) with
      | none => .error (refusal c pos)
      | some (kind, length) => do
        let tokens ← scanFrom (pos + c.utf8Size) (length - 1) cs
        return ⟨⟨kind, String.ofList (content kind ((c :: cs).take length))⟩, pos⟩ :: tokens

def tokenize (text : String) : Except LexicalError (List Token) := scanFrom 0 0 text.toList

end Token

end Criterion
