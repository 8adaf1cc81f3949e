import Criterion.Catalog.Shelf
import Criterion.Expr.Encoding
import Criterion.Expr.Verdict

/-! A registry takes expressions as text, keeps those that compile, and evaluates them by id. The
C spellings of AND and OR are replaced first, and the limit on the length is a limit on what is then
compiled and kept. -/
namespace Criterion

inductive RegistryError where
  | tooLong (max actual : Nat)
  | compile (e : CompileError)
  | stored (e : TreeError)
  | verdict (e : VerdictError)
  | notFound (id : UInt64)
  | catalog (e : CatalogError)
  deriving DecidableEq, Repr

namespace RegistryError

def message (e : RegistryError) (w : Wording := {}) : String :=
  match e with
  | .tooLong max actual =>
    "input string exceeds the maximum length of " ++ Decimal.text max ++ " characters (got " ++
      Decimal.text actual ++ ")"
  | .compile e => e.message
  | .stored e => "AST codec failed: " ++ e.message w
  | .verdict e => "evaluation failed: " ++ e.message w
  | .notFound id => "expression not found with id " ++ Decimal.text id.toNat
  | .catalog e => "store failed: " ++ e.message w

/-- The index of the lexeme that a grammatical error is reported at. -/
def position? : RegistryError → Option Nat
  | .compile (.grammatical e) => some e.position
  | _ => none

end RegistryError

structure Compiled where
  expression : String
  tree : Expr
  encoded : String
  deriving DecidableEq, Repr

structure Evaluation where
  id : UInt64
  result : Bool
  expression : String
  deriving DecidableEq, Repr

structure Registry where
  shelf : Shelf
  limit : Nat
  deriving DecidableEq, Repr

namespace Registry

def defaultLimit : Nat := 2000

/-- Replaces each doubled `c`, from left to right. -/
def replaceDouble (c : Char) (word : List Char) : List Char → List Char
  | a :: b :: cs => if a = c ∧ b = c then word ++ replaceDouble c word cs else a :: replaceDouble c word (b :: cs)
  | cs => cs

/-- Spells `&&` as AND and `||` as OR. -/
def respell (cs : List Char) : List Char :=
  replaceDouble '|' ['O', 'R'] (replaceDouble '&' ['A', 'N', 'D'] cs)

def preprocess (text : String) (limit : Nat) : Except RegistryError String :=
  let respelled := respell text.toList
  if limit < respelled.length then .error (.tooLong limit respelled.length)
  else .ok (String.ofList respelled)

def compileWithin (limit : Nat) (text : String) : Except RegistryError Compiled := do
  let expression ← preprocess text limit
  match Expr.compile expression with
  | .error e => .error (.compile e)
  | .ok tree => .ok ⟨expression, tree, tree.encode⟩

def compile (r : Registry) (text : String) : Except RegistryError Compiled := compileWithin r.limit text

/-- The outcome of an operation of the shelf. -/
def lift (r : Registry) {α : Type} (o : Outcome Shelf CatalogError α) : Outcome Registry RegistryError α :=
  ⟨o.answer.mapError .catalog, { r with shelf := o.state }, o.disk⟩

def save (r : Registry) (name text : String) (disk : Disk) : Outcome Registry RegistryError Record :=
  match r.compile text with
  | .error e => ⟨.error e, r, disk⟩
  | .ok c => r.lift (r.shelf.insert ⟨name, c.expression, c.encoded⟩ disk)

def get (r : Registry) (id : UInt64) : Except RegistryError Record :=
  match r.shelf.catalog.get? id with
  | some record => .ok record
  | none => .error (.notFound id)

def list (r : Registry) : List Record := r.shelf.catalog.records

def remove (r : Registry) (id : UInt64) (disk : Disk) : Outcome Registry RegistryError Unit :=
  let o := r.lift (r.shelf.remove id disk)
  ⟨o.answer.bind fun removed => if removed then .ok () else .error (.notFound id), o.state, o.disk⟩

/-- Evaluates a record by its stored tree. -/
def evaluate (r : Registry) (id : UInt64) (document : String) : Except RegistryError Evaluation := do
  let record ← r.get id
  match Expr.ofEncoded record.encoded with
  | .error e => .error (.stored e)
  | .ok tree =>
    match tree.verdict document with
    | .error e => .error (.verdict e)
    | .ok result => .ok ⟨id, result, record.expression⟩

/-- Compiles a text and evaluates it without keeping it. -/
def evaluateText (r : Registry) (text document : String) : Except RegistryError Bool := do
  let c ← r.compile text
  match c.tree.verdict document with
  | .error e => .error (.verdict e)
  | .ok result => .ok result

end Registry

end Criterion
