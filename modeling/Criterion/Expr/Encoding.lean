import Criterion.Expr
import Criterion.Json.Read
import Criterion.Json.Write
import Criterion.Wording

/-! The JSON form of expression trees. Each node is an object with its `type` and exactly the members
that type has. Decoding refuses everything else and names the first bad node by the steps that lead to
it from the root `$`. -/
namespace Criterion

inductive DecodeCause where
  | notAnObject
  | missingType
  | unknownType (tag : String)
  | missingField (field : String)
  | invalidField (field expected : String)
  | unknownField (field : String)
  | unknownOperator (symbol : String)
  deriving DecidableEq, Repr

/-- The cause together with the node that is to blame. -/
structure DecodeError where
  path : String
  cause : DecodeCause
  deriving DecidableEq, Repr

def DecodeError.message (e : DecodeError) : String :=
  "AST node at " ++ e.path ++
    match e.cause with
    | .notAnObject => " must be a JSON object"
    | .missingType => " has no `type` discriminator"
    | .unknownType tag => " has unknown type `" ++ tag ++ "`"
    | .missingField field => " is missing field `" ++ field ++ "`"
    | .invalidField field expected => " has invalid field `" ++ field ++ "`: expected " ++ expected
    | .unknownField field => " has unexpected field `" ++ field ++ "`"
    | .unknownOperator symbol => " has unknown operator `" ++ symbol ++ "`"

namespace Expr

def atomJson : Atom → Json
  | .variable path => .object [("type", .string "value"), ("value", .string path)]
  | .text value => .object [("type", .string "string"), ("value", .string value)]
  | .number value => .object [("type", .string "number"), ("value", .number (.whole value.toInt))]
  | .truth value => .object [("type", .string "booleanNode"), ("value", .bool value)]
  | .null => .object [("type", .string "nullNode")]

def toJson : Expr → Json
  | .atom a => atomJson a
  | .binary op left right => .object
    [("type", .string "binaryOp"), ("op", .string op.symbol), ("left", left.toJson), ("right", right.toJson)]

/-- The text under which a tree is stored. -/
def encode (e : Expr) : String := e.toJson.compact

/-- The first member, in the order of the object, that a node with these fields does not have. -/
def unknownField? (fields : List String) (members : List (String × Json)) : Option String :=
  (members.map Prod.fst).find? fun key => key ≠ "type" && !fields.contains key

def onlyFields (path : String) (fields : List String) (members : List (String × Json)) :
    Except DecodeError Unit :=
  match unknownField? fields members with
  | some field => .error ⟨path, .unknownField field⟩
  | none => .ok ()

def field (path name : String) (members : List (String × Json)) : Except DecodeError Json :=
  match Json.lookup? name members with
  | some v => .ok v
  | none => .error ⟨path, .missingField name⟩

def stringField (path name : String) (members : List (String × Json)) : Except DecodeError String := do
  match ← field path name members with
  | .string s => return s
  | _ => .error ⟨path, .invalidField name "string"⟩

def atomOfTag (path tag : String) (members : List (String × Json)) : Except DecodeError Atom := do
  match tag with
  | "value" =>
    onlyFields path ["value"] members
    return .variable (← stringField path "value" members)
  | "string" =>
    onlyFields path ["value"] members
    return .text (← stringField path "value" members)
  | "number" =>
    onlyFields path ["value"] members
    match ← field path "value" members with
    | .number (.whole n) =>
      match Decimal.int64? n with
      | some value => return .number value
      | none => .error ⟨path, .invalidField "value" "integer"⟩
    | _ => .error ⟨path, .invalidField "value" "integer"⟩
  | "booleanNode" =>
    onlyFields path ["value"] members
    match ← field path "value" members with
    | .bool value => return .truth value
    | _ => .error ⟨path, .invalidField "value" "boolean"⟩
  | "nullNode" =>
    onlyFields path [] members
    return .null
  | _ => .error ⟨path, .unknownType tag⟩

mutual

/-- Decodes the node that stands at `path`. -/
def decodeAt : Json → String → Except DecodeError Expr
  | .object members, path => do
    match Json.lookup? "type" members with
    | none => .error ⟨path, .missingType⟩
    | some (.string "binaryOp") =>
      onlyFields path ["op", "left", "right"] members
      let symbol ← stringField path "op" members
      match Operator.ofSymbol? symbol with
      | none => .error ⟨path, .unknownOperator symbol⟩
      | some op =>
        let left ← decodeChild "left" path members
        let right ← decodeChild "right" path members
        return .binary op left right
    | some (.string tag) => return .atom (← atomOfTag path tag members)
    | some _ => .error ⟨path, .invalidField "type" "string"⟩
  | _, path => .error ⟨path, .notAnObject⟩

/-- Decodes the first member of that name, one step below `path`. -/
def decodeChild (name path : String) : List (String × Json) → Except DecodeError Expr
  | [] => .error ⟨path, .missingField name⟩
  | (k, v) :: ms => if k = name then decodeAt v (path ++ "." ++ name) else decodeChild name path ms

end

def decode (v : Json) : Except DecodeError Expr := decodeAt v "$"

end Expr

inductive TreeError where
  | malformed
  | refused (e : DecodeError)
  deriving DecidableEq, Repr

def TreeError.message (e : TreeError) (w : Wording := {}) : String :=
  match e with
  | .malformed => "invalid AST json: " ++ w.json
  | .refused e => e.message

namespace Expr

/-- Reads a stored tree. Its nesting is not limited, since every operator of a chain adds a level. -/
def ofEncoded (text : String) : Except TreeError Expr :=
  match Json.read? none text with
  | none => .error .malformed
  | some v =>
    match decode v.canonical with
    | .error e => .error (.refused e)
    | .ok e => .ok e

/-- Reads a tree the way documents are read: with limited nesting, and looking at the first value before
at what follows it. -/
def ofDocument (text : String) : Except TreeError Expr :=
  match Json.readFirst (some Json.nestingLimit) text with
  | none => .error .malformed
  | some (v, rest) =>
    match decode v.canonical with
    | .error e => .error (.refused e)
    | .ok e => if rest.all Json.isBlank then .ok e else .error .malformed

end Expr

end Criterion
