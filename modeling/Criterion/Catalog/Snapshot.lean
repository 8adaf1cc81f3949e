import Criterion.Json.Read
import Criterion.Json.Record
import Criterion.Json.Write

/-! The records of a catalog and the JSON document that holds them in a file. -/
namespace Criterion

/-- A named expression with the JSON form of its tree. -/
structure Record where
  id : UInt64
  name : String
  expression : String
  encoded : String
  deriving DecidableEq, Repr

/-- A record before the catalog has numbered it. -/
structure Draft where
  name : String
  expression : String
  encoded : String
  deriving DecidableEq, Repr

def Draft.numbered (d : Draft) (id : UInt64) : Record := ⟨id, d.name, d.expression, d.encoded⟩

namespace Record

def toJson (r : Record) : Json :=
  .object [("id", Json.ofUInt64 r.id), ("name", .string r.name), ("expression", .string r.expression),
    ("ast_json", .string r.encoded)]

def ofJson? (v : Json) : Option Record :=
  match Json.slots? ["id", "name", "expression", "ast_json"] v with
  | some [some id, some name, some expression, some encoded] => do
    return ⟨← id.uint64?, ← name.string?, ← expression.string?, ← encoded.string?⟩
  | _ => none

end Record

/-- What a catalog file says, whether or not a catalog can be opened from it. -/
structure Snapshot where
  schema : String
  nextId : UInt64
  records : List Record
  deriving DecidableEq, Repr

namespace Snapshot

def supportedSchema : String := "expreval-store/0.0.1"

def empty : Snapshot := ⟨supportedSchema, 1, []⟩

def toJson (s : Snapshot) : Json :=
  .object [("schema", .string s.schema), ("next_id", Json.ofUInt64 s.nextId),
    ("expressions", .array (s.records.map Record.toJson))]

/-- Only the list of records may be left out. -/
def ofJson? (v : Json) : Option Snapshot :=
  match Json.slots? ["schema", "next_id", "expressions"] v with
  | some [some schema, some nextId, records] => do
    let items ← match records with
      | some v => v.items?
      | none => some []
    return ⟨← schema.string?, ← nextId.uint64?, ← items.mapM Record.ofJson?⟩
  | _ => none

def encode (s : Snapshot) : String := s.toJson.pretty

def decode? (text : String) : Option Snapshot := (Json.read? (some Json.nestingLimit) text).bind ofJson?

end Snapshot

end Criterion
