import Criterion.Catalog.Snapshot
import Criterion.Wording

/-! Catalogs: records in the order of their ids. The catalog numbers what is inserted and never gives a
number out twice. -/
namespace Criterion

inductive CatalogError where
  | io (path : String)
  | malformed
  | unsupportedSchema (found : String)
  | duplicateId (id : UInt64)
  deriving DecidableEq, Repr

def CatalogError.message (e : CatalogError) (w : Wording := {}) : String :=
  match e with
  | .io path => "io error on `" ++ path ++ "`: " ++ w.file
  | .malformed => "json error: " ++ w.json
  | .unsupportedSchema found =>
    "unsupported store schema `" ++ found ++ "` (expected `" ++ Snapshot.supportedSchema ++ "`)"
  | .duplicateId id => "store contains duplicate expression id " ++ Decimal.text id.toNat

structure Catalog where
  nextId : UInt64
  records : List Record
  deriving DecidableEq, Repr

namespace Catalog

def empty : Catalog := ⟨1, []⟩

/-- Puts a record where its id belongs, in place of the one that has this id. -/
def place (r : Record) : List Record → List Record
  | [] => [r]
  | s :: rest =>
    if r.id < s.id then r :: s :: rest
    else if r.id = s.id then r :: rest
    else s :: place r rest

/-- Adds records one by one to those that are placed already. -/
def arrange (placed : List Record) : List Record → Except CatalogError (List Record)
  | [] => .ok placed
  | r :: rest =>
    if placed.any fun s => s.id = r.id then .error (.duplicateId r.id)
    else arrange (place r placed) rest

/-- The least id above all given ones, 1 if there are none. -/
def afterLast (records : List Record) : UInt64 :=
  match records.getLast? with
  | some r => r.id + 1
  | none => 1

def ofSnapshot (s : Snapshot) : Except CatalogError Catalog :=
  if s.schema ≠ Snapshot.supportedSchema then .error (.unsupportedSchema s.schema)
  else
    match arrange [] s.records with
    | .error e => .error e
    | .ok records => .ok ⟨max s.nextId (afterLast records), records⟩

def toSnapshot (c : Catalog) : Snapshot := ⟨Snapshot.supportedSchema, c.nextId, c.records⟩

def insert (c : Catalog) (d : Draft) : Record × Catalog :=
  let record := d.numbered c.nextId
  (record, ⟨c.nextId + 1, place record c.records⟩)

def get? (c : Catalog) (id : UInt64) : Option Record := c.records.find? fun r => r.id = id

def contains (c : Catalog) (id : UInt64) : Bool := c.records.any fun r => r.id = id

def erase (c : Catalog) (id : UInt64) : Catalog := { c with records := c.records.filter fun r => r.id ≠ id }

end Catalog

end Criterion
