import Criterion.Catalog
import Criterion.Disk

/-! A shelf keeps a catalog, in memory only or in a file that is written anew after every change. The
change is made before the file is written, and a failed write does not take it back, nor does it bring back
what the file may have lost. -/
namespace Criterion

/-- What an operation leaves behind besides its answer. -/
structure Outcome (σ ε α : Type) where
  answer : Except ε α
  state : σ
  disk : Disk

structure Shelf where
  file : Option String
  catalog : Catalog
  deriving DecidableEq, Repr

namespace Shelf

def inMemory : Shelf := ⟨none, .empty⟩

/-- Opens the catalog in a file; a file that does not exist holds an empty one. -/
def load (path : String) (disk : Disk) : Except CatalogError Shelf :=
  match disk.read path with
  | .error .missing => .ok ⟨some path, .empty⟩
  | .error .unreadable => .error (.io path)
  | .ok text =>
    match Snapshot.decode? text with
    | none => .error .malformed
    | some snapshot =>
      match Catalog.ofSnapshot snapshot with
      | .error e => .error e
      | .ok catalog => .ok ⟨some path, catalog⟩

/-- Opens the file again. A shelf in memory starts afresh. -/
def reload (s : Shelf) (disk : Disk) : Except CatalogError Shelf :=
  match s.file with
  | none => .ok inMemory
  | some path => load path disk

/-- Writes the catalog to its file and answers with `a` if that succeeds. -/
def save (s : Shelf) (disk : Disk) {α : Type} (a : α) : Outcome Shelf CatalogError α :=
  match s.file with
  | none => ⟨.ok a, s, disk⟩
  | some path =>
    let text := s.catalog.toSnapshot.encode
    match disk.write? path text with
    | some written => ⟨.ok a, s, written⟩
    | none => ⟨.error (.io path), s, disk.afterFailure path text⟩

def insert (s : Shelf) (d : Draft) (disk : Disk) : Outcome Shelf CatalogError Record :=
  let (record, catalog) := s.catalog.insert d
  save { s with catalog := catalog } disk record

/-- Answers whether there was such a record; without one nothing is written. -/
def remove (s : Shelf) (id : UInt64) (disk : Disk) : Outcome Shelf CatalogError Bool :=
  if s.catalog.contains id then save { s with catalog := s.catalog.erase id } disk true
  else ⟨.ok false, s, disk⟩

end Shelf

end Criterion
