import WideColumn.Record.Assignment
import WideColumn.Codec
import WideColumn.Diff
import WideColumn.Json.Printer
import WideColumn.Store.Request

/-! Records and stored items. Of a loaded item only the declared attributes and the bound keys
count. Where sources are not stored they are recovered from their keys; joined attributes and keys
are then computed again, and a key that nothing computes keeps its value. Mutators do not apply.
-/
namespace WideColumn

namespace Schema

/-- Gives every declared source without a value the value of a key it feeds: of several that are
there, the first in the order of the table, which is not one that a schema promises. -/
def recover (s : Schema) (raw values : NameMap Value) : NameMap Value :=
  s.keys.pairs.foldl
    (fun values (key, source) =>
      if !s.isDeclared source || values.contains source then values
      else match raw.get? key with
        | some value => values.insert source value
        | none => values)
    values

def keepKeys (s : Schema) (raw values : NameMap Value) : NameMap Value :=
  s.keys.pairs.foldl
    (fun values (key, _) =>
      if values.contains key then values
      else match raw.get? key with
        | some value => values.insert key value
        | none => values)
    values

def restore (s : Schema) (raw : NameMap Value) : NameMap Value :=
  let declared := raw.filter s.isDeclared
  let known := if s.storeAliases then declared else s.recover raw declared
  s.keepKeys raw (s.refresh known)

/-- The named values in their stored form; all of them have to be there. -/
def keyEntries (values : NameMap Value) :
    List String → Except MapperError (List (String × WireValue))
  | [] => .ok []
  | name :: rest => do
    let some value := values.get? name | throw (.missingKeyValue name)
    let value ← value.serialize
    let rest ← keyEntries values rest
    return (name, value) :: rest

def keyOf (s : Schema) (values : NameMap Value) : Except MapperError Key :=
  (keyEntries values s.primary.index.keyAttributes).map NameMap.ofList

end Schema

namespace Record

def load (s : Schema) (item : Item) : Except MapperError Record := do
  let values := s.restore (← deserializeItem item)
  return ⟨values, values⟩

def toItem (s : Schema) (r : Record) : Except MapperError Item :=
  serializeItem (s.persisted r.values)

def primaryKey (s : Schema) (r : Record) : Except MapperError Key := s.keyOf r.values

/-- The primary key that the record had when it was created or loaded. -/
def snapshotKey (s : Schema) (r : Record) : Except MapperError Key := s.keyOf r.snapshot

def putRequest (s : Schema) (r : Record) : Except MapperError WriteRequest :=
  (r.toItem s).map fun item => { put := some ⟨item⟩ }

def deleteRequest (s : Schema) (r : Record) : Except MapperError WriteRequest :=
  (r.primaryKey s).map fun key => { delete := some ⟨key⟩ }

def diff (s : Schema) (r : Record) : Diff :=
  .compute (s.persisted r.snapshot) (s.persisted r.values)

def logicalDiff (s : Schema) (r : Record) : Diff :=
  .compute (s.logical r.snapshot) (s.logical r.values)

def hasChanged (s : Schema) (r : Record) : Bool := (r.diff s).hasChanged

/-- The declared and joined attributes as a document. -/
def toJson (s : Schema) (r : Record) : Json :=
  .object (Entries.mapValues Value.toJson (s.logical r.values).entries)

end Record

end WideColumn
