import WideColumn.Error
import WideColumn.Store.Description

/-! The physical key layout of a table: its primary index and its secondary indexes, with
the names of the attributes that make up their keys. A local index shares the partition
attribute of the primary index, and the catalog fills it in. -/
namespace WideColumn

inductive IndexKind where
  | primary
  | localSecondary
  | globalSecondary
  deriving DecidableEq, Repr

def IndexKind.display : IndexKind → String
  | .primary => "primary"
  | .localSecondary => "local secondary"
  | .globalSecondary => "global secondary"

structure Index where
  name : String
  partition : String
  sort : Option String
  kind : IndexKind
  deriving DecidableEq, Repr

namespace Index

/-- The name of every primary index. -/
def primaryName : String := "table"

def primary (partition : String) (sort : Option String) : Index :=
  ⟨primaryName, partition, sort, .primary⟩

def globalSecondary (name partition : String) (sort : Option String) : Index :=
  ⟨name, partition, sort, .globalSecondary⟩

/-- The partition attribute is left open for the catalog. -/
def localSecondary (name sort : String) : Index := ⟨name, "", some sort, .localSecondary⟩

def isPrimary (i : Index) : Bool := i.kind == .primary

/-- Partition attribute first. -/
def keyAttributes (i : Index) : List String := i.partition :: i.sort.toList

/-- The first attribute of each role counts. -/
def ofKeys (name : String) (keys : List KeyElement) (kind : IndexKind) :
    Except MapperError Index :=
  let first (role : KeyRole) := (keys.find? fun key => key.role == role).map (·.name)
  match first .partition with
  | some partition => .ok ⟨name, partition, first .sort, kind⟩
  | none => .error (.catalog (.noPartitionKey name))

end Index

structure Catalog where
  indexes : List Index
  primary : Index
  deriving DecidableEq, Repr

namespace Catalog

/-- The first name that stands twice. -/
def repeated? : List String → List String → Option String
  | _, [] => none
  | seen, name :: rest => if seen.contains name then some name else repeated? (name :: seen) rest

/-- Completes one index under the partition attribute of the primary index. -/
def complete (partition : String) (i : Index) : Except CatalogFault Index :=
  if i.kind ≠ .localSecondary then
    if i.partition = "" then .error (.noPartition i.name) else .ok i
  else if i.sort.isNone then .error (.noSort i.name)
  else if i.partition = "" ∨ i.partition = partition then .ok { i with partition := partition }
  else .error (.otherPartition i.name partition)

def completeAll (partition : String) : List Index → Except CatalogFault (List Index)
  | [] => .ok []
  | i :: rest => do
    let i ← complete partition i
    let rest ← completeAll partition rest
    return i :: rest

def check (indexes : List Index) : Except CatalogFault Catalog := do
  if let some name := repeated? [] (indexes.map (·.name)) then throw (.duplicateIndex name)
  match indexes.filter (·.isPrimary) with
  | [] => throw .noPrimary
  | [primary] =>
    if primary.name ≠ Index.primaryName then throw (.primaryNotNamed Index.primaryName)
    return ⟨← completeAll primary.partition indexes, primary⟩
  | _ => throw .severalPrimaries

/-- The catalog of these indexes, in their order. -/
def ofIndexes (indexes : List Index) : Except MapperError Catalog :=
  (check indexes).mapError .catalog

def ofDescriptions (kind : IndexKind) : List IndexDescription → Except MapperError (List Index)
  | [] => .ok []
  | d :: rest => do
    let some name := d.name | throw (.catalog .unnamedIndex)
    let i ← Index.ofKeys name d.keys kind
    let rest ← ofDescriptions kind rest
    return i :: rest

/-- Primary index first, then the global and then the local ones, in the order of the
description. -/
def ofDescription (table : TableDescription) : Except MapperError Catalog := do
  let primary ← Index.ofKeys Index.primaryName table.keys .primary
  let globals ← ofDescriptions .globalSecondary table.globalIndexes
  let locals ← ofDescriptions .localSecondary table.localIndexes
  ofIndexes (primary :: globals ++ locals)

def find? (c : Catalog) (name : String) : Option Index := c.indexes.find? fun i => i.name == name

def get (c : Catalog) (name : String) : Except MapperError Index :=
  match c.find? name with
  | some i => .ok i
  | none => .error (.index (.unknown name))

/-- Whether an attribute is part of the key of any index. -/
def isKeyAttribute (c : Catalog) (name : String) : Bool :=
  c.indexes.any fun i => i.keyAttributes.contains name

/-- Primary index first, then catalog order. -/
def primaryFirst (c : Catalog) : List Index :=
  c.primary :: c.indexes.filter fun i => !i.isPrimary

end Catalog

end WideColumn
