import WideColumn.Catalog

/-! A binding says which attributes feed the key of an index. The binding table collects,
over all bound indexes, the source of every physical key; a physical key has one source,
and one source may feed several keys. -/
namespace WideColumn

structure Binding where
  index : String
  partition : Option String := none
  sort : Option String := none
  deriving DecidableEq, Repr

/-- A checked binding. A local index has the partition source of the primary index. -/
structure BoundIndex where
  index : Index
  partitionSource : String
  sortSource : Option String
  deriving DecidableEq, Repr

/-- The physical keys of an index with their sources, partition first. -/
def BoundIndex.keySources (b : BoundIndex) : List (String × String) :=
  (b.index.partition, b.partitionSource) ::
    match b.index.sort, b.sortSource with
    | some key, some source => [(key, source)]
    | _, _ => []

/-- Pairs of a physical key and its source, in the order of the bindings. -/
structure BindingTable where
  pairs : List (String × String) := []
  deriving DecidableEq, Repr

namespace BindingTable

def source? (t : BindingTable) (key : String) : Option String := t.pairs.lookup key

def keysOf (t : BindingTable) (source : String) : List String :=
  (t.pairs.filter fun pair => pair.2 == source).map (·.1)

def isKey (t : BindingTable) (name : String) : Bool := (t.source? name).isSome

def isSource (t : BindingTable) (name : String) : Bool := t.pairs.any fun pair => pair.2 == name

def insert (t : BindingTable) (key source : String) : Except BindingFault BindingTable :=
  match t.source? key with
  | some other => if other = source then .ok t else .error (.twoSources key other source)
  | none => .ok ⟨t.pairs ++ [(key, source)]⟩

def insertAll : BindingTable → List (String × String) → Except BindingFault BindingTable
  | t, [] => .ok t
  | t, (key, source) :: rest => do
    let t ← t.insert key source
    t.insertAll rest

def ofBindings (bindings : List BoundIndex) : Except BindingFault BindingTable :=
  insertAll {} (bindings.flatMap BoundIndex.keySources)

end BindingTable

end WideColumn
