import WideColumn.Record
import WideColumn.Schema.Joined
import WideColumn.Schema.Binding

/-! A schema describes one type of object: its declared attributes, the attributes joined
from them, the sources of the physical keys, the mutators and what may not change.
`Draft.build` makes schemas; the questions below are answered for any. -/
namespace WideColumn

structure Schema where
  table : String
  catalog : Catalog
  attributes : List String
  required : List String
  primary : BoundIndex
  secondary : List BoundIndex
  joined : List Joined
  mutators : List Mutator
  immutable : List String
  /-- Whether the sources of physical keys are stored next to the keys. -/
  storeAliases : Bool
  keys : BindingTable

namespace Schema

def bindings (s : Schema) : List BoundIndex := s.primary :: s.secondary

def binding? (s : Schema) (index : String) : Option BoundIndex :=
  s.bindings.find? fun b => b.index.name == index

def isDeclared (s : Schema) (name : String) : Bool := s.attributes.contains name

def joined? (s : Schema) (target : String) : Option Joined :=
  s.joined.find? fun j => j.target == target

def isJoined (s : Schema) (name : String) : Bool := (s.joined? name).isSome

def dependents (s : Schema) (source : String) : List Joined :=
  s.joined.filter fun j => j.sources.contains source

/-- Of several mutators of one attribute the last one counts. -/
def mutator? (s : Schema) (name : String) : Option Mutator :=
  s.mutators.reverse.find? fun m => m.target == name

def isImmutable (s : Schema) (name : String) : Bool := s.immutable.contains name

/-- A physical key that is no declared attribute is written through its source only. -/
def isProtectedKey (s : Schema) (name : String) : Bool := s.keys.isKey name && !s.isDeclared name

/-- Left out of stored items: a source whose keys are stored in its place. -/
def isOmitted (s : Schema) (name : String) : Bool :=
  !s.storeAliases && s.keys.isSource name && !s.keys.isKey name

def persisted (s : Schema) (values : NameMap Value) : NameMap Value :=
  values.filter fun name => !s.isOmitted name

def logical (s : Schema) (values : NameMap Value) : NameMap Value :=
  values.filter fun name => s.isDeclared name || s.isJoined name

end Schema

end WideColumn
