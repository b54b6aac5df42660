import WideColumn.Schema

/-! A draft collects the declarations of a schema, and `Draft.build` checks them once. The
first fault found is reported: joined attributes, then undeclared names, then the bindings
one by one, then what the bindings amount to together. -/
namespace WideColumn

structure Draft where
  table : String
  catalog : Catalog
  attributes : List String := []
  required : List String := []
  immutable : List String := []
  storeAliases : Bool := true
  separator : String := defaultSeparator
  joined : List Joined := []
  bindings : List Binding := []
  mutators : List Mutator := []

namespace Draft

def configure (d : Draft) (config : Config) : Draft := { d with separator := config.separator }

def addJoined (d : Draft) (j : Joined) : Draft := { d with joined := d.joined ++ [j] }

def join (d : Draft) (target : String) (sources : List String) : Draft :=
  d.addJoined ⟨target, sources, d.separator⟩

def distinct : List String → List String
  | [] => []
  | name :: rest => name :: (distinct rest).filter (· != name)

def checkJoined (declared : List String) (catalog : Catalog) (before : List String) :
    List Joined → Except MapperError Unit
  | [] => .ok ()
  | j :: rest => do
    if declared.contains j.target then throw (.join j.target .declared)
    if catalog.isKeyAttribute j.target then throw (.join j.target .keyAttribute)
    if before.contains j.target then throw (.join j.target .declaredTwice)
    if j.sources.isEmpty then throw (.join j.target .noSources)
    if let some source := j.sources.find? fun source => !declared.contains source then
      throw (.binding (.undeclaredJoinSource j.target source))
    checkJoined declared catalog (j.target :: before) rest

def checkDeclared (declared names : List String) : Except MapperError Unit :=
  match names.find? fun name => !declared.contains name with
  | some name => .error (.unknownAttribute name)
  | none => .ok ()

/-- Checks which sources a binding names against the kind and the key of its index. -/
def checkSources (b : Binding) (i : Index) : Except BindingFault Unit := do
  match i.kind, b.partition with
  | .localSecondary, some _ => throw (.localPartition i.name)
  | .localSecondary, none => pure ()
  | kind, none => throw (.noPartitionSource kind.display i.name)
  | _, some _ => pure ()
  match i.sort, b.sort with
  | some _, none => throw (.noSortSource i.name)
  | none, some _ => throw (.extraSortSource i.name)
  | _, _ => pure ()

def checkBindings (catalog : Catalog) (known : String → Bool) (before : List String) :
    List Binding → Except MapperError Unit
  | [] => .ok ()
  | b :: rest => do
    let i ← catalog.get b.index
    if before.contains b.index then throw (.binding (.boundTwice b.index))
    (checkSources b i).mapError .binding
    if let some source := (b.partition.toList ++ b.sort.toList).find? fun s => !known s then
      throw (.binding (.unknownSource b.index source))
    checkBindings catalog known (b.index :: before) rest

/-- The binding of an index, if it has one, with the partition source it takes effect with. -/
def bind? (bindings : List Binding) (primarySource : String) (i : Index) : Option BoundIndex :=
  (bindings.find? fun b => b.index == i.name).map fun b =>
    ⟨i, b.partition.getD primarySource, b.sort⟩

/-- The bound indexes, primary first and the others in catalog order. -/
def bindAll (catalog : Catalog) (bindings : List Binding) :
    Except MapperError (BoundIndex × List BoundIndex) :=
  let primary := catalog.primary
  let source? := (bindings.find? fun b => b.index == primary.name).bind (·.partition)
  match source? with
  | none => .error (.binding (.primaryUnbound primary.name))
  | some source =>
    match bind? bindings source primary with
    | none => .error (.binding (.primaryUnbound primary.name))
    | some bound =>
      .ok (bound, (catalog.indexes.filter fun i => !i.isPrimary).filterMap (bind? bindings source))

/-- A declared attribute that is a physical key has to be its own source. -/
def checkKeys (keys : BindingTable) : List String → Except BindingFault Unit
  | [] => .ok ()
  | name :: rest =>
    match keys.source? name with
    | some source =>
      if source = name then checkKeys keys rest else .error (.declaredKey name source)
    | none => checkKeys keys rest

def build (d : Draft) : Except MapperError Schema := do
  let attributes := distinct d.attributes
  checkJoined attributes d.catalog [] d.joined
  checkDeclared attributes (d.required ++ d.immutable ++ d.mutators.map (·.target))
  let known (name : String) : Bool :=
    attributes.contains name || d.joined.any fun j => j.target == name
  checkBindings d.catalog known [] d.bindings
  let (primary, secondary) ← bindAll d.catalog d.bindings
  let keys ← (BindingTable.ofBindings (primary :: secondary)).mapError .binding
  (checkKeys keys attributes).mapError .binding
  return {
    table := d.table, catalog := d.catalog, attributes, required := d.required, primary, secondary,
    joined := d.joined, mutators := d.mutators, immutable := d.immutable,
    storeAliases := d.storeAliases, keys }

end Draft

end WideColumn
