import WideColumn.Schema

/-! Which index serves the attributes that a key is addressed by. The primary index is
preferred, and then the order of the catalog decides. -/
namespace WideColumn

def BoundIndex.serves (b : BoundIndex) (partition : String) (sort : Option String) : Bool :=
  b.partitionSource == partition && sort.all fun name => b.sortSource == some name

namespace Schema

def named (s : Schema) (index : String) : Except MapperError BoundIndex := do
  let i ← s.catalog.get index
  match s.binding? i.name with
  | some b => return b
  | none => throw (.index (.unbound index))

def serving (s : Schema) (partition : String) (sort : Option String) :
    Except MapperError BoundIndex :=
  match s.bindings.find? fun b => b.serves partition sort with
  | some b => .ok b
  | none => .error (.index (match sort with
    | some name => .noneWithKey partition name
    | none => .noneWithPartition partition))

/-- The index for one or two attributes, partition first, unless one is asked for by name. -/
def resolve (s : Schema) (names : List String) (explicit : Option String) :
    Except MapperError BoundIndex :=
  match explicit, names with
  | some index, _ => s.named index
  | none, [partition] => s.serving partition none
  | none, [partition, sort] => s.serving partition (some sort)
  | none, names => .error (.index (.nameCount names.length))

end Schema

end WideColumn
