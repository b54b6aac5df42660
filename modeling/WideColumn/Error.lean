import WideColumn.Value.Text
import WideColumn.Store.Fault

/-! Errors and their texts. There is one constructor for each cause, grouped by what is at
fault. Everything but `MapperError.store` is a fault of a schema, a call or a stored
value, noticed before the store is asked. -/
namespace WideColumn

/-- What is wrong with a list of indexes or a table description. -/
inductive CatalogFault where
  | duplicateIndex (index : String)
  | noPrimary
  | severalPrimaries
  | primaryNotNamed (expected : String)
  | noPartition (index : String)
  | noSort (index : String)
  | otherPartition (index primaryPartition : String)
  | noPartitionKey (index : String)
  | unnamedIndex
  | noDescription (table : String)
  deriving DecidableEq, Repr

def CatalogFault.message : CatalogFault → String
  | .duplicateIndex index => s!"duplicate index name '{index}'"
  | .noPrimary => "catalog has no primary index"
  | .severalPrimaries => "catalog has more than one primary index"
  | .primaryNotNamed expected => s!"primary index must be named '{expected}'"
  | .noPartition index => s!"index '{index}' has no partition attribute"
  | .noSort index => s!"local secondary index '{index}' must have a sort attribute"
  | .otherPartition index partition =>
    s!"local secondary index '{index}' must use the primary partition attribute '{partition}'"
  | .noPartitionKey index => s!"index '{index}' has no HASH key"
  | .unnamedIndex => "secondary index without a name"
  | .noDescription table => s!"no description returned for table '{table}'"

/-- What is wrong with the bindings of a schema. -/
inductive BindingFault where
  | undeclaredJoinSource (target source : String)
  | boundTwice (index : String)
  | localPartition (index : String)
  | noPartitionSource (kind index : String)
  | noSortSource (index : String)
  | extraSortSource (index : String)
  | unknownSource (index source : String)
  | primaryUnbound (index : String)
  | twoSources (physical first second : String)
  | declaredKey (name source : String)
  deriving DecidableEq, Repr

def BindingFault.message : BindingFault → String
  | .undeclaredJoinSource target source =>
    s!"joined attribute '{target}' reads undeclared attribute '{source}'"
  | .boundTwice index => s!"index '{index}' is bound more than once"
  | .localPartition index =>
    s!"local secondary index '{index}' shares the primary partition and takes no partition source"
  | .noPartitionSource kind index => s!"{kind} index '{index}' needs a partition source"
  | .noSortSource index => s!"index '{index}' has a sort key but the binding has no sort source"
  | .extraSortSource index => s!"index '{index}' has no sort key but the binding has a sort source"
  | .unknownSource index source =>
    s!"index '{index}' is bound to '{source}', which is neither a declared nor a joined attribute"
  | .primaryUnbound index => s!"primary index '{index}' has no binding"
  | .twoSources physical first second =>
    s!"physical key '{physical}' is bound to both '{first}' and '{second}'"
  | .declaredKey name source =>
    s!"declared attribute '{name}' is the physical key fed by '{source}'"

/-- What a joined attribute collides with. -/
inductive JoinConflict where
  | declared
  | keyAttribute
  | declaredTwice
  | noSources
  | supplied
  deriving DecidableEq, Repr

def JoinConflict.message : JoinConflict → String
  | .declared => "name is already a declared attribute"
  | .keyAttribute => "name is already an index key attribute"
  | .declaredTwice => "declared twice"
  | .noSources => "no source attributes"
  | .supplied => "joined attributes are computed and cannot be supplied"

inductive IndexFault where
  | unknown (index : String)
  | unbound (index : String)
  | nameCount (count : Nat)
  | noneWithPartition (partition : String)
  | noneWithKey (partition sort : String)
  deriving DecidableEq, Repr

def IndexFault.message : IndexFault → String
  | .unknown index => index
  | .unbound index => s!"index '{index}' is not bound for this object"
  | .nameCount count => s!"cannot resolve an index from {count} attribute names"
  | .noneWithPartition partition => s!"no index with partition '{partition}'"
  | .noneWithKey partition sort => s!"no index with partition '{partition}' and sort '{sort}'"

/-- Why a condition cannot address a key. -/
inductive KeyConditionFault where
  | notConjunction
  | tooManyNames (count : Nat)
  | severalPredicates
  | operator (name : String)
  | noEquality (name : String)
  | indexWithoutSort (index name : String)
  | tableWithoutSort (table : String)
  deriving DecidableEq, Repr

def KeyConditionFault.message : KeyConditionFault → String
  | .notConjunction => "key conditions can only be combined with AND"
  | .tooManyNames count => s!"key conditions reference at most two attributes, got {count}"
  | .severalPredicates => "each key attribute takes exactly one predicate"
  | .operator name => s!"'{name}' uses an operator not allowed in key conditions"
  | .noEquality name => s!"partition attribute '{name}' must be compared with '='"
  | .indexWithoutSort index name => s!"index '{index}' has no sort key for '{name}'"
  | .tableWithoutSort table => s!"table '{table}' has no sort key"

/-- Why an attribute has to keep its value. -/
inductive ImmutabilityFault where
  | setBefore
  | primaryKey
  deriving DecidableEq, Repr

def ImmutabilityFault.message : ImmutabilityFault → String
  | .setBefore => "value cannot change once set"
  | .primaryKey => "primary key attributes cannot change through an update"

inductive Protection where
  | joined
  | physicalKey
  deriving DecidableEq, Repr

def Protection.message : Protection → String
  | .joined => "joined attributes are derived from their sources"
  | .physicalKey => "index key attributes are set through their bound source"

inductive CodecFault where
  | notFinite (x : Double)
  | notNumeric (element : Value)
  | notNumber (text : String)

def CodecFault.message : CodecFault → String
  | .notFinite x => s!"number {x.display} cannot be stored"
  | .notNumeric element => s!"number set contains a non-numeric element: {element.display}"
  | .notNumber text => s!"invalid number '{text}'"

inductive MapperError where
  | catalog (fault : CatalogFault)
  | binding (fault : BindingFault)
  | join (target : String) (conflict : JoinConflict)
  | index (fault : IndexFault)
  | expressionKind (name : String)
  | keyCondition (fault : KeyConditionFault)
  | immutable (name : String) (fault : ImmutabilityFault)
  | protectedWrite (name : String) (protection : Protection)
  | unknownAttribute (name : String)
  | missingRequired (name : String)
  | missingKeyValue (name : String)
  | codec (fault : CodecFault)
  | retriesExhausted (attempts : UInt32) (remaining : Nat)
  | store (fault : StoreFault)

def MapperError.message : MapperError → String
  | .catalog fault => "invalid index catalog: " ++ fault.message
  | .binding fault => "invalid binding: " ++ fault.message
  | .join target conflict => s!"derived attribute conflict on '{target}': " ++ conflict.message
  | .index fault => "index not found: " ++ fault.message
  | .expressionKind name => s!"unsupported expression kind '{name}': must be one of " ++
    "KeyConditionExpression, FilterExpression or ConditionExpression"
  | .keyCondition fault => "invalid key condition: " ++ fault.message
  | .immutable name fault => s!"attribute '{name}' is immutable: " ++ fault.message
  | .protectedWrite name protection =>
    s!"attribute '{name}' cannot be set directly: " ++ protection.message
  | .unknownAttribute name => s!"unknown attribute '{name}'"
  | .missingRequired name => s!"missing required attribute '{name}'"
  | .missingKeyValue name => s!"missing value for key attribute '{name}'"
  | .codec fault => "value codec error: " ++ fault.message
  | .retriesExhausted attempts remaining =>
    s!"batch get gave up after {attempts} attempts with {remaining} keys unprocessed"
  | .store fault => fault.display

end WideColumn
