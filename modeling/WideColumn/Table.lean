import WideColumn.Run
import WideColumn.Update

/-! Operations on the store for one type of object. Those here send one request at most: it is
made in full before the store is asked, and a fault of the store is the outcome. The records given
to a table are of its schema. -/
namespace WideColumn

structure Table where
  schema : Schema
  config : Config := {}

structure Query where
  key : Condition Value
  filter : Option (Condition Value) := none
  /-- The index to use whatever the key condition says. -/
  index : Option String := none
  limit : Option Int32 := none
  startKey : Option Key := none
  reversed : Bool := false

structure Page where
  items : List Record
  lastKey : Option Key
  count : Int32
  scannedCount : Int32

def Request.PutItem.onlyIf (request : Request.PutItem) (e : Expression) : Request.PutItem :=
  { request with
    condition := some e.text
    names := request.names.union e.names
    values := request.values.union e.values }

def Request.Query.filteredBy (request : Request.Query) (e : Expression) : Request.Query :=
  { request with
    filter := some e.text
    names := request.names.union e.names
    values := request.values.union e.values }

def Condition.all : List (Condition α) → Option (Condition α)
  | [] => none
  | c :: rest => some (rest.foldl .and c)

namespace Table

def key (t : Table) (partition : Value) (sort : Option Value) : Except MapperError Key := do
  let primary := t.schema.primary.index
  let key : Key := NameMap.empty.insert primary.partition (← partition.serialize)
  match primary.sort, sort with
  | some name, some value => return key.insert name (← value.serialize)
  | some name, none => throw (.missingKeyValue name)
  | none, some _ => throw (.keyCondition (.tableWithoutSort t.schema.table))
  | none, none => return key

def loadAll (t : Table) : List Item → Except MapperError (List Record)
  | [] => .ok []
  | item :: rest => do
    let r ← Record.load t.schema item
    let rest ← t.loadAll rest
    return r :: rest

def loadFound (t : Table) (response : Response.GetItem) : Except MapperError (Option Record) :=
  match response.item with
  | some item => (Record.load t.schema item).map some
  | none => .ok none

def fetch (t : Table) (partition : Value) (sort : Option Value) (answers : List Answer) :
    Run (Option Record) :=
  let request := (t.key partition sort).map fun key =>
    ({ table := t.schema.table, key } : Request.GetItem)
  (Run.send .getItem Response.GetItem.shape request answers).check t.loadFound

def queryRequest (t : Table) (q : Query) : Except MapperError Request.Query := do
  let key ← Expression.compile t.schema q.key .keyCondition q.index
  let request : Request.Query := {
    table := t.schema.table
    index := key.index
    keyCondition := some key.text
    names := key.names
    values := key.values
    forward := if q.reversed then some false else none
    limit := some (q.limit.getD t.config.queryLimit)
    startKey := q.startKey.getD {} }
  match q.filter with
  | none => return request
  | some c => return request.filteredBy (← Expression.compile t.schema c .filter none)

/-- One page as the store gives it. -/
def queryRaw (t : Table) (q : Query) (answers : List Answer) : Run Response.Query :=
  Run.send .query Response.Query.shape (t.queryRequest q) answers

def page (t : Table) (response : Response.Query) : Except MapperError Page := do
  let items ← t.loadAll response.items
  return {
    items
    lastKey := if response.lastKey.isEmpty then none else some response.lastKey
    count := response.count
    scannedCount := response.scannedCount }

def query (t : Table) (q : Query) (answers : List Answer) : Run Page :=
  (t.queryRaw q answers).check t.page

/-- Holds of an object that is not stored yet. -/
def guard (t : Table) : Option (Condition Value) :=
  Condition.all (t.schema.primary.index.keyAttributes.map fun name => .leaf name .absent)

/-- The condition of a save. A guard comes before the condition of the application. -/
def saveCondition (t : Table) (condition : Option (Condition Value)) (failOnExists : Bool) :
    Option (Condition Value) :=
  match (if failOnExists then t.guard else none), condition with
  | some guard, some c => some (.and guard c)
  | some guard, none => some guard
  | none, condition => condition

def saveRequest (t : Table) (r : Record) (condition : Option (Condition Value))
    (failOnExists : Bool) : Except MapperError Request.PutItem := do
  let item ← r.toItem t.schema
  let request : Request.PutItem := { table := t.schema.table, item }
  match t.saveCondition condition failOnExists with
  | none => return request
  | some c => return request.onlyIf (← Expression.compile t.schema c .writeCondition none)

/-- Writes a record in full. With `failOnExists` nothing stored is replaced. -/
def save (t : Table) (r : Record) (condition : Option (Condition Value)) (failOnExists : Bool)
    (answers : List Answer) : Run Unit :=
  (Run.send .putItem Response.PutItem.shape (t.saveRequest r condition failOnExists) answers).map
    fun _ => ()

def update (t : Table) (r : Record) (condition : Option (Condition Value))
    (answers : List Answer) : Run Bool :=
  match r.updateRequest t.schema condition with
  | .error e => .done (.error e) answers
  | .ok none => .done (.ok false) answers
  | .ok (some request) =>
    (Run.send .updateItem Response.UpdateItem.shape (.ok request) answers).map fun _ => true

def delete (t : Table) (r : Record) (answers : List Answer) : Run Unit :=
  let request := (r.primaryKey t.schema).map fun key =>
    ({ table := t.schema.table, key } : Request.DeleteItem)
  (Run.send .deleteItem Response.DeleteItem.shape request answers).map fun _ => ()

def batchWrite (t : Table) (writes : List WriteRequest) (answers : List Answer) :
    Run Response.BatchWrite :=
  Run.send .batchWrite Response.BatchWrite.shape
    (.ok ⟨NameMap.empty.insert t.schema.table writes⟩) answers

end Table

end WideColumn
