import WideColumn.Store.Description

/-! Requests to the store. Names and values stand behind placeholders in the expression
texts, and the request carries a table of each. -/
namespace WideColumn

/-- Which attributes a write gives back. -/
inductive ReturnValues where
  | none
  | allOld
  | updatedOld
  | allNew
  | updatedNew
  deriving DecidableEq, Repr

def ReturnValues.word : ReturnValues → String
  | .none => "NONE"
  | .allOld => "ALL_OLD"
  | .updatedOld => "UPDATED_OLD"
  | .allNew => "ALL_NEW"
  | .updatedNew => "UPDATED_NEW"

instance : JsonForm ReturnValues where
  encode values := .string values.word
  decode := decodeWord [("NONE", .none), ("ALL_OLD", .allOld), ("UPDATED_OLD", .updatedOld),
    ("ALL_NEW", .allNew), ("UPDATED_NEW", .updatedNew)]

structure PutRequest where
  item : Item

def PutRequest.shape : Shape PutRequest where
  blank := ⟨{}⟩
  fields := [.always "Item" (·.item) (fun v _ => ⟨v⟩)]

instance : JsonForm PutRequest := PutRequest.shape.form

structure DeleteRequest where
  key : Key

def DeleteRequest.shape : Shape DeleteRequest where
  blank := ⟨{}⟩
  fields := [.always "Key" (·.key) (fun v _ => ⟨v⟩)]

instance : JsonForm DeleteRequest := DeleteRequest.shape.form

/-- One entry of a batch of writes: a put or a delete. -/
structure WriteRequest where
  put : Option PutRequest := none
  delete : Option DeleteRequest := none

def WriteRequest.shape : Shape WriteRequest where
  blank := {}
  fields := [
    .optional "PutRequest" (·.put) (fun v x => { x with put := v }),
    .optional "DeleteRequest" (·.delete) (fun v x => { x with delete := v })]

instance : JsonForm WriteRequest := WriteRequest.shape.form

/-- Keys to read from one table, and what to read of their items. -/
structure KeySelection where
  keys : List Key := []
  projection : Option String := none
  names : Option (NameMap String) := none
  consistent : Option Bool := none

def KeySelection.shape : Shape KeySelection where
  blank := {}
  fields := [
    .always "Keys" (·.keys) (fun v x => { x with keys := v }),
    .optional "ProjectionExpression" (·.projection) (fun v x => { x with projection := v }),
    .optional "ExpressionAttributeNames" (·.names) (fun v x => { x with names := v }),
    .optional "ConsistentRead" (·.consistent) (fun v x => { x with consistent := v })]

instance : JsonForm KeySelection := KeySelection.shape.form

namespace Request

structure DescribeTable where
  table : String

def DescribeTable.shape : Shape DescribeTable where
  blank := ⟨""⟩
  fields := [.always "TableName" (·.table) (fun v _ => ⟨v⟩)]

instance : JsonForm DescribeTable := DescribeTable.shape.form

structure PutItem where
  table : String := ""
  item : Item := {}
  condition : Option String := none
  names : NameMap String := {}
  values : NameMap WireValue := {}
  returns : Option ReturnValues := none

def PutItem.shape : Shape PutItem where
  blank := {}
  fields := [
    .always "TableName" (·.table) (fun v x => { x with table := v }),
    .always "Item" (·.item) (fun v x => { x with item := v }),
    .optional "ConditionExpression" (·.condition) (fun v x => { x with condition := v }),
    .nonempty "ExpressionAttributeNames" (·.names) (fun v x => { x with names := v }),
    .nonempty "ExpressionAttributeValues" (·.values) (fun v x => { x with values := v }),
    .optional "ReturnValues" (·.returns) (fun v x => { x with returns := v })]

instance : JsonForm PutItem := PutItem.shape.form

structure GetItem where
  table : String := ""
  key : Key := {}
  consistent : Option Bool := none

def GetItem.shape : Shape GetItem where
  blank := {}
  fields := [
    .always "TableName" (·.table) (fun v x => { x with table := v }),
    .always "Key" (·.key) (fun v x => { x with key := v }),
    .optional "ConsistentRead" (·.consistent) (fun v x => { x with consistent := v })]

instance : JsonForm GetItem := GetItem.shape.form

structure UpdateItem where
  table : String := ""
  key : Key := {}
  update : Option String := none
  condition : Option String := none
  names : NameMap String := {}
  values : NameMap WireValue := {}
  returns : Option ReturnValues := none

def UpdateItem.shape : Shape UpdateItem where
  blank := {}
  fields := [
    .always "TableName" (·.table) (fun v x => { x with table := v }),
    .always "Key" (·.key) (fun v x => { x with key := v }),
    .optional "UpdateExpression" (·.update) (fun v x => { x with update := v }),
    .optional "ConditionExpression" (·.condition) (fun v x => { x with condition := v }),
    .nonempty "ExpressionAttributeNames" (·.names) (fun v x => { x with names := v }),
    .nonempty "ExpressionAttributeValues" (·.values) (fun v x => { x with values := v }),
    .optional "ReturnValues" (·.returns) (fun v x => { x with returns := v })]

instance : JsonForm UpdateItem := UpdateItem.shape.form

structure DeleteItem where
  table : String := ""
  key : Key := {}
  condition : Option String := none
  names : NameMap String := {}
  values : NameMap WireValue := {}

def DeleteItem.shape : Shape DeleteItem where
  blank := {}
  fields := [
    .always "TableName" (·.table) (fun v x => { x with table := v }),
    .always "Key" (·.key) (fun v x => { x with key := v }),
    .optional "ConditionExpression" (·.condition) (fun v x => { x with condition := v }),
    .nonempty "ExpressionAttributeNames" (·.names) (fun v x => { x with names := v }),
    .nonempty "ExpressionAttributeValues" (·.values) (fun v x => { x with values := v })]

instance : JsonForm DeleteItem := DeleteItem.shape.form

structure Query where
  table : String := ""
  index : Option String := none
  keyCondition : Option String := none
  filter : Option String := none
  names : NameMap String := {}
  values : NameMap WireValue := {}
  forward : Option Bool := none
  limit : Option Int32 := none
  startKey : Key := {}
  consistent : Option Bool := none

def Query.shape : Shape Query where
  blank := {}
  fields := [
    .always "TableName" (·.table) (fun v x => { x with table := v }),
    .optional "IndexName" (·.index) (fun v x => { x with index := v }),
    .optional "KeyConditionExpression" (·.keyCondition) (fun v x => { x with keyCondition := v }),
    .optional "FilterExpression" (·.filter) (fun v x => { x with filter := v }),
    .nonempty "ExpressionAttributeNames" (·.names) (fun v x => { x with names := v }),
    .nonempty "ExpressionAttributeValues" (·.values) (fun v x => { x with values := v }),
    .optional "ScanIndexForward" (·.forward) (fun v x => { x with forward := v }),
    .optional "Limit" (·.limit) (fun v x => { x with limit := v }),
    .nonempty "ExclusiveStartKey" (·.startKey) (fun v x => { x with startKey := v }),
    .optional "ConsistentRead" (·.consistent) (fun v x => { x with consistent := v })]

instance : JsonForm Query := Query.shape.form

/-- Reads by key, for each table. -/
structure BatchGet where
  tables : NameMap KeySelection := {}

def BatchGet.shape : Shape BatchGet where
  blank := {}
  fields := [.always "RequestItems" (·.tables) (fun v _ => ⟨v⟩)]

instance : JsonForm BatchGet := BatchGet.shape.form

/-- Writes, for each table. -/
structure BatchWrite where
  tables : NameMap (List WriteRequest) := {}

def BatchWrite.shape : Shape BatchWrite where
  blank := {}
  fields := [.always "RequestItems" (·.tables) (fun v _ => ⟨v⟩)]

instance : JsonForm BatchWrite := BatchWrite.shape.form

end Request

end WideColumn
