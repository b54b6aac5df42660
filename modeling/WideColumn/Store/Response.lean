import WideColumn.Store.Request

/-! Responses of the store. The blank response of each kind is the answer of a store that
has nothing to say. -/
namespace WideColumn.Response

structure DescribeTable where
  table : Option TableDescription := none

def DescribeTable.shape : Shape DescribeTable where
  blank := {}
  fields := [.optional "Table" (·.table) (fun v _ => ⟨v⟩)]

instance : JsonForm DescribeTable := DescribeTable.shape.form

structure PutItem where
  attributes : Item := {}

def PutItem.shape : Shape PutItem where
  blank := {}
  fields := [.nonempty "Attributes" (·.attributes) (fun v _ => ⟨v⟩)]

instance : JsonForm PutItem := PutItem.shape.form

structure GetItem where
  item : Option Item := none

def GetItem.shape : Shape GetItem where
  blank := {}
  fields := [.optional "Item" (·.item) (fun v _ => ⟨v⟩)]

instance : JsonForm GetItem := GetItem.shape.form

structure UpdateItem where
  attributes : Item := {}

def UpdateItem.shape : Shape UpdateItem where
  blank := {}
  fields := [.nonempty "Attributes" (·.attributes) (fun v _ => ⟨v⟩)]

instance : JsonForm UpdateItem := UpdateItem.shape.form

structure DeleteItem where
  attributes : Item := {}

def DeleteItem.shape : Shape DeleteItem where
  blank := {}
  fields := [.nonempty "Attributes" (·.attributes) (fun v _ => ⟨v⟩)]

instance : JsonForm DeleteItem := DeleteItem.shape.form

/-- One page. `lastKey` is empty when nothing follows. -/
structure Query where
  items : List Item := []
  count : Int32 := 0
  scannedCount : Int32 := 0
  lastKey : Key := {}

def Query.shape : Shape Query where
  blank := {}
  fields := [
    .nonemptyList "Items" (·.items) (fun v x => { x with items := v }),
    .always "Count" (·.count) (fun v x => { x with count := v }),
    .always "ScannedCount" (·.scannedCount) (fun v x => { x with scannedCount := v }),
    .nonempty "LastEvaluatedKey" (·.lastKey) (fun v x => { x with lastKey := v })]

instance : JsonForm Query := Query.shape.form

/-- Items found, and keys that have to be asked for again, for each table. -/
structure BatchGet where
  found : NameMap (List Item) := {}
  unprocessed : NameMap KeySelection := {}

def BatchGet.shape : Shape BatchGet where
  blank := {}
  fields := [
    .defaulted "Responses" (·.found) (fun v x => { x with found := v }),
    .defaulted "UnprocessedKeys" (·.unprocessed) (fun v x => { x with unprocessed := v })]

instance : JsonForm BatchGet := BatchGet.shape.form

/-- Writes that have to be sent again, for each table. -/
structure BatchWrite where
  unprocessed : NameMap (List WriteRequest) := {}

def BatchWrite.shape : Shape BatchWrite where
  blank := {}
  fields := [.defaulted "UnprocessedItems" (·.unprocessed) (fun v _ => ⟨v⟩)]

instance : JsonForm BatchWrite := BatchWrite.shape.form

end WideColumn.Response
