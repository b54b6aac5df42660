import WideColumn.Store.Fault
import WideColumn.Store.Response

/-! A call is one request to the store. The answer is a JSON value or a fault; a value
that does not have the form of the response counts as a fault as well. -/
namespace WideColumn

inductive Call where
  | describeTable (request : Request.DescribeTable)
  | getItem (request : Request.GetItem)
  | putItem (request : Request.PutItem)
  | updateItem (request : Request.UpdateItem)
  | deleteItem (request : Request.DeleteItem)
  | query (request : Request.Query)
  | batchGet (request : Request.BatchGet)
  | batchWrite (request : Request.BatchWrite)

abbrev Answer := Except StoreFault Json

def Answer.read (response : Shape α) : Answer → Except StoreFault α
  | .ok value => (response.decode value.document).mapError fun _ => .undecodable
  | .error fault => .error fault

/-- What comes back for one call, and the answers that the store is still going to give. -/
structure Reply (α : Type) where
  result : Except StoreFault α
  answers : List Answer

/-- The next answer. A store without answers gives blank responses. -/
def Reply.next (response : Shape α) : List Answer → Reply α
  | [] => ⟨.ok response.blank, []⟩
  | answer :: rest => ⟨answer.read response, rest⟩

end WideColumn
