import WideColumn.Store.Response
import WideColumn.Proofs.Json.Shape
import WideColumn.Proofs.WireValue.Grammar

/-! What the store and its clients send each other is read as it was meant: the requests, the
responses, and the messages that are parts of them. Attribute maps are taken in order of name
throughout; the order stands for nothing. -/
namespace WideColumn

open JsonForm
open JsonForm.Lawful (Ordered)

/-! ## Words and values -/

/-- Each value has a word of its own. -/
@[reducible] def JsonForm.lawfulWord [JsonForm α] (word : α → String)
    (writes : ∀ a : α, encode a = .string (word a))
    (reads : ∀ a : α, decode (encode a).document = .ok a) : Lawful α where
  Ordered _ := True
  distinct a _ := by
    rw [writes]
    rfl
  reads a j _ arranges := by
    rw [writes] at arranges
    rw [arranges.eq_string, ← writes]
    exact reads a
  injective := encode_injective reads
  ne_null a := by
    rw [writes]
    nofun

theorem KeyRole.reads : ∀ role : KeyRole, decode (encode role).document = .ok role
  | .partition | .sort => rfl

theorem ReturnValues.reads : ∀ values : ReturnValues, decode (encode values).document = .ok values
  | .none | .allOld | .updatedOld | .allNew | .updatedNew => rfl

instance : Lawful KeyRole := lawfulWord KeyRole.word (fun _ => rfl) KeyRole.reads

instance : Lawful ReturnValues := lawfulWord ReturnValues.word (fun _ => rfl) ReturnValues.reads

@[simp] theorem KeyRole.ordered (role : KeyRole) : Ordered role := trivial

@[simp] theorem ReturnValues.ordered (values : ReturnValues) : Ordered values := trivial

instance : Lawful WireValue where
  Ordered := WireValue.Ordered
  distinct _ ordered := WireValue.namesDistinct_encode ordered
  reads _ _ ordered arranges :=
    (WireValue.decode_document_iff arranges.distinct).2
      (arranges.same.trans (WireValue.sorted_encode ordered))
  injective _ _ same := WireValue.encode_inj same
  ne_null w := by cases w <;> nofun

/-! ## Parts of messages

What is particular to a message is which part of it each of its fields holds. The laws of its shape
say of these parts that none touches another one and that together they are the message; `simp` checks
this field by field, with what is known of each kind of field. -/

/-- A message as a part of other messages. -/
@[reducible] def Shape.lawfulForm (s : Shape σ) (lawful : s.Lawful) (Ordered : σ → Prop)
    (restores : ∀ x, Ordered x → ∀ f ∈ s.fields, f.Restores x) : @JsonForm.Lawful σ s.form :=
  let _ := s.form
  { Ordered := Ordered
    distinct := fun x ordered => lawful.namesDistinct_encode (restores x ordered)
    reads := fun x _ ordered arranges => lawful.decode_arranged (restores x ordered) arranges
    injective := lawful.encode_injective
    ne_null := fun _ => nofun }

theorem KeyElement.lawful : KeyElement.shape.Lawful where
  distinct := by decide
  apart := by simp [shape]
  omitted := by simp [shape]
  whole := by rintro ⟨⟩ ⟨⟩; simp [shape]

theorem KeyElement.restores (x : KeyElement) : ∀ f ∈ KeyElement.shape.fields, f.Restores x := by
  simp [shape]

instance : Lawful KeyElement :=
  KeyElement.shape.lawfulForm KeyElement.lawful (fun _ => True) fun x _ => x.restores

@[simp] theorem KeyElement.ordered (x : KeyElement) : Ordered x := trivial

theorem KeyElement.survives (x : KeyElement) : KeyElement.shape.Survives x :=
  KeyElement.lawful.survives x.restores

theorem IndexDescription.lawful : IndexDescription.shape.Lawful where
  distinct := by decide
  apart := by simp [shape]
  omitted := by simp [shape]
  whole := by rintro ⟨⟩ ⟨⟩; simp [shape]

theorem IndexDescription.restores (x : IndexDescription) :
    ∀ f ∈ IndexDescription.shape.fields, f.Restores x := by
  simp [shape]

instance : Lawful IndexDescription :=
  IndexDescription.shape.lawfulForm IndexDescription.lawful (fun _ => True) fun x _ => x.restores

@[simp] theorem IndexDescription.ordered (x : IndexDescription) : Ordered x := trivial

theorem IndexDescription.survives (x : IndexDescription) : IndexDescription.shape.Survives x :=
  IndexDescription.lawful.survives x.restores

theorem TableDescription.lawful : TableDescription.shape.Lawful where
  distinct := by decide
  apart := by simp [shape]
  omitted := by simp [shape]
  whole := by rintro ⟨⟩ ⟨⟩; simp [shape]

theorem TableDescription.restores (x : TableDescription) :
    ∀ f ∈ TableDescription.shape.fields, f.Restores x := by
  simp [shape]

instance : Lawful TableDescription :=
  TableDescription.shape.lawfulForm TableDescription.lawful (fun _ => True) fun x _ => x.restores

@[simp] theorem TableDescription.ordered (x : TableDescription) : Ordered x := trivial

theorem TableDescription.survives (x : TableDescription) : TableDescription.shape.Survives x :=
  TableDescription.lawful.survives x.restores

theorem PutRequest.lawful : PutRequest.shape.Lawful where
  distinct := by decide
  apart := by simp [shape]
  omitted := by simp [shape]
  whole := by rintro ⟨⟩ ⟨⟩; simp [shape]

theorem PutRequest.restores (x : PutRequest) (ordered : Ordered x.item) :
    ∀ f ∈ PutRequest.shape.fields, f.Restores x := by
  simp [shape, ordered]

instance : Lawful PutRequest :=
  PutRequest.shape.lawfulForm PutRequest.lawful _ PutRequest.restores

theorem PutRequest.survives (x : PutRequest) (ordered : Ordered x) : PutRequest.shape.Survives x :=
  PutRequest.lawful.survives (x.restores ordered)

theorem DeleteRequest.lawful : DeleteRequest.shape.Lawful where
  distinct := by decide
  apart := by simp [shape]
  omitted := by simp [shape]
  whole := by rintro ⟨⟩ ⟨⟩; simp [shape]

theorem DeleteRequest.restores (x : DeleteRequest) (ordered : Ordered x.key) :
    ∀ f ∈ DeleteRequest.shape.fields, f.Restores x := by
  simp [shape, ordered]

instance : Lawful DeleteRequest :=
  DeleteRequest.shape.lawfulForm DeleteRequest.lawful _ DeleteRequest.restores

theorem DeleteRequest.survives (x : DeleteRequest) (ordered : Ordered x) : DeleteRequest.shape.Survives x :=
  DeleteRequest.lawful.survives (x.restores ordered)

theorem WriteRequest.lawful : WriteRequest.shape.Lawful where
  distinct := by decide
  apart := by simp [shape]
  omitted := by simp [shape]
  whole := by rintro ⟨⟩ ⟨⟩; simp [shape]

theorem WriteRequest.restores (x : WriteRequest)
    (ordered : (∀ put, x.put = some put → Ordered put) ∧
      ∀ delete, x.delete = some delete → Ordered delete) :
    ∀ f ∈ WriteRequest.shape.fields, f.Restores x := by
  have put := Slot.optional_restores ordered.1
  have delete := Slot.optional_restores ordered.2
  simp [shape, put, delete]

instance : Lawful WriteRequest :=
  WriteRequest.shape.lawfulForm WriteRequest.lawful _ WriteRequest.restores

theorem WriteRequest.survives (x : WriteRequest) (ordered : Ordered x) : WriteRequest.shape.Survives x :=
  WriteRequest.lawful.survives (x.restores ordered)

theorem KeySelection.lawful : KeySelection.shape.Lawful where
  distinct := by decide
  apart := by simp [shape]
  omitted := by simp [shape]
  whole := by rintro ⟨⟩ ⟨⟩; simp [shape]

theorem KeySelection.restores (x : KeySelection) (ordered : Ordered x.keys) :
    ∀ f ∈ KeySelection.shape.fields, f.Restores x := by
  simp [shape, ordered]

instance : Lawful KeySelection :=
  KeySelection.shape.lawfulForm KeySelection.lawful _ KeySelection.restores

theorem KeySelection.survives (x : KeySelection) (ordered : Ordered x) : KeySelection.shape.Survives x :=
  KeySelection.lawful.survives (x.restores ordered)

/-! ## Requests -/

namespace Request

theorem DescribeTable.lawful : DescribeTable.shape.Lawful where
  distinct := by decide
  apart := by simp [shape]
  omitted := by simp [shape]
  whole := by rintro ⟨⟩ ⟨⟩; simp [shape]

theorem DescribeTable.survives (x : DescribeTable) :
    DescribeTable.shape.Survives x := by
  apply DescribeTable.lawful.survives
  simp [shape]

theorem PutItem.lawful : PutItem.shape.Lawful where
  distinct := by decide
  apart := by simp [shape]
  omitted := by simp [shape]
  whole := by rintro ⟨⟩ ⟨⟩; simp [shape]

theorem PutItem.survives (x : PutItem) (item : Ordered x.item) (values : Ordered x.values) :
    PutItem.shape.Survives x := by
  apply PutItem.lawful.survives
  simp [shape, item, values]

theorem GetItem.lawful : GetItem.shape.Lawful where
  distinct := by decide
  apart := by simp [shape]
  omitted := by simp [shape]
  whole := by rintro ⟨⟩ ⟨⟩; simp [shape]

theorem GetItem.survives (x : GetItem) (key : Ordered x.key) :
    GetItem.shape.Survives x := by
  apply GetItem.lawful.survives
  simp [shape, key]

theorem UpdateItem.lawful : UpdateItem.shape.Lawful where
  distinct := by decide
  apart := by simp [shape]
  omitted := by simp [shape]
  whole := by rintro ⟨⟩ ⟨⟩; simp [shape]

theorem UpdateItem.survives (x : UpdateItem) (key : Ordered x.key) (values : Ordered x.values) :
    UpdateItem.shape.Survives x := by
  apply UpdateItem.lawful.survives
  simp [shape, key, values]

theorem DeleteItem.lawful : DeleteItem.shape.Lawful where
  distinct := by decide
  apart := by simp [shape]
  omitted := by simp [shape]
  whole := by rintro ⟨⟩ ⟨⟩; simp [shape]

theorem DeleteItem.survives (x : DeleteItem) (key : Ordered x.key) (values : Ordered x.values) :
    DeleteItem.shape.Survives x := by
  apply DeleteItem.lawful.survives
  simp [shape, key, values]

theorem Query.lawful : Query.shape.Lawful where
  distinct := by decide
  apart := by simp [shape]
  omitted := by simp [shape]
  whole := by rintro ⟨⟩ ⟨⟩; simp [shape]

theorem Query.survives (x : Query) (values : Ordered x.values) (startKey : Ordered x.startKey) :
    Query.shape.Survives x := by
  apply Query.lawful.survives
  simp [shape, values, startKey]

theorem BatchGet.lawful : BatchGet.shape.Lawful where
  distinct := by decide
  apart := by simp [shape]
  omitted := by simp [shape]
  whole := by rintro ⟨⟩ ⟨⟩; simp [shape]

theorem BatchGet.survives (x : BatchGet) (tables : Ordered x.tables) :
    BatchGet.shape.Survives x := by
  apply BatchGet.lawful.survives
  simp [shape, tables]

theorem BatchWrite.lawful : BatchWrite.shape.Lawful where
  distinct := by decide
  apart := by simp [shape]
  omitted := by simp [shape]
  whole := by rintro ⟨⟩ ⟨⟩; simp [shape]

theorem BatchWrite.survives (x : BatchWrite) (tables : Ordered x.tables) :
    BatchWrite.shape.Survives x := by
  apply BatchWrite.lawful.survives
  simp [shape, tables]

end Request

/-! ## Responses -/

namespace Response

theorem DescribeTable.lawful : DescribeTable.shape.Lawful where
  distinct := by decide
  apart := by simp [shape]
  omitted := by simp [shape]
  whole := by rintro ⟨⟩ ⟨⟩; simp [shape]

theorem DescribeTable.survives (x : DescribeTable) :
    DescribeTable.shape.Survives x := by
  apply DescribeTable.lawful.survives
  simp [shape]

theorem PutItem.lawful : PutItem.shape.Lawful where
  distinct := by decide
  apart := by simp [shape]
  omitted := by simp [shape]
  whole := by rintro ⟨⟩ ⟨⟩; simp [shape]

theorem PutItem.survives (x : PutItem) (attributes : Ordered x.attributes) :
    PutItem.shape.Survives x := by
  apply PutItem.lawful.survives
  simp [shape, attributes]

theorem GetItem.lawful : GetItem.shape.Lawful where
  distinct := by decide
  apart := by simp [shape]
  omitted := by simp [shape]
  whole := by rintro ⟨⟩ ⟨⟩; simp [shape]

theorem GetItem.survives (x : GetItem) (ordered : ∀ item, x.item = some item → Ordered item) :
    GetItem.shape.Survives x := by
  apply GetItem.lawful.survives
  have restores := Slot.optional_restores ordered
  simp [shape, restores]

theorem UpdateItem.lawful : UpdateItem.shape.Lawful where
  distinct := by decide
  apart := by simp [shape]
  omitted := by simp [shape]
  whole := by rintro ⟨⟩ ⟨⟩; simp [shape]

theorem UpdateItem.survives (x : UpdateItem) (attributes : Ordered x.attributes) :
    UpdateItem.shape.Survives x := by
  apply UpdateItem.lawful.survives
  simp [shape, attributes]

theorem DeleteItem.lawful : DeleteItem.shape.Lawful where
  distinct := by decide
  apart := by simp [shape]
  omitted := by simp [shape]
  whole := by rintro ⟨⟩ ⟨⟩; simp [shape]

theorem DeleteItem.survives (x : DeleteItem) (attributes : Ordered x.attributes) :
    DeleteItem.shape.Survives x := by
  apply DeleteItem.lawful.survives
  simp [shape, attributes]

theorem Query.lawful : Query.shape.Lawful where
  distinct := by decide
  apart := by simp [shape]
  omitted := by simp [shape]
  whole := by rintro ⟨⟩ ⟨⟩; simp [shape]

theorem Query.survives (x : Query) (items : Ordered x.items) (lastKey : Ordered x.lastKey) :
    Query.shape.Survives x := by
  apply Query.lawful.survives
  simp [shape, items, lastKey]

theorem BatchGet.lawful : BatchGet.shape.Lawful where
  distinct := by decide
  apart := by simp [shape]
  omitted := by simp [shape]
  whole := by rintro ⟨⟩ ⟨⟩; simp [shape]

theorem BatchGet.survives (x : BatchGet) (found : Ordered x.found) (unprocessed : Ordered x.unprocessed) :
    BatchGet.shape.Survives x := by
  apply BatchGet.lawful.survives
  simp [shape, found, unprocessed]

theorem BatchWrite.lawful : BatchWrite.shape.Lawful where
  distinct := by decide
  apart := by simp [shape]
  omitted := by simp [shape]
  whole := by rintro ⟨⟩ ⟨⟩; simp [shape]

theorem BatchWrite.survives (x : BatchWrite) (unprocessed : Ordered x.unprocessed) :
    BatchWrite.shape.Survives x := by
  apply BatchWrite.lawful.survives
  simp [shape, unprocessed]

end Response

/-! ## All messages -/

/-- Every message is read back from its document, though what holds nothing is left out of it, with its
fields in any order and with any others among them. -/
theorem messages_survive :
    ((∀ x : KeyElement, KeyElement.shape.Survives x) ∧
      (∀ x : IndexDescription, IndexDescription.shape.Survives x) ∧
      (∀ x : TableDescription, TableDescription.shape.Survives x) ∧
      (∀ x : PutRequest, Ordered x → PutRequest.shape.Survives x) ∧
      (∀ x : DeleteRequest, Ordered x → DeleteRequest.shape.Survives x) ∧
      (∀ x : WriteRequest, Ordered x → WriteRequest.shape.Survives x) ∧
      (∀ x : KeySelection, Ordered x → KeySelection.shape.Survives x)) ∧
    ((∀ x : Request.DescribeTable, Request.DescribeTable.shape.Survives x) ∧
      (∀ x : Request.PutItem, Ordered x.item → Ordered x.values → Request.PutItem.shape.Survives x) ∧
      (∀ x : Request.GetItem, Ordered x.key → Request.GetItem.shape.Survives x) ∧
      (∀ x : Request.UpdateItem, Ordered x.key → Ordered x.values →
        Request.UpdateItem.shape.Survives x) ∧
      (∀ x : Request.DeleteItem, Ordered x.key → Ordered x.values →
        Request.DeleteItem.shape.Survives x) ∧
      (∀ x : Request.Query, Ordered x.values → Ordered x.startKey → Request.Query.shape.Survives x) ∧
      (∀ x : Request.BatchGet, Ordered x.tables → Request.BatchGet.shape.Survives x) ∧
      (∀ x : Request.BatchWrite, Ordered x.tables → Request.BatchWrite.shape.Survives x)) ∧
    ((∀ x : Response.DescribeTable, Response.DescribeTable.shape.Survives x) ∧
      (∀ x : Response.PutItem, Ordered x.attributes → Response.PutItem.shape.Survives x) ∧
      (∀ x : Response.GetItem, (∀ item, x.item = some item → Ordered item) →
        Response.GetItem.shape.Survives x) ∧
      (∀ x : Response.UpdateItem, Ordered x.attributes → Response.UpdateItem.shape.Survives x) ∧
      (∀ x : Response.DeleteItem, Ordered x.attributes → Response.DeleteItem.shape.Survives x) ∧
      (∀ x : Response.Query, Ordered x.items → Ordered x.lastKey → Response.Query.shape.Survives x) ∧
      (∀ x : Response.BatchGet, Ordered x.found → Ordered x.unprocessed →
        Response.BatchGet.shape.Survives x) ∧
      (∀ x : Response.BatchWrite, Ordered x.unprocessed → Response.BatchWrite.shape.Survives x)) :=
  ⟨⟨KeyElement.survives, IndexDescription.survives, TableDescription.survives, PutRequest.survives,
      DeleteRequest.survives, WriteRequest.survives, KeySelection.survives⟩,
    ⟨Request.DescribeTable.survives, Request.PutItem.survives, Request.GetItem.survives,
      Request.UpdateItem.survives, Request.DeleteItem.survives, Request.Query.survives,
      Request.BatchGet.survives, Request.BatchWrite.survives⟩,
    ⟨Response.DescribeTable.survives, Response.PutItem.survives, Response.GetItem.survives,
      Response.UpdateItem.survives, Response.DeleteItem.survives, Response.Query.survives,
      Response.BatchGet.survives, Response.BatchWrite.survives⟩⟩

/-- A page that nothing follows, so that it has no key to go on from. -/
def lastPage : Response.Query where
  items := [.ofList [("id", .string "a"),
    ("size", .map [("height", .number "2"), ("width", .number "3")])]]
  count := 1
  scannedCount := 2

/-- Its fields, and those of its item, in another order. -/
def lastPageFields : List (String × Json) :=
  [("ScannedCount", .integer 2),
    ("Items", .array [.object [("size", .object [("M", .object [
      ("width", .object [("N", .string "3")]), ("height", .object [("N", .string "2")])])]),
      ("id", .object [("S", .string "a")])]]),
    ("Count", .integer 1)]

/-- A field that is no part of it, and that is not even a JSON value. -/
def lastPageOther : String × Document := ("ConsumedCapacity", .beyond .object)

theorem messages_survive_lastPage :
    Ordered lastPage.items ∧ Ordered lastPage.lastKey ∧
      Response.Query.shape.decode (Response.Query.shape.encode lastPage).document = .ok lastPage ∧
      Response.Query.shape.decode (.object ((some lastPageOther.1, lastPageOther.2) ::
        Json.documentFields lastPageFields)) = .ok lastPage := by
  have items : Ordered lastPage.items := by
    intro item member entry there
    obtain rfl := List.mem_singleton.1 member
    have listed := Entries.mem_of_mem_ofList there
    rcases List.mem_pair.1 listed with rfl | rfl
    · trivial
    · refine ⟨?_, trivial, trivial, trivial⟩
      unfold Entries.Ordered
      decide
  have lastKey : Ordered lastPage.lastKey := by
    intro entry there
    cases there
  have survives := messages_survive.2.2.2.2.2.2.2.1 lastPage items lastKey
  refine ⟨items, lastKey, survives.1, ?_⟩
  have strange : ∀ other ∈ [lastPageOther], other.1 ∉ Response.Query.shape.names := by decide
  exact survives.2 lastPageFields [lastPageOther]
    (lastPageOther :: Entries.mapValues Json.document lastPageFields) ⟨rfl, rfl⟩ strange
    (List.perm_append_singleton _ _).symm

end WideColumn
