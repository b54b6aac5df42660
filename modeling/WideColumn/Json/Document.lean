import WideColumn.Json

/-! JSON documents by their grammar alone. A part that no JSON value stands for, such as a number
too large for a double, has its place in the document, so that a reader can pass over it.
`Json.json?_document` says that nothing is lost between values and documents. -/
namespace WideColumn

/-- What is seen of a part without reading it. Numbers and strings are scalars. -/
inductive Document.Kind where
  | scalar
  | array
  | object
  deriving DecidableEq, Repr

inductive Document where
  | null
  | bool (b : Bool)
  | integer (n : Int)
  | float (x : Double)
  | string (s : String)
  | array (items : List Document)
  /-- A name that is no text is missing. -/
  | object (fields : List (Option String × Document))
  /-- A part that no JSON value stands for. -/
  | beyond (kind : Document.Kind)
  deriving Inhabited

namespace Document

mutual

/-- The value of a document that has no part beyond the values. -/
def json? : Document → Option Json
  | .null => some .null
  | .bool b => some (.bool b)
  | .integer n => some (.integer n)
  | .float x => some (.float x)
  | .string s => some (.string s)
  | .array items => (jsonItems? items).map .array
  | .object fields => (jsonFields? fields).map .object
  | .beyond _ => none

def jsonItems? : List Document → Option (List Json)
  | [] => some []
  | item :: rest => do
    let item ← item.json?
    let rest ← jsonItems? rest
    return item :: rest

def jsonFields? : List (Option String × Document) → Option (List (String × Json))
  | [] => some []
  | (name, value) :: rest => do
    let name ← name
    let value ← value.json?
    let rest ← jsonFields? rest
    return (name, value) :: rest

end

end Document

namespace Json

mutual

/-- A value as a document. -/
def document : Json → Document
  | .null => .null
  | .bool b => .bool b
  | .integer n => .integer n
  | .float x => .float x
  | .string s => .string s
  | .array items => .array (documentItems items)
  | .object fields => .object (documentFields fields)

def documentItems : List Json → List Document
  | [] => []
  | item :: rest => item.document :: documentItems rest

def documentFields : List (String × Json) → List (Option String × Document)
  | [] => []
  | (name, value) :: rest => (some name, value.document) :: documentFields rest

end

mutual

theorem json?_document : (j : Json) → j.document.json? = some j
  | .null | .bool _ | .integer _ | .float _ | .string _ => rfl
  | .array items => by simp [document, Document.json?, jsonItems?_documentItems items]
  | .object fields => by simp [document, Document.json?, jsonFields?_documentFields fields]

theorem jsonItems?_documentItems : (items : List Json) →
    Document.jsonItems? (documentItems items) = some items
  | [] => rfl
  | item :: rest => by
    simp [documentItems, Document.jsonItems?, json?_document item, jsonItems?_documentItems rest]

theorem jsonFields?_documentFields : (fields : List (String × Json)) →
    Document.jsonFields? (documentFields fields) = some fields
  | [] => rfl
  | (name, value) :: rest => by
    simp [documentFields, Document.jsonFields?, json?_document value,
      jsonFields?_documentFields rest]

end

end Json

end WideColumn
