import WideColumn.WireValue.Json

/-! The part of a table's description that says which attributes are keys. -/
namespace WideColumn

def wordValue (words : List (String × α)) (word : String) : Except FormError α :=
  match words.lookup word with
  | some value => .ok value
  | none => .error .shape

/-- A word for each value; an object whose one field is the word, holding `null`, is read too.
Where no word stands nothing can be read. -/
def decodeWord (words : List (String × α)) : Document → Except FormError α
  | .string word => wordValue words word
  | .object ((some word, content) :: rest) => do
    let value ← wordValue words word
    match content, rest with
    | .null, [] => .ok value
    | .null, _ => .error .unreadable
    | content, _ => .error (content.unlike .scalar .shape)
  | _ => .error .unreadable

@[reducible] def Shape.form (s : Shape σ) : JsonForm σ := ⟨s.encode, s.decode⟩

/-- What an attribute does in a key. -/
inductive KeyRole where
  | partition
  | sort
  deriving DecidableEq, Repr

def KeyRole.word : KeyRole → String
  | .partition => "HASH"
  | .sort => "RANGE"

instance : JsonForm KeyRole where
  encode role := .string role.word
  decode := decodeWord [("HASH", .partition), ("RANGE", .sort)]

structure KeyElement where
  name : String
  role : KeyRole
  deriving DecidableEq, Repr

def KeyElement.shape : Shape KeyElement where
  blank := ⟨"", .partition⟩
  fields := [
    .always "AttributeName" (·.name) (fun v x => { x with name := v }),
    .always "KeyType" (·.role) (fun v x => { x with role := v })]

instance : JsonForm KeyElement := KeyElement.shape.form

structure IndexDescription where
  name : Option String := none
  keys : List KeyElement := []
  itemCount : Option Int64 := none
  deriving DecidableEq

def IndexDescription.shape : Shape IndexDescription where
  blank := {}
  fields := [
    .optional "IndexName" (·.name) (fun v x => { x with name := v }),
    .nonemptyList "KeySchema" (·.keys) (fun v x => { x with keys := v }),
    .optional "ItemCount" (·.itemCount) (fun v x => { x with itemCount := v })]

instance : JsonForm IndexDescription := IndexDescription.shape.form

structure TableDescription where
  name : Option String := none
  keys : List KeyElement := []
  globalIndexes : List IndexDescription := []
  localIndexes : List IndexDescription := []
  itemCount : Option Int64 := none
  deriving DecidableEq

def TableDescription.shape : Shape TableDescription where
  blank := {}
  fields := [
    .optional "TableName" (·.name) (fun v x => { x with name := v }),
    .nonemptyList "KeySchema" (·.keys) (fun v x => { x with keys := v }),
    .nonemptyList "GlobalSecondaryIndexes" (·.globalIndexes)
      (fun v x => { x with globalIndexes := v }),
    .nonemptyList "LocalSecondaryIndexes" (·.localIndexes)
      (fun v x => { x with localIndexes := v }),
    .optional "ItemCount" (·.itemCount) (fun v x => { x with itemCount := v })]

instance : JsonForm TableDescription := TableDescription.shape.form

end WideColumn
