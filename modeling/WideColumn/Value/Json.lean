import WideColumn.Value
import WideColumn.Json
import WideColumn.Text.Base64

/-! Values as JSON documents. Bytes become text in base 64, sets become arrays, and a
double that is not finite becomes null. Read back, an integer of 64 bits stays an integer
and a larger one becomes a double. -/
namespace WideColumn.Value

def base64 (data : List UInt8) : String := String.ofList (Text.Base64.encode data)

mutual

def toJson : Value → Json
  | .null => .null
  | .bool b => .bool b
  | .int n => .integer n.toInt
  | .float x => if x.isFinite then .float x else .null
  | .string text => .string text
  | .bytes data => .string (base64 data)
  | .list items => .array (listToJson items)
  | .map fields => .object (fieldsToJson fields)
  | .stringSet texts => .array (texts.map .string)
  | .numberSet items => .array (listToJson items)
  | .binarySet items => .array (items.map fun data => .string (base64 data))

def listToJson : List Value → List Json
  | [] => []
  | item :: rest => item.toJson :: listToJson rest

def fieldsToJson : List (String × Value) → List (String × Json)
  | [] => []
  | (name, value) :: rest => (name, value.toJson) :: fieldsToJson rest

end

/-- An integer as a value. -/
def ofInt (n : Int) : Value :=
  if Int64.minValue.toInt ≤ n ∧ n ≤ Int64.maxValue.toInt then .int (Int64.ofInt n)
  else .float (Double.ofInt n)

mutual

/-- Of several fields with one name the last one counts. -/
def ofJson : Json → Value
  | .null => .null
  | .bool b => .bool b
  | .integer n => ofInt n
  | .float x => .float x
  | .string text => .string text
  | .array items => .list (listOfJson items)
  | .object fields => .map (Entries.ofList (fieldsOfJson fields))

def listOfJson : List Json → List Value
  | [] => []
  | item :: rest => ofJson item :: listOfJson rest

def fieldsOfJson : List (String × Json) → List (String × Value)
  | [] => []
  | (name, value) :: rest => (name, ofJson value) :: fieldsOfJson rest

end

end WideColumn.Value
