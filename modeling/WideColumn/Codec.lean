import WideColumn.Error
import WideColumn.WireValue
import WideColumn.Numeral
import WideColumn.Text.Blank

/-! Conversion between native and stored values. Numbers are stored as text: integers in decimal,
doubles with their shortest digits. Stored text is trimmed; integer text of 64 bits gives an
integer, and so does other text whose double is integral and small. The rest gives doubles. -/
namespace WideColumn

def Double.numberText (x : Double) : Except MapperError String :=
  if x.isFinite then .ok x.display else .error (.codec (.notFinite x))

/-- Up to here integral doubles are read as integers. -/
def integralBound : Nat := 9 * Nat.pow 10 15

def Value.ofDouble (x : Double) : Value :=
  match x.toInt? with
  | some n => if n.natAbs < integralBound then .int (Int64.ofInt n) else .float x
  | none => .float x

def Value.ofNumberText (text : String) : Except MapperError Value :=
  let trimmed := Text.trim text.toList
  match int64? trimmed with
  | some n => .ok (.int n)
  | none =>
    match Double.read? trimmed with
    | some x => .ok (.ofDouble x)
    | none => .error (.codec (.notNumber text))

namespace Value

/-- The text of a member of a number set. -/
def memberText : Value → Except MapperError String
  | .int n => .ok (toString n.toInt)
  | .float x => x.numberText
  | other => .error (.codec (.notNumeric other))

def memberTexts : List Value → Except MapperError (List String)
  | [] => .ok []
  | item :: rest => do
    let text ← item.memberText
    let rest ← memberTexts rest
    return text :: rest

mutual

def serialize : Value → Except MapperError WireValue
  | .null => .ok (.null true)
  | .bool b => .ok (.bool b)
  | .int n => .ok (.number (toString n.toInt))
  | .float x => x.numberText.map .number
  | .string text => .ok (.string text)
  | .bytes data => .ok (.binary data)
  | .list items => (serializeList items).map .list
  | .map fields => (serializeFields fields).map .map
  | .stringSet texts => .ok (.stringSet texts)
  | .numberSet items => (memberTexts items).map .numberSet
  | .binarySet items => .ok (.binarySet items)

def serializeList : List Value → Except MapperError (List WireValue)
  | [] => .ok []
  | item :: rest => do
    let item ← item.serialize
    let rest ← serializeList rest
    return item :: rest

def serializeFields : List (String × Value) → Except MapperError (List (String × WireValue))
  | [] => .ok []
  | (name, value) :: rest => do
    let value ← value.serialize
    let rest ← serializeFields rest
    return (name, value) :: rest

end

def ofNumberTexts : List String → Except MapperError (List Value)
  | [] => .ok []
  | text :: rest => do
    let value ← ofNumberText text
    let rest ← ofNumberTexts rest
    return value :: rest

end Value

namespace WireValue

mutual

def deserialize : WireValue → Except MapperError Value
  | .null _ => .ok .null
  | .bool b => .ok (.bool b)
  | .number text => Value.ofNumberText text
  | .string text => .ok (.string text)
  | .binary data => .ok (.bytes data)
  | .list items => (deserializeList items).map .list
  | .map fields => (deserializeFields fields).map .map
  | .stringSet texts => .ok (.stringSet texts)
  | .numberSet texts => (Value.ofNumberTexts texts).map .numberSet
  | .binarySet items => .ok (.binarySet items)

def deserializeList : List WireValue → Except MapperError (List Value)
  | [] => .ok []
  | item :: rest => do
    let item ← item.deserialize
    let rest ← deserializeList rest
    return item :: rest

def deserializeFields : List (String × WireValue) → Except MapperError (List (String × Value))
  | [] => .ok []
  | (name, value) :: rest => do
    let value ← value.deserialize
    let rest ← deserializeFields rest
    return (name, value) :: rest

end

end WireValue

/-- The stored form of an object. -/
def serializeItem (values : NameMap Value) : Except MapperError Item :=
  values.traverse Value.serialize

/-- The native values of a stored object. -/
def deserializeItem (item : Item) : Except MapperError (NameMap Value) :=
  item.traverse WireValue.deserialize

end WideColumn
