import WideColumn.WireValue
import WideColumn.Json.Form
import WideColumn.Text.Base64

/-! The documents of attribute values: objects with one field, named for its type. Bytes
are written in base 64. Of several faults the first in the order of the text is reported;
a fault of the first field comes before the fault of having a second one. -/
namespace WideColumn

namespace FormError

/-- The text of a fault of an attribute value. -/
def message? : FormError → Option String
  | .unreadable => none
  | .shape => none
  | .notAttribute => some "expected an AttributeValue object with exactly one type key"
  | .notOneType => some "AttributeValue must have exactly one key"
  | .unknownType name =>
    some ("unknown field `" ++ name ++ "`, expected one of `S`, `N`, `B`, `SS`, `NS`, `BS`, " ++
      "`BOOL`, `NULL`, `L`, `M`")

end FormError

namespace WireValue

def encodeBytes (bytes : List UInt8) : Json := .string (String.ofList (Text.Base64.encode bytes))

mutual

def encode : WireValue → Json
  | .string text => .object [("S", .string text)]
  | .number text => .object [("N", .string text)]
  | .binary bytes => .object [("B", encodeBytes bytes)]
  | .stringSet texts => .object [("SS", .array (texts.map .string))]
  | .numberSet texts => .object [("NS", .array (texts.map .string))]
  | .binarySet items => .object [("BS", .array (items.map encodeBytes))]
  | .bool b => .object [("BOOL", .bool b)]
  | .null flag => .object [("NULL", .bool flag)]
  | .list items => .object [("L", .array (encodeList items))]
  | .map fields => .object [("M", .object (encodeFields fields))]

def encodeList : List WireValue → List Json
  | [] => []
  | item :: rest => item.encode :: encodeList rest

def encodeFields : List (String × WireValue) → List (String × Json)
  | [] => []
  | (name, value) :: rest => (name, value.encode) :: encodeFields rest

end

def decodeBytes (text : String) : Except FormError (List UInt8) :=
  match Text.Base64.decode? text.toList with
  | some bytes => .ok bytes
  | none => .error .shape

def decodeText : Document → Except FormError String := JsonForm.decode

/-- All texts are read before the first one is decoded. -/
def decodeTexts : Document → Except FormError (List String) := JsonForm.decode

/-- The one field of an attribute value is followed by no other, whatever its name and value. -/
def alone (w : WireValue) : List (Option String × Document) → Except FormError WireValue
  | [] => .ok w
  | (none, _) :: _ => .error .unreadable
  | (some _, _) :: _ => .error .notOneType

mutual

def decode : Document → Except FormError WireValue
  | .object [] => .error .notOneType
  | .object ((none, _) :: _) => .error .unreadable
  | .object ((some name, payload) :: rest) => do
    let value ← decodePayload name payload
    alone value rest
  | d => .error (d.unlike .object .notAttribute)

def decodePayload (name : String) (payload : Document) : Except FormError WireValue :=
  match name, payload with
  | "S", payload => (decodeText payload).map .string
  | "N", payload => (decodeText payload).map .number
  | "B", payload => (decodeText payload).bind fun text => (decodeBytes text).map .binary
  | "SS", payload => (decodeTexts payload).map .stringSet
  | "NS", payload => (decodeTexts payload).map .numberSet
  | "BS", payload => (decodeTexts payload).bind fun texts =>
    (texts.mapM decodeBytes).map .binarySet
  | "BOOL", payload => (JsonForm.decode payload).map .bool
  | "NULL", payload => (JsonForm.decode payload).map .null
  | "L", .array items => (decodeList items).map .list
  | "L", payload => .error (payload.unlike .array .shape)
  | "M", .object fields => (decodeFields fields).map fun fields => .map (Entries.ofList fields)
  | "M", payload => .error (payload.unlike .object .shape)
  | name, _ => .error (.unknownType name)

def decodeList : List Document → Except FormError (List WireValue)
  | [] => .ok []
  | item :: rest => do
    let item ← decode item
    let rest ← decodeList rest
    return item :: rest

def decodeFields :
    List (Option String × Document) → Except FormError (List (String × WireValue))
  | [] => .ok []
  | (none, _) :: _ => .error .unreadable
  | (some name, value) :: rest => do
    let value ← decode value
    let rest ← decodeFields rest
    return (name, value) :: rest

end

instance : JsonForm WireValue := ⟨encode, decode⟩

end WireValue

end WideColumn
