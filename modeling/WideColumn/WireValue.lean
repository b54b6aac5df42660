import WideColumn.NameMap
import WideColumn.Text.Quoted

/-! Attribute values as the store knows them. Numbers are text, so that no digit is lost
on the way; there are three kinds of sets. The fields of a map are an entry list, in order
of name wherever this library builds one. -/
namespace WideColumn

inductive WireValue where
  | string (text : String)
  | number (text : String)
  | binary (bytes : List UInt8)
  | stringSet (texts : List String)
  | numberSet (texts : List String)
  | binarySet (items : List (List UInt8))
  | bool (b : Bool)
  | null (flag : Bool)
  | list (items : List WireValue)
  | map (fields : List (String × WireValue))

/-- A stored object. -/
abbrev Item := NameMap WireValue

/-- The part of an item that addresses it. -/
abbrev Key := NameMap WireValue

namespace WireValue

/-- The name of the type in the store's documents. -/
def descriptor : WireValue → String
  | .string _ => "S"
  | .number _ => "N"
  | .binary _ => "B"
  | .stringSet _ => "SS"
  | .numberSet _ => "NS"
  | .binarySet _ => "BS"
  | .bool _ => "BOOL"
  | .null _ => "NULL"
  | .list _ => "L"
  | .map _ => "M"

def string? : WireValue → Option String
  | .string text => some text
  | _ => none

def number? : WireValue → Option String
  | .number text => some text
  | _ => none

def binary? : WireValue → Option (List UInt8)
  | .binary bytes => some bytes
  | _ => none

def list? : WireValue → Option (List WireValue)
  | .list items => some items
  | _ => none

def map? : WireValue → Option (List (String × WireValue))
  | .map fields => some fields
  | _ => none

/-- Only the marker that is set counts as null. -/
def isNull : WireValue → Bool
  | .null flag => flag
  | _ => false

def count (n : Nat) (noun : String) : String := toString n ++ " " ++ noun

/-- What is shown of the contents: scalars and sets of texts in full, the rest by size. -/
def summary : WireValue → String
  | .string text => text
  | .number text => text
  | .binary bytes => count bytes.length "bytes"
  | .stringSet texts => Text.quotedList texts
  | .numberSet texts => Text.quotedList texts
  | .binarySet items => count items.length "items"
  | .bool b => toString b
  | .null flag => toString flag
  | .list items => count items.length "items"
  | .map fields => count fields.length "keys"

def display (w : WireValue) : String := "\x7b" ++ w.descriptor ++ ": " ++ w.summary ++ "\x7d"

end WireValue

end WideColumn
