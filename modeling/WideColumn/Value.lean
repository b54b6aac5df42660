import WideColumn.NameMap
import WideColumn.Double

/-! Native attribute values, as an application sees them. Integers of 64 bits and doubles
are kept apart, but equality goes by the exact number. The fields of a map are an entry
list, in order of name wherever this library builds one. -/
namespace WideColumn

inductive Value where
  | null
  | bool (b : Bool)
  | int (n : Int64)
  | float (x : Double)
  | string (text : String)
  | bytes (data : List UInt8)
  | list (items : List Value)
  | map (fields : List (String × Value))
  | stringSet (texts : List String)
  | numberSet (items : List Value)
  | binarySet (items : List (List UInt8))
  deriving Inhabited

namespace Value

def string? : Value → Option String
  | .string text => some text
  | _ => none

def int? : Value → Option Int64
  | .int n => some n
  | _ => none

/-- Either kind of number, rounded to a double. -/
def double? : Value → Option Double
  | .int n => some (.ofInt n.toInt)
  | .float x => some x
  | _ => none

def isNull : Value → Bool
  | .null => true
  | _ => false

mutual

/-- Numbers are equal when they are the same number, whichever way they are held. -/
def same : Value → Value → Bool
  | .null, .null => true
  | .bool a, .bool b => a == b
  | .int a, .int b => a == b
  | .float a, .float b => a.sameNumber b
  | .int n, .float x => x.toInt? == some n.toInt
  | .float x, .int n => x.toInt? == some n.toInt
  | .string a, .string b => a == b
  | .bytes a, .bytes b => a == b
  | .list a, .list b => sameItems a b
  | .map a, .map b => sameFields a b
  | .stringSet a, .stringSet b => a == b
  | .numberSet a, .numberSet b => sameItems a b
  | .binarySet a, .binarySet b => a == b
  | _, _ => false

def sameItems : List Value → List Value → Bool
  | [], [] => true
  | a :: as, b :: bs => same a b && sameItems as bs
  | _, _ => false

def sameFields : List (String × Value) → List (String × Value) → Bool
  | [], [] => true
  | (name, a) :: as, (other, b) :: bs => name == other && same a b && sameFields as bs
  | _, _ => false

end

instance : BEq Value := ⟨same⟩

end Value

end WideColumn
