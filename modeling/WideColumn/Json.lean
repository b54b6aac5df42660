import WideColumn.NameMap
import WideColumn.Double

/-! JSON values. Objects keep their fields in the order of the text, repeated names
included: what a repeated name means is for the reader of the value to say. -/
namespace WideColumn

inductive Json where
  | null
  | bool (b : Bool)
  | integer (n : Int)
  | float (x : Double)
  | string (s : String)
  | array (items : List Json)
  | object (fields : List (String × Json))
  deriving Inhabited

end WideColumn
