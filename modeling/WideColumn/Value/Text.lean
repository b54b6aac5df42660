import WideColumn.Value.Json
import WideColumn.Json.Printer
import WideColumn.Double.Text

/-! Values as text. Scalars are shown plainly and containers as compact JSON. -/
namespace WideColumn.Value

def display : Value → String
  | .null => "null"
  | .bool b => toString b
  | .int n => toString n.toInt
  | .float x => x.display
  | .string text => text
  | .bytes data => base64 data
  | other => other.toJson.print

/-- The text of a value inside a joined attribute: null adds nothing. -/
def joinSegment : Value → String
  | .null => ""
  | other => other.display

end WideColumn.Value
