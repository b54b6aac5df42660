import WideColumn.Config
import WideColumn.Value.Text

/-! Joined attributes. Such an attribute is the text of its sources, in order, with a
separator in between. -/
namespace WideColumn

structure Joined where
  target : String
  sources : List String
  separator : String := defaultSeparator
  deriving DecidableEq, Repr

namespace Joined

/-- The segment of one source. A missing source has an empty one. -/
def segment (values : NameMap Value) (source : String) : String :=
  ((values.get? source).map Value.joinSegment).getD ""

def compute (j : Joined) (values : NameMap Value) : Value :=
  .string (j.separator.intercalate (j.sources.map (segment values)))

end Joined

end WideColumn
