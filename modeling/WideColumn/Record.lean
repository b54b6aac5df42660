import WideColumn.Value
import WideColumn.NameMap

/-! Records: the current values of one object, and the values it had when it was created or
loaded. Joined attributes and physical keys stand among the values like any other attribute. A
record does not hold its schema: what is done with it is given the schema it was made for. -/
namespace WideColumn

structure Record where
  values : NameMap Value
  snapshot : NameMap Value

def Record.get? (r : Record) (name : String) : Option Value := r.values.get? name

/-- Changes a value on its way into an attribute, given the attribute's name, the new value and
the record as it stands. -/
abbrev Transform := String → Value → Record → Value

/-- Every value assigned to the attribute goes through the transform. -/
structure Mutator where
  target : String
  transform : Transform

def Mutator.apply (m : Mutator) (value : Value) (r : Record) : Value := m.transform m.target value r

end WideColumn
