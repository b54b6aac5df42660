import WideColumn.Value
import WideColumn.NameMap

/-! What has to be added, changed and removed to get from one map of values to another. -/
namespace WideColumn

structure Change where
  old : Value
  new : Value

structure Diff where
  added : NameMap Value := {}
  changed : NameMap Change := {}
  removed : NameMap Value := {}

namespace Diff

def hasChanged (d : Diff) : Bool := !(d.added.isEmpty && d.changed.isEmpty && d.removed.isEmpty)

def touches (d : Diff) (name : String) : Bool :=
  d.added.contains name || d.changed.contains name || d.removed.contains name

/-- The names that one map has and the other has not. -/
def missing (m other : NameMap Value) : NameMap Value := m.filter fun name => !other.contains name

/-- The names of both maps whose values are not the same. -/
def changes (snapshot : NameMap Value) : List (String × Value) → NameMap Change
  | [] => {}
  | (name, new) :: rest =>
    match snapshot.get? name with
    | some old => if old == new then changes snapshot rest
      else (changes snapshot rest).insert name ⟨old, new⟩
    | none => changes snapshot rest

def compute (snapshot current : NameMap Value) : Diff where
  added := missing current snapshot
  changed := changes snapshot current.entries
  removed := missing snapshot current

end Diff

end WideColumn
