import WideColumn.Expression
import WideColumn.Record.Storage

/-! An update sets what was added or changed since a record was created or loaded, and
removes what was removed, each in order of name. One run of numbers goes through the
placeholders of both, so the text depends on nothing but how many attributes are set and
removed. -/
namespace WideColumn

namespace Update

def nameStem : String := "#update_name"

def valueStem : String := ":update_value"

def assignment (n : Nat) : String :=
  Placeholder.numbered nameStem n ++ " = " ++ Placeholder.numbered valueStem n

def clause (keyword : String) : List String → List String
  | [] => []
  | actions => [keyword ++ " " ++ ", ".intercalate actions]

/-- Sets the first names of the table and removes the ones behind them. -/
def text (assigned removed : Nat) : String :=
  let sets := (List.range assigned).map assignment
  let removals := (List.range' assigned removed).map (Placeholder.numbered nameStem)
  " ".intercalate (clause "SET" sets ++ clause "REMOVE" removals)

end Update

def Diff.assigned (d : Diff) : NameMap Value := d.added.union (d.changed.map (·.new))

def Request.UpdateItem.onlyIf (request : Request.UpdateItem) (e : Expression) :
    Request.UpdateItem :=
  { request with
    condition := some e.text
    names := request.names.union e.names
    values := request.values.union e.values }

namespace Record

def changesRequest (s : Schema) (r : Record) (d : Diff) :
    Except MapperError Request.UpdateItem := do
  let key ← r.snapshotKey s
  let assigned := d.assigned
  let values ← Value.serializeList (assigned.entries.map (·.2))
  return {
    table := s.table
    key
    update := some (Update.text assigned.size d.removed.size)
    names := Placeholder.table Update.nameStem (assigned.names ++ d.removed.names)
    values := Placeholder.table Update.valueStem values }

/-- The update that brings the stored object up to date, or none when nothing changed. The
primary key stays as it is. -/
def updateRequest (s : Schema) (r : Record) (condition : Option (Condition Value)) :
    Except MapperError (Option Request.UpdateItem) := do
  let d := r.diff s
  if !d.hasChanged then return none
  if let some name := s.primary.index.keyAttributes.find? d.touches then
    throw (.immutable name .primaryKey)
  let request ← r.changesRequest s d
  match condition with
  | none => return some request
  | some c => return some (request.onlyIf (← Expression.compile s c .writeCondition none))

end Record

end WideColumn
