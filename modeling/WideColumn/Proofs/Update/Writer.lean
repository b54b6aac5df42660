import WideColumn.Proofs.Expression.Faithful
import WideColumn.Update

/-! Writing an update in one pass. One counter goes through what is set and then through what is
removed, and each action is written as its placeholders are handed out. `Writer.changes_eq` says
that the pass ends with the request that `Record.changesRequest` makes at once. -/
namespace WideColumn.Update

open Outcome Placeholder

structure Writer where
  names : NameMap String := {}
  values : NameMap WireValue := {}
  assignments : List String := []
  removals : List String := []
  counter : Nat := 0

namespace Writer

def assign (w : Writer) (entry : String × Value) : Except MapperError Writer := do
  let symbol := numbered nameStem w.counter
  let operand := numbered valueStem w.counter
  let stored ← entry.2.serialize
  return { w with
    names := w.names.insert symbol entry.1
    values := w.values.insert operand stored
    assignments := w.assignments ++ [symbol ++ " = " ++ operand]
    counter := w.counter + 1 }

def remove (w : Writer) (name : String) : Writer :=
  let symbol := numbered nameStem w.counter
  { w with
    names := w.names.insert symbol name
    removals := w.removals ++ [symbol]
    counter := w.counter + 1 }

def text (w : Writer) : String :=
  " ".intercalate (clause "SET" w.assignments ++ clause "REMOVE" w.removals)

def changes (s : Schema) (r : Record) (d : Diff) : Except MapperError Request.UpdateItem := do
  let key ← r.snapshotKey s
  let assigned ← d.assigned.entries.foldlM assign {}
  let w := d.removed.names.foldl remove assigned
  return {
    table := s.table
    key
    update := some w.text
    names := w.names
    values := w.values }

/-- The writer that has set these attributes and removed those. -/
def reached (assigned : List (String × WireValue)) (removed : List String) : Writer where
  names := table nameStem (assigned.map Prod.fst ++ removed)
  values := table valueStem (assigned.map Prod.snd)
  assignments := (List.range assigned.length).map assignment
  removals := (List.range' assigned.length removed.length).map (numbered nameStem)
  counter := assigned.length + removed.length

theorem assign_reached (assigned : List (String × WireValue)) (entry : String × Value) :
    (reached assigned []).assign entry = entry.2.serialize.map fun stored =>
      reached (assigned ++ [(entry.1, stored)]) [] := by
  rw [assign]
  cases entry.2.serialize with
  | error e => rfl
  | ok stored =>
    have names := table_concat nameStem (assigned.map Prod.fst) entry.1
    have values := table_concat valueStem (assigned.map Prod.snd) stored
    rw [List.length_map] at names values
    simp only [Except.map, reached, List.map_append, List.map_singleton, List.append_nil, names, values,
      List.length_append, List.length_singleton, List.range_succ]
    rfl

theorem assignAll_reached (assigned : List (String × WireValue)) (entries : List (String × Value)) :
    entries.foldlM assign (reached assigned []) =
      (Value.serializeList (entries.map Prod.snd)).map fun stored =>
        reached (assigned ++ (entries.map Prod.fst).zip stored) [] := by
  induction entries generalizing assigned with
  | nil =>
    simp only [List.map_nil, Value.serializeList, Except.map, List.zip_nil_left, List.append_nil]
    rfl
  | cons entry rest ih =>
    simp only [List.foldlM_cons, assign_reached, List.map_cons, Value.serializeList]
    cases entry.2.serialize with
    | error e => rfl
    | ok first =>
      simp only [Except.map, ok_bind, ih]
      cases Value.serializeList (rest.map Prod.snd) with
      | error e => rfl
      | ok stored =>
        simp only [List.append_assoc]
        rfl

theorem remove_reached (assigned : List (String × WireValue)) (removed : List String) (name : String) :
    (reached assigned removed).remove name = reached assigned (removed ++ [name]) := by
  have names := table_concat nameStem (assigned.map Prod.fst ++ removed) name
  rw [List.length_append, List.length_map, List.append_assoc] at names
  simp only [remove, reached, names, List.length_append, List.length_singleton, List.range'_concat,
    List.map_append, List.map_singleton, Nat.one_mul, Nat.add_assoc]

theorem removeAll_reached (assigned : List (String × WireValue)) (removed names : List String) :
    names.foldl remove (reached assigned removed) = reached assigned (removed ++ names) := by
  induction names generalizing removed with
  | nil => rw [List.append_nil, List.foldl_nil]
  | cons name rest ih =>
    rw [List.foldl_cons, remove_reached, ih, List.append_assoc, List.singleton_append]

/-- The pass ends with the request that is numbered as a whole, or with the same fault. -/
theorem changes_eq (s : Schema) (r : Record) (d : Diff) : changes s r d = r.changesRequest s d := by
  have assigned : d.assigned.entries.foldlM assign {} = _ := assignAll_reached [] d.assigned.entries
  rw [changes, Record.changesRequest, assigned]
  cases r.snapshotKey s with
  | error e => rfl
  | ok key =>
    cases done : Value.serializeList (d.assigned.entries.map Prod.snd) with
    | error e =>
      simp only [ok_bind, done]
      rfl
    | ok stored =>
      have length : stored.length = (d.assigned.entries.map Prod.fst).length := by
        rw [Value.length_serializeList done, List.length_map, List.length_map]
      have names : ((d.assigned.entries.map Prod.fst).zip stored).map Prod.fst = d.assigned.names :=
        List.map_fst_zip (Nat.le_of_eq length.symm)
      have values : ((d.assigned.entries.map Prod.fst).zip stored).map Prod.snd = stored :=
        List.map_snd_zip (Nat.le_of_eq length)
      have assignments : ((d.assigned.entries.map Prod.fst).zip stored).length = d.assigned.size := by
        rw [← List.length_map (f := Prod.fst), names, NameMap.names, List.length_map, NameMap.size]
      have removals : d.removed.names.length = d.removed.size := List.length_map _
      simp only [ok_bind, done, Except.map, removeAll_reached, List.nil_append]
      simp only [reached, text, names, values, assignments, removals]
      rfl

end Writer

end WideColumn.Update
