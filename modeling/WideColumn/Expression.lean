import WideColumn.Codec
import WideColumn.Condition.Key
import WideColumn.Condition.Text
import WideColumn.Expression.Kind
import WideColumn.Expression.Placeholder
import WideColumn.Schema.Resolution

/-! What the store is told of a condition: a text over placeholders and what they stand for. A
name has one placeholder, numbered by first appearance, and every operand has its own. Names are
the stored ones: the key attributes of an index, or the key that is stored in place of an omitted
source. -/
namespace WideColumn

structure Expression where
  kind : ExpressionKind
  text : String
  names : NameMap String
  values : NameMap WireValue
  /-- The secondary index that a key condition addresses. -/
  index : Option String

structure Addressing where
  rename : String → String
  index : Option String

namespace Schema

/-- The stored name of an attribute in filters and write conditions. -/
def storedName (s : Schema) (name : String) : String :=
  if s.storeAliases then name else (s.keys.keysOf name).headD name

def address (s : Schema) (key : KeyNames) (explicit : Option String) :
    Except MapperError Addressing := do
  let b ← s.resolve key.toList explicit
  let index := if b.index.isPrimary then none else some b.index.name
  match key.sort, b.index.sort with
  | none, _ => return ⟨fun _ => b.index.partition, index⟩
  | some _, some sort =>
    return ⟨fun name => if name = key.partition then b.index.partition else sort, index⟩
  | some name, none => throw (.keyCondition (.indexWithoutSort b.index.name name))

end Schema

namespace Condition

def symbolic (kind : ExpressionKind) (c : Condition α) : Condition String :=
  (c.number 0).map (fun name => Placeholder.numbered kind.nameStem (c.names.idxOf name))
    (Placeholder.numbered kind.valueStem)

end Condition

namespace Expression

def ofCondition (kind : ExpressionKind) (addressing : Addressing) (c : Condition Value) :
    Except MapperError Expression := do
  let operands ← Value.serializeList c.operands
  return {
    kind
    text := (c.symbolic kind).text
    names := Placeholder.table kind.nameStem (c.names.map addressing.rename)
    values := Placeholder.table kind.valueStem operands
    index := addressing.index }

/-- Compiles a condition. Only a key condition has an index, which may be asked for by name. -/
def compile (s : Schema) (c : Condition Value) (kind : ExpressionKind) (explicit : Option String) :
    Except MapperError Expression := do
  match kind with
  | .keyCondition =>
    let key ← c.keyNames.mapError .keyCondition
    ofCondition kind (← s.address key explicit) c
  | .filter | .writeCondition => ofCondition kind ⟨s.storedName, none⟩ c

end Expression

end WideColumn
