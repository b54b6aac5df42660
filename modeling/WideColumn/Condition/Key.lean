import WideColumn.Condition
import WideColumn.Error

/-! Conditions that address a key: conjunctions of one or two tests of different
attributes, at least one of them an equality. The attribute of the first equality is the
partition. -/
namespace WideColumn

/-- The attributes that a condition addresses a key by. -/
structure KeyNames where
  partition : String
  sort : Option String
  deriving DecidableEq, Repr

def KeyNames.toList (k : KeyNames) : List String := k.partition :: k.sort.toList

namespace Condition

def keyNames (c : Condition α) : Except KeyConditionFault KeyNames := do
  let some tests := c.conjuncts? | throw .notConjunction
  let names := c.names
  if names.length > 2 then throw (.tooManyNames names.length)
  if tests.length ≠ names.length then throw .severalPredicates
  if let some (name, _) := tests.find? fun (_, test) => !test.addressesKey then
    throw (.operator name)
  match tests.find? fun (_, test) => test.isEquality with
  | some (partition, _) => return ⟨partition, names.find? (· != partition)⟩
  | none => throw (.noEquality (names.headD ""))

end Condition

end WideColumn
