import WideColumn.Value

/-! Boolean combinations of tests of single attributes. A condition is written over the
names and the native values of an application; the same tree over placeholders or over
stored values is what its text says. -/
namespace WideColumn

inductive Comparison where
  | eq
  | ne
  | lt
  | le
  | gt
  | ge
  deriving DecidableEq, Repr

def Comparison.symbol : Comparison → String
  | .eq => "="
  | .ne => "<>"
  | .lt => "<"
  | .le => "<="
  | .gt => ">"
  | .ge => ">="

inductive Test (α : Type) where
  | compare (op : Comparison) (operand : α)
  | between (low high : α)
  | beginsWith (start : α)
  | contains (operand : α)
  | isIn (candidates : List α)
  | present
  | absent
  deriving BEq

namespace Test

/-- In the order of the text. -/
def operands : Test α → List α
  | .compare _ operand => [operand]
  | .between low high => [low, high]
  | .beginsWith start => [start]
  | .contains operand => [operand]
  | .isIn candidates => candidates
  | .present => []
  | .absent => []

def map (f : α → β) : Test α → Test β
  | .compare op operand => .compare op (f operand)
  | .between low high => .between (f low) (f high)
  | .beginsWith start => .beginsWith (f start)
  | .contains operand => .contains (f operand)
  | .isIn candidates => .isIn (candidates.map f)
  | .present => .present
  | .absent => .absent

/-- Puts the numbers from `next` on in the place of the operands. -/
def number (next : Nat) : Test α → Test Nat
  | .compare op _ => .compare op next
  | .between _ _ => .between next (next + 1)
  | .beginsWith _ => .beginsWith next
  | .contains _ => .contains next
  | .isIn candidates => .isIn (List.range' next candidates.length)
  | .present => .present
  | .absent => .absent

def isEquality : Test α → Bool
  | .compare .eq _ => true
  | _ => false

/-- Whether the store can use the test to look up a key. -/
def addressesKey : Test α → Bool
  | .compare op _ => op ≠ .ne
  | .between _ _ => true
  | .beginsWith _ => true
  | _ => false

theorem operands_map (f : α → β) (t : Test α) : (t.map f).operands = t.operands.map f := by
  cases t <;> rfl

theorem operands_number (next : Nat) (t : Test α) :
    (t.number next).operands = List.range' next t.operands.length := by
  cases t <;> rfl

end Test

inductive Condition (α : Type) where
  | leaf (name : String) (test : Test α)
  | and (left right : Condition α)
  | or (left right : Condition α)
  | not (inner : Condition α)
  deriving BEq

namespace Condition

/-- Adds what is not there yet, at the end. -/
def appendNew (names : List String) (name : String) : List String :=
  if names.contains name then names else names ++ [name]

def collectNames (names : List String) : Condition α → List String
  | .leaf name _ => appendNew names name
  | .and left right => right.collectNames (left.collectNames names)
  | .or left right => right.collectNames (left.collectNames names)
  | .not inner => inner.collectNames names

/-- The distinct names, in order of first appearance. -/
def names (c : Condition α) : List String := c.collectNames []

/-- In the order of the text. -/
def operands : Condition α → List α
  | .leaf _ test => test.operands
  | .and left right => left.operands ++ right.operands
  | .or left right => left.operands ++ right.operands
  | .not inner => inner.operands

def map (rename : String → String) (f : α → β) : Condition α → Condition β
  | .leaf name test => .leaf (rename name) (test.map f)
  | .and left right => .and (left.map rename f) (right.map rename f)
  | .or left right => .or (left.map rename f) (right.map rename f)
  | .not inner => .not (inner.map rename f)

def number (next : Nat) : Condition α → Condition Nat
  | .leaf name test => .leaf name (test.number next)
  | .and left right => .and (left.number next) (right.number (next + left.operands.length))
  | .or left right => .or (left.number next) (right.number (next + left.operands.length))
  | .not inner => .not (inner.number next)

/-- The name that a single test is about. -/
def leafName? : Condition α → Option String
  | .leaf name _ => some name
  | _ => none

/-- The tests of a pure conjunction, from left to right. -/
def conjuncts? : Condition α → Option (List (String × Test α))
  | .leaf name test => some [(name, test)]
  | .and left right => do return (← left.conjuncts?) ++ (← right.conjuncts?)
  | .or _ _ => none
  | .not _ => none

theorem operands_map (rename : String → String) (f : α → β) (c : Condition α) :
    (c.map rename f).operands = c.operands.map f := by
  induction c with
  | leaf name test => exact test.operands_map f
  | and left right ihl ihr => simp [map, operands, ihl, ihr]
  | or left right ihl ihr => simp [map, operands, ihl, ihr]
  | not inner ih => exact ih

theorem operands_number (next : Nat) (c : Condition α) :
    (c.number next).operands = List.range' next c.operands.length := by
  induction c generalizing next with
  | leaf name test => exact test.operands_number next
  | and left right ihl ihr => simp [number, operands, ihl, ihr]
  | or left right ihl ihr => simp [number, operands, ihl, ihr]
  | not inner ih => exact ih next

end Condition

end WideColumn
