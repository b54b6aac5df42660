import WideColumn.Error

/-! The three kinds of expressions. Each has placeholders of its own, so expressions of
different kinds can share the tables of one request. -/
namespace WideColumn

inductive ExpressionKind where
  | keyCondition
  | filter
  | writeCondition
  deriving DecidableEq, Repr

namespace ExpressionKind

/-- The request parameter that holds the text. -/
def parameter : ExpressionKind → String
  | .keyCondition => "KeyConditionExpression"
  | .filter => "FilterExpression"
  | .writeCondition => "ConditionExpression"

def nameStem : ExpressionKind → String
  | .keyCondition => "#key_name"
  | .filter => "#attribute_name"
  | .writeCondition => "#condition_attribute_name"

/-- What the placeholders of values start with. -/
def valueStem : ExpressionKind → String
  | .keyCondition => ":key_value"
  | .filter => ":attribute_value"
  | .writeCondition => ":condition_attribute_value"

def ofParameter (parameter : String) : Except MapperError ExpressionKind :=
  match parameter with
  | "KeyConditionExpression" => .ok .keyCondition
  | "FilterExpression" => .ok .filter
  | "ConditionExpression" => .ok .writeCondition
  | other => .error (.expressionKind other)

end ExpressionKind

end WideColumn
